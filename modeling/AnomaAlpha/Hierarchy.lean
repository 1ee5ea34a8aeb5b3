import AnomaAlpha.Grammar
import Mathlib.Data.List.Induction

namespace AnomaAlpha

theorem joined_append (front back : List (List Char)) : joined (front ++ back) = joined front ++ joined back :=
  List.flatMap_append

theorem joined_single (segment : List Char) : joined [segment] = '/' :: segment := by
  simp [joined]

theorem segment_no_slash {segment : List Char} (good : Segment segment) : '/' ∉ segment := by
  intro member
  have slash := good.2 '/' member
  rw [slash_separates] at slash
  cases slash

-- What follows a well-formed path behind a slash is judged on its own.
theorem grammatical_behind {front : List Char} (formed : Grammatical front) (chars : List Char) :
    Grammatical (front ++ '/' :: chars) ↔ Grammatical ('/' :: chars) := by
  constructor
  · intro whole
    obtain ⟨middle,n,rfl,scanned⟩ := check_parts ((check_iff _).mpr formed)
    obtain ⟨all,m,split,ended⟩ := check_parts ((check_iff _).mpr whole)
    cases split
    change scanSegments 0 (middle ++ '/' :: chars) = _ at ended
    rw [scan_append,scanned] at ended
    change scanSegments (n+1) ('/' :: chars) = _ at ended
    rw [scanSegments,if_neg (by simp),if_pos (by decide),if_pos rfl] at ended
    exact (check_iff _).mp (check_slash ended)
  · intro own
    obtain ⟨back,_,each,parts⟩ := own
    obtain ⟨segments,filled,earlier,rfl⟩ := formed
    refine ⟨segments ++ back,by simp [filled],?_,by rw [joined_append,parts]⟩
    intro s member
    rcases List.mem_append.mp member with here | there
    · exact earlier s here
    · exact each s there

theorem slashPos_some (address : Address) : slashPos address.path.toList ≠ none := by
  obtain ⟨chars,_,parts,_⟩ := check_parts address.checked
  unfold slashPos
  rw [Ne,Option.map_eq_none_iff,List.findIdx?_eq_none_iff,parts]
  intro absent
  have slash := absent '/' (by simp)
  cases slash

theorem next_some {current ancestor : Address} (step : AncestorIterator.next current = some ancestor) :
    ∃ segment, '/' ∉ segment ∧ current.path.toList = ancestor.path.toList ++ '/' :: segment := by
  unfold AncestorIterator.next at step
  split at step
  · cases step
  · cases step
  · rename_i position found
    cases step
    obtain ⟨front,segment,parts,length,inner⟩ := slashPos_split current.checked found
    refine ⟨segment,inner,?_⟩
    rw [String.toList_ofList,parts,List.take_left' length]

theorem next_none {current : Address} (stop : AncestorIterator.next current = none) :
    ∃ segment, '/' ∉ segment ∧ current.path.toList = '/' :: segment := by
  unfold AncestorIterator.next at stop
  split at stop
  · rename_i absent
    exact (slashPos_some current absent).elim
  · rename_i found
    obtain ⟨front,segment,parts,length,inner⟩ := slashPos_split current.checked found
    rw [List.length_eq_zero_iff.mp length] at parts
    exact ⟨segment,inner,parts⟩
  · cases stop

theorem split_slash {front back segment chars : List Char} (inner : '/' ∉ segment)
    (same : front ++ '/' :: segment = back ++ '/' :: chars) :
    back = front ∨ ∃ middle, front = back ++ '/' :: middle := by
  rcases List.append_eq_append_iff.mp same with ⟨more,rfl,parts⟩ | ⟨more,rfl,parts⟩
  · cases more with
    | nil => exact .inl (List.append_nil front)
    | cons c more =>
        rw [List.cons_append,List.cons.injEq] at parts
        rw [parts.2] at inner
        exact (inner (by simp)).elim
  · cases more with
    | nil => exact .inl (List.append_nil back).symm
    | cons c more =>
        rw [List.cons_append,List.cons.injEq] at parts
        exact .inr ⟨more,by rw [parts.1]⟩

theorem ancestors_iff (a b : Address) : a ∈ b.ancestors ↔ ∃ chars, b.path.toList = a.path.toList ++ '/' :: chars := by
  induction sized : b.path.length using Nat.strong_induction_on generalizing b with
  | _ n ih =>
      rw [ancestors_step]
      cases step : AncestorIterator.next b with
      | none =>
          obtain ⟨segment,inner,parts⟩ := next_none step
          constructor
          · intro member
            cases member
          · intro given
            obtain ⟨chars,longer⟩ := given
            obtain ⟨middle,_,leading,_⟩ := check_parts a.checked
            rw [parts,leading,List.cons_append,List.cons.injEq] at longer
            rw [longer.2] at inner
            exact (inner (by simp)).elim
      | some parent =>
          obtain ⟨segment,inner,parts⟩ := next_some step
          have above := ih parent.path.length (sized ▸ next_shorter step) parent rfl
          rw [List.mem_cons,above]
          constructor
          · intro given
            rcases given with rfl | ⟨chars,longer⟩
            · exact ⟨segment,parts⟩
            · exact ⟨chars ++ '/' :: segment,by rw [parts,longer]; simp⟩
          · intro given
            obtain ⟨chars,longer⟩ := given
            rw [parts] at longer
            rcases split_slash inner longer with same | longer
            · exact .inl (Address.ext_path (String.toList_inj.mp same))
            · exact .inr longer

theorem isParentOf_iff (a b : Address) : a.isParentOf b = true ↔ a ∈ b.ancestors := by
  rw [ancestors_iff,Address.isParentOf,List.isPrefixOf_iff_prefix]
  constructor
  · intro given
    obtain ⟨chars,same⟩ := given
    exact ⟨chars,by rw [← same]; simp⟩
  · intro given
    obtain ⟨chars,same⟩ := given
    exact ⟨chars,by rw [same]; simp⟩

theorem ancestors_shorter (b : Address) : ∀ a ∈ b.ancestors, a.path.length < b.path.length := by
  intro a member
  obtain ⟨chars,longer⟩ := (ancestors_iff a b).mp member
  rw [← String.length_toList,← String.length_toList (s:=b.path),longer,List.length_append,List.length_cons]
  omega

theorem ancestors_descend (b : Address) :
    b.ancestors.Pairwise fun nearer farther => farther.path.length < nearer.path.length := by
  induction sized : b.path.length using Nat.strong_induction_on generalizing b with
  | _ n ih =>
      rw [ancestors_step]
      cases step : AncestorIterator.next b with
      | none => exact .nil
      | some parent => exact .cons (ancestors_shorter parent) (ih _ (sized ▸ next_shorter step) parent rfl)

theorem ancestors_segments {segments : List (List Char)} (each : ∀ s ∈ segments, Segment s) (b : Address)
    (parts : b.path.toList = joined segments) : b.ancestors.map (fun a => a.path.toList) =
      (List.range' 1 (segments.length-1)).reverse.map fun n => joined (segments.take n) := by
  induction segments using List.reverseRecOn generalizing b with
  | nil =>
      obtain ⟨_,_,leading,_⟩ := check_parts b.checked
      rw [leading] at parts
      cases parts
  | append_singleton segments last ih =>
      have inner := segment_no_slash (each last (by simp))
      rw [joined_append,joined_single] at parts
      rw [ancestors_step]
      cases step : AncestorIterator.next b with
      | none =>
          obtain ⟨segment,plain,only⟩ := next_none step
          cases segments with
          | nil => rfl
          | cons first segments =>
              change _ = '/' :: (first ++ joined segments) ++ '/' :: last at parts
              rw [only,List.cons_append,List.cons.injEq] at parts
              rw [parts.2] at plain
              exact (plain (by simp)).elim
      | some parent =>
          obtain ⟨segment,plain,longer⟩ := next_some step
          have same : joined segments = parent.path.toList := by
            rcases split_slash plain (longer.symm.trans parts) with same | ⟨middle,shorter⟩
            · exact same
            · rw [longer,shorter,List.append_assoc] at parts
              have behind := List.append_cancel_left parts
              rw [List.cons_append,List.cons.injEq] at behind
              rw [← behind.2] at inner
              exact (inner (by simp)).elim
          have filled : segments ≠ [] := by
            intro same
            subst same
            obtain ⟨_,_,leading,_⟩ := check_parts parent.checked
            rw [leading] at same
            cases same
          have above := ih (fun s member => each s (List.mem_append_left _ member)) parent same.symm
          obtain ⟨n,counted⟩ := Nat.exists_eq_succ_of_ne_zero (List.length_pos_iff.mpr filled).ne'
          have longer : (segments ++ [last]).length - 1 = n+1 := by simp [counted]
          have whole : joined ((segments ++ [last]).take (1+n)) = parent.path.toList := by
            rw [List.take_left' (by omega),same]
          rw [List.map_cons,above,longer,counted,Nat.succ_sub_one,List.range'_1_concat,List.reverse_append,
            List.reverse_singleton,List.singleton_append,List.map_cons,whole]
          congr 1
          refine List.map_congr_left fun k member => ?_
          have below := (List.mem_range'_1.mp (List.mem_reverse.mp member)).2
          rw [List.take_append_of_le_length (by omega)]

theorem ancestors_grammar (b : Address) : ∃ segments : List (List Char), segments ≠ [] ∧ (∀ s ∈ segments, Segment s) ∧
    b.path.toList = joined segments ∧ b.ancestors.map (fun a => a.path.toList) =
      (List.range' 1 (segments.length-1)).reverse.map fun n => joined (segments.take n) := by
  obtain ⟨segments,filled,each,parts⟩ := b.grammatical
  exact ⟨segments,filled,each,parts,ancestors_segments each b parts⟩

theorem combine_accepts (a : Address) (segment : String) :
    (∃ c, a.combine segment = .ok c) ↔ Grammatical ('/' :: segment.toList) := by
  rw [Address.combine,new_accepts,← grammatical_behind a.grammatical]
  simp

theorem combine_below {a c : Address} {segment : String} (combined : a.combine segment = .ok c) :
    c.path.toList = a.path.toList ++ '/' :: segment.toList := by
  rw [new_ok.mp combined]
  simp

theorem hierarchy_views_agree (a b : Address) (segment : String) :
    (∀ fuel, b.path.length ≤ fuel → AncestorIterator.collect fuel b = b.ancestors) ∧
    (∀ address ∈ b :: b.ancestors, slashPos address.path.toList ≠ none) ∧
    (∃ segments : List (List Char), segments ≠ [] ∧ (∀ s ∈ segments, Segment s) ∧
      b.path.toList = joined segments ∧ b.ancestors.map (fun a => a.path.toList) =
        (List.range' 1 (segments.length-1)).reverse.map fun n => joined (segments.take n)) ∧
    b.ancestors.Pairwise (fun nearer farther => farther.path.length < nearer.path.length) ∧ b.ancestors.Nodup ∧
    (∀ ancestor ∈ b.ancestors, Grammatical ancestor.path.toList) ∧
    (a.isParentOf b = true ↔ a ∈ b.ancestors) ∧
    ((∃ c, a.combine segment = .ok c) ↔ ∃ own, Address.new ("/" ++ segment) = .ok own) ∧
    ∀ c, a.combine segment = .ok c →
      a ∈ c.ancestors ∧ c.path.toList.drop a.path.toList.length = ("/" ++ segment).toList := by
  refine ⟨fun fuel enough => collect_fuel (Nat.le_refl _) enough,fun address _ => slashPos_some address,
    ancestors_grammar b,ancestors_descend b,?_,fun ancestor _ => ancestor.grammatical,isParentOf_iff a b,?_,?_⟩
  · refine (ancestors_descend b).imp ?_
    intro nearer farther shorter same
    exact (same ▸ shorter).ne rfl
  · rw [combine_accepts,new_accepts]
    simp
  · intro c combined
    have below := combine_below combined
    refine ⟨(ancestors_iff a c).mpr ⟨segment.toList,below⟩,?_⟩
    rw [below,List.drop_left]
    simp

example : (Address.mk "/token/usdx/alice" (by decide)).ancestors.map Address.path = ["/token/usdx","/token"] := by decide
example : (Address.mk "/token" (by decide)).isParentOf ⟨"/tokens/usdx",by decide⟩ = false := by decide

end AnomaAlpha
