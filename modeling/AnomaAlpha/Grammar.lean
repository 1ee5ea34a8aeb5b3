import AnomaAlpha.Address

namespace AnomaAlpha

def segmentChar (c : Char) : Bool := c.isAlphanum || allowedSymbols.any (· == c)

def Segment (chars : List Char) : Prop := chars ≠ [] ∧ ∀ c ∈ chars, segmentChar c = true

def joined (segments : List (List Char)) : List Char := segments.flatMap fun chars => '/' :: chars

-- The paths that an address is meant to have: `('/' segment)+`.
def Grammatical (path : List Char) : Prop :=
  ∃ segments : List (List Char), segments ≠ [] ∧ (∀ chars ∈ segments, Segment chars) ∧ path = joined segments

-- What may follow once `segmentLen` characters of a segment have been read.
def Residual (segmentLen : Nat) (chars : List Char) : Prop :=
  ∃ (front : List Char) (segments : List (List Char)), 0 < segmentLen + front.length ∧
    (∀ c ∈ front, segmentChar c = true) ∧ (∀ s ∈ segments, Segment s) ∧ chars = front ++ joined segments

theorem allowed_char (c : Char) : allowedChar c = true ↔ c = '/' ∨ segmentChar c = true := by
  unfold allowedChar segmentChar
  rw [Bool.or_eq_true,Bool.or_eq_true,Bool.or_eq_true,beq_iff_eq,or_right_comm,or_comm]

theorem slash_separates : segmentChar '/' = false := by decide

theorem residual_end (segmentLen : Nat) : Residual segmentLen [] ↔ 0 < segmentLen := by
  constructor
  · intro ⟨front,segments,nonempty,_,_,parts⟩
    have empty := (List.append_eq_nil_iff.mp parts.symm).1
    rwa [empty] at nonempty
  · intro positive
    exact ⟨[],[],positive,nofun,nofun,rfl⟩

theorem residual_slash (segmentLen : Nat) (chars : List Char) :
    Residual segmentLen ('/' :: chars) ↔ 0 < segmentLen ∧ Residual 0 chars := by
  constructor
  · intro ⟨front,segments,nonempty,plain,each,parts⟩
    cases front with
    | cons c front =>
        rw [List.cons_append,List.cons.injEq] at parts
        have slash := plain c (by simp)
        rw [← parts.1,slash_separates] at slash
        cases slash
    | nil =>
        cases segments with
        | nil => cases parts
        | cons first segments =>
            obtain ⟨filled,inner⟩ := each first (by simp)
            refine ⟨nonempty,first,segments,?_,inner,fun s member => each s (List.mem_cons_of_mem _ member),?_⟩
            · have positive := List.length_pos_iff.mpr filled
              omega
            · exact (List.cons.inj parts).2
  · intro ⟨positive,front,segments,nonempty,plain,each,parts⟩
    have filled : Segment front := ⟨List.length_pos_iff.mp (by omega),plain⟩
    refine ⟨[],front :: segments,positive,nofun,?_,by rw [parts]; rfl⟩
    intro s member
    rcases List.mem_cons.mp member with rfl | later
    · exact filled
    · exact each s later

theorem residual_char (segmentLen : Nat) {c : Char} (inner : c ≠ '/') (chars : List Char) :
    Residual segmentLen (c :: chars) ↔ segmentChar c = true ∧ Residual (segmentLen+1) chars := by
  constructor
  · intro ⟨front,segments,_,plain,each,parts⟩
    cases front with
    | nil =>
        cases segments with
        | nil => cases parts
        | cons first segments => exact (inner (List.cons.inj parts).1).elim
    | cons first front =>
        rw [List.cons_append,List.cons.injEq] at parts
        obtain ⟨rfl,parts⟩ := parts
        exact ⟨plain c (by simp),front,segments,by omega,fun x member => plain x (List.mem_cons_of_mem _ member),each,parts⟩
  · intro ⟨allowed,front,segments,_,plain,each,parts⟩
    refine ⟨c :: front,segments,?_,?_,each,by rw [parts]; rfl⟩
    · rw [List.length_cons]
      omega
    · intro x member
      rcases List.mem_cons.mp member with rfl | later
      · exact allowed
      · exact plain x later

theorem scan_residual (segmentLen : Nat) (chars : List Char) :
    (∃ n, scanSegments segmentLen chars = .ok (n+1)) ↔ Residual segmentLen chars := by
  induction chars generalizing segmentLen with
  | nil =>
      rw [residual_end]
      constructor
      · intro given
        obtain ⟨n,scanned⟩ := given
        cases scanned
        exact Nat.succ_pos n
      · intro positive
        exact ⟨segmentLen-1,by rw [scanSegments,Nat.sub_add_cancel positive]⟩
  | cons c chars ih =>
      unfold scanSegments
      by_cases slash : c = '/'
      · subst slash
        rw [residual_slash,← ih 0]
        by_cases empty : segmentLen = 0
        · rw [if_pos ⟨rfl,empty⟩]
          constructor
          · intro given
            obtain ⟨n,scanned⟩ := given
            cases scanned
          · intro given
            obtain ⟨positive,_⟩ := given
            omega
        · rw [if_neg fun both => empty both.2,if_pos (by decide),if_pos rfl]
          exact ⟨fun scanned => ⟨Nat.pos_of_ne_zero empty,scanned⟩,And.right⟩
      · rw [residual_char segmentLen slash,← ih (segmentLen+1),if_neg fun both => slash both.1,if_neg slash]
        by_cases allowed : segmentChar c = true
        · rw [if_pos ((allowed_char c).mpr (.inr allowed))]
          exact ⟨fun scanned => ⟨allowed,scanned⟩,And.right⟩
        · rw [if_neg fun fine => ((allowed_char c).mp fine).elim slash allowed]
          constructor
          · intro given
            obtain ⟨n,scanned⟩ := given
            cases scanned
          · intro given
            obtain ⟨fine,_⟩ := given
            exact (allowed fine).elim

-- The scanner accepts exactly the grammar.
theorem check_iff (path : List Char) : checkPath path = .ok () ↔ Grammatical path := by
  constructor
  · intro checked
    obtain ⟨chars,n,rfl,scanned⟩ := check_parts checked
    obtain ⟨front,segments,nonempty,plain,each,rfl⟩ := (scan_residual 0 chars).mp ⟨n,scanned⟩
    refine ⟨front :: segments,by simp,?_,rfl⟩
    intro s member
    rcases List.mem_cons.mp member with rfl | later
    · exact ⟨List.length_pos_iff.mp (by omega),plain⟩
    · exact each s later
  · intro ⟨segments,filled,each,parts⟩
    cases segments with
    | nil => exact (filled rfl).elim
    | cons first segments =>
        obtain ⟨nonempty,plain⟩ := each first (by simp)
        have rest : Residual 0 (first ++ joined segments) := by
          refine ⟨first,segments,?_,plain,fun s member => each s (List.mem_cons_of_mem _ member),rfl⟩
          have positive := List.length_pos_iff.mpr nonempty
          omega
        obtain ⟨n,scanned⟩ := (scan_residual 0 _).mpr rest
        rw [parts]
        exact check_slash scanned

theorem Address.grammatical (address : Address) : Grammatical address.path.toList :=
  (check_iff address.path.toList).mp address.checked

theorem new_ok {path : String} {address : Address} : Address.new path = .ok address ↔ address.path = path := by
  unfold Address.new
  constructor
  · intro made
    split at made
    · cases made
      rfl
    · cases made
  · intro same
    subst same
    split
    · rfl
    · rename_i refused
      rw [address.checked] at refused
      cases refused

theorem new_accepts {path : String} : (∃ address, Address.new path = .ok address) ↔ Grammatical path.toList := by
  rw [← check_iff]
  constructor
  · intro given
    obtain ⟨address,made⟩ := given
    rw [← new_ok.mp made]
    exact address.checked
  · intro checked
    exact ⟨⟨path,checked⟩,new_ok.mpr rfl⟩

end AnomaAlpha
