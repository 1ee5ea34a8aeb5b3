import Mathlib.Data.List.Sort

-- Loops over ordered maps and sets, as lookups in the collection they leave.
namespace OrderedMap

theorem foldl_pair {S T X : Type} (f : S → X → S) (g : T → X → T) (l : List X) (s : S) (t : T) :
    l.foldl (fun state x => (f state.1 x,g state.2 x)) (s,t) = (l.foldl f s,l.foldl g t) := by
  induction l generalizing s t with
  | nil => rfl
  | cons x l ih => exact ih _ _

variable {K V : Type} [Ord K] [Std.TransOrd K] [Std.LawfulEqOrd K]

instance decidableEqMap [DecidableEq K] [DecidableEq V] : DecidableEq (Std.ExtTreeMap K V) :=
  fun left right => decidable_of_iff (left.toList = right.toList) Std.ExtTreeMap.toList_inj
instance decidableEqSet [DecidableEq K] : DecidableEq (Std.ExtTreeSet K) :=
  fun left right => decidable_of_iff (left.toList = right.toList) Std.ExtTreeSet.toList_inj

@[simp] theorem mem_insert_iff (s : Std.ExtTreeSet K) (k a : K) : a ∈ s.insert k ↔ k = a ∨ a ∈ s := by
  simp [Std.ExtTreeSet.mem_insert]

@[simp] theorem mem_erase_iff (s : Std.ExtTreeSet K) (k a : K) : a ∈ s.erase k ↔ k ≠ a ∧ a ∈ s := by
  simp [Std.ExtTreeSet.mem_erase]

omit [Std.LawfulEqOrd K] in
theorem mem_foldl {X : Type} {f : Std.ExtTreeSet K → X → Std.ExtTreeSet K} {adds : X → Prop} {a : K}
    (step : ∀ s x, a ∈ f s x ↔ a ∈ s ∨ adds x) (l : List X) (s : Std.ExtTreeSet K) :
    a ∈ l.foldl f s ↔ a ∈ s ∨ ∃ x ∈ l, adds x := by
  induction l generalizing s with
  | nil => simp
  | cons x l ih => simp only [List.foldl_cons,ih,step,List.exists_mem_cons_iff,or_assoc]

theorem mem_insertAll (keys : List K) (s : Std.ExtTreeSet K) (a : K) :
    a ∈ keys.foldl (fun s k => s.insert k) s ↔ a ∈ keys ∨ a ∈ s := by
  induction keys generalizing s with
  | nil => simp
  | cons k keys ih =>
      rw [List.foldl_cons,ih,mem_insert_iff,List.mem_cons,eq_comm (a:=k),or_left_comm,or_assoc]

theorem mem_eraseAll (l : List V) (key : V → K) (s : Std.ExtTreeSet K) (a : K) :
    a ∈ l.foldl (fun s x => s.erase (key x)) s ↔ a ∈ s ∧ a ∉ l.map key := by
  induction l generalizing s with
  | nil => simp
  | cons x l ih =>
      rw [List.foldl_cons,ih,mem_erase_iff,List.map_cons,List.mem_cons,not_or,eq_comm (a:=a)]
      exact ⟨fun ⟨⟨other,inside⟩,later⟩ => ⟨inside,other,later⟩,fun ⟨inside,other,later⟩ => ⟨⟨other,inside⟩,later⟩⟩

theorem mem_keys_iff (m : Std.ExtTreeMap K V) (a : K) : a ∈ m.toList.map Prod.fst ↔ ∃ v, m[a]? = some v := by
  simp only [List.mem_map,Prod.exists,exists_and_right,exists_eq_right,
    Std.ExtTreeMap.mem_toList_iff_getElem?_eq_some]

theorem nodup_keys (m : Std.ExtTreeMap K V) : (m.toList.map Prod.fst).Nodup := by
  rw [List.Nodup,List.pairwise_map]
  refine Std.ExtTreeMap.distinct_keys_toList.imp ?_
  intro a b different equal
  rw [equal] at different
  exact different Std.ReflCmp.compare_self

variable [DecidableEq K]

@[simp] theorem get_insert (m : Std.ExtTreeMap K V) (k a : K) (v : V) :
    (m.insert k v)[a]? = if k = a then some v else m[a]? := by
  simp [Std.ExtTreeMap.getElem?_insert]

@[simp] theorem get_erase (m : Std.ExtTreeMap K V) (k a : K) :
    (m.erase k)[a]? = if k = a then none else m[a]? := by
  simp [Std.ExtTreeMap.getElem?_erase]

theorem erase_found {m : Std.ExtTreeMap K V} {k a : K} {v : V} (found : (m.erase k)[a]? = some v) :
    k ≠ a ∧ m[a]? = some v := by
  rw [get_erase] at found
  split at found
  · cases found
  · rename_i other
    exact ⟨other,found⟩

theorem get_shrink (m : Std.ExtTreeMap K V) (k a : K) (v : V) (empty : Bool) :
    (if empty then m.erase k else m.insert k v)[a]? = if k = a then if empty then none else some v else m[a]? := by
  cases empty <;> simp

omit [DecidableEq K] [Std.LawfulEqOrd K] in
theorem lookup_shrunk (inner : Std.ExtTreeMap K V) (a : K) :
    (if inner.isEmpty then none else some inner).bind (fun inner => inner[a]?) = inner[a]? := by
  split
  · rename_i empty
    rw [Std.ExtTreeMap.isEmpty_iff.mp empty]
    rfl
  · rfl

theorem every_insert {m : Std.ExtTreeMap K V} {holds : K → V → Prop} {key : K} {value : V}
    (every : ∀ (k : K) (v : V), m[k]? = some v → holds k v) (given : holds key value) (k : K) (v : V)
    (found : (m.insert key value)[k]? = some v) : holds k v := by
  rw [get_insert] at found
  split at found
  · rename_i same
    cases found
    exact same ▸ given
  · exact every k v found

theorem every_shrink {m : Std.ExtTreeMap K V} {holds : K → V → Prop} {key : K} {value : V} {empty : Bool}
    (every : ∀ (k : K) (v : V), m[k]? = some v → holds k v) (given : empty = false → holds key value) (k : K) (v : V)
    (found : (if empty then m.erase key else m.insert key value)[k]? = some v) : holds k v := by
  rw [get_shrink] at found
  split at found
  · rename_i same
    split at found
    · cases found
    · rename_i filled
      cases found
      exact same ▸ given (by simpa using filled)
  · exact every k v found

-- Inserting the entries of one map into another overrides key by key.
theorem get_insertAll (newer older : Std.ExtTreeMap K V) (a : K) :
    (newer.toList.foldl (fun m entry => m.insert entry.1 entry.2) older)[a]? = (newer[a]?).or older[a]? := by
  rw [← Std.ExtTreeMap.insertMany_list_eq_foldl]
  cases found : newer[a]? with
  | none =>
      have absent : (newer.toList.map Prod.fst).contains a = false := by
        simp only [List.contains_eq_mem,decide_eq_false_iff_not,List.mem_map,Prod.exists,exists_and_right,
          exists_eq_right,not_exists,Std.ExtTreeMap.mem_toList_iff_getElem?_eq_some]
        simp [found]
      rw [Std.ExtTreeMap.getElem?_insertMany_list_of_contains_eq_false absent]
      rfl
  | some v =>
      have present : (a,v) ∈ newer.toList := Std.ExtTreeMap.mem_toList_iff_getElem?_eq_some.mpr found
      rw [Std.ExtTreeMap.getElem?_insertMany_list_of_mem Std.ReflCmp.compare_self
        Std.ExtTreeMap.distinct_keys_toList present]
      rfl

theorem get_eraseAll (keys : List K) (m : Std.ExtTreeMap K V) (a : K) :
    (keys.foldl (fun m k => m.erase k) m)[a]? = if a ∈ keys then none else m[a]? := by
  induction keys generalizing m with
  | nil => simp
  | cons k keys ih =>
      rw [List.foldl_cons,ih,get_erase]
      by_cases same : k = a <;> by_cases later : a ∈ keys <;> simp [same,later,eq_comm (a:=a)]

-- A map that is collected from a list keeps the last value of every key.
theorem get_ofList (l : List (K × V)) (a : K) : (Std.ExtTreeMap.ofList l compare)[a]? =
    l.reverse.findSome? fun entry => if entry.1 = a then some entry.2 else none := by
  rw [Std.ExtTreeMap.ofList_eq_insertMany_empty,Std.ExtTreeMap.getElem?_insertMany_list]
  simp

theorem get_ofList_append (first second : List (K × V)) (a : K) :
    (Std.ExtTreeMap.ofList (first ++ second) compare)[a]? =
      ((Std.ExtTreeMap.ofList second compare)[a]?).or (Std.ExtTreeMap.ofList first compare)[a]? := by
  simp only [get_ofList,List.reverse_append,List.findSome?_append]

theorem get_ofList_mem {l : List (K × V)} {a : K} {v : V}
    (found : (Std.ExtTreeMap.ofList l compare)[a]? = some v) : (a,v) ∈ l := by
  rw [get_ofList] at found
  obtain ⟨entry,member,picked⟩ := List.exists_of_findSome?_eq_some found
  split at picked
  · rename_i same
    obtain rfl := Option.some.inj picked
    exact same ▸ List.mem_reverse.mp member
  · cases picked

theorem get_ofList_none {l : List (K × V)} {a : K} (absent : (Std.ExtTreeMap.ofList l compare)[a]? = none) :
    ∀ entry ∈ l, entry.1 ≠ a := by
  intro entry member same
  rw [get_ofList,List.findSome?_eq_none_iff] at absent
  have skipped := absent entry (List.mem_reverse.mpr member)
  rw [if_pos same] at skipped
  cases skipped

end OrderedMap
