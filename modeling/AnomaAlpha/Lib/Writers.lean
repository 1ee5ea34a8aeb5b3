import AnomaAlpha.Lib.Patch
import Mathlib.Logic.Relation

-- Writers on one base. Each reads the base through the patches of writers of a
-- lower rank, whichever these are, and leaves a patch or nothing.
structure Writers (K V : Type*) where
  base : K → Option V
  count : Nat
  left : Nat → Option (Patch K V)
  before : Nat → List Nat
  rank : Nat → Nat
  lower : ∀ {i k}, i < count → k ∈ before i → rank k < rank i ∧ k < count

namespace Writers
variable {K V : Type*} (w : Writers K V)

def view (i : Nat) : K → Option V := Patch.overlay w.base ((w.before i).filterMap w.left).prod

def final : K → Option V := Patch.apply w.base ((List.range w.count).filterMap w.left).prod

def Moves (k : K) (x y : Option V) : Prop := ∃ i < w.count, ∃ p, w.left i = some p ∧ w.view i k = x ∧ p k = some y

theorem prod_writer {patches : Nat → Option (Patch K V)} {l : List Nat} {k : K} {value : Option V}
    (written : (l.filterMap patches).prod k = some value) : ∃ i ∈ l, ∃ p, patches i = some p ∧ p k = some value := by
  rw [Patch.prod_last] at written
  obtain ⟨i,last,left⟩ := Option.bind_eq_some_iff.mp written
  obtain ⟨p,patched,wrote⟩ := Option.bind_eq_some_iff.mp left
  exact ⟨i,List.mem_of_mem_filter (List.mem_of_getLast? last),p,patched,wrote⟩

-- A key is seen as it is in the base or as some writer below has left it.
theorem view_source (i : Nat) (k : K) : w.view i k = w.base k ∨
    ∃ j ∈ w.before i, ∃ p, w.left j = some p ∧ p k = some (w.view i k) := by
  unfold view Patch.overlay
  cases written : ((w.before i).filterMap w.left).prod k with
  | none => exact .inl rfl
  | some value => cases value with
    | none => exact .inl rfl
    | some value => exact .inr (prod_writer written)

theorem final_source (k : K) : w.final k = w.base k ∨
    ∃ j < w.count, ∃ p, w.left j = some p ∧ p k = some (w.final k) := by
  unfold final Patch.apply
  cases written : ((List.range w.count).filterMap w.left).prod k with
  | none => exact .inl rfl
  | some value =>
      obtain ⟨j,member,p,left,wrote⟩ := prod_writer written
      exact .inr ⟨j,List.mem_range.mp member,p,left,wrote⟩

theorem keeps {P : K → Option V → Prop} (start : ∀ k, P k (w.base k))
    (each : ∀ i < w.count, (∀ k, P k (w.view i k)) → ∀ p, w.left i = some p → ∀ k y, p k = some y → P k y) :
    (∀ i < w.count, ∀ k, P k (w.view i k)) ∧ ∀ k, P k (w.final k) := by
  have reads : ∀ r i, i < w.count → w.rank i = r → ∀ k, P k (w.view i k) := by
    intro r
    induction r using Nat.strongRecOn with
    | ind r ih =>
        intro i inside ranked k
        rcases w.view_source i k with same | ⟨j,member,p,left,wrote⟩
        · rw [same]
          exact start k
        · obtain ⟨less,bound⟩ := w.lower inside member
          exact each j bound (ih (w.rank j) (ranked ▸ less) j bound rfl) p left k _ wrote
  have views : ∀ i < w.count, ∀ k, P k (w.view i k) := fun i inside => reads (w.rank i) i inside rfl
  refine ⟨views,fun k => ?_⟩
  rcases w.final_source k with same | ⟨j,bound,p,left,wrote⟩
  · rw [same]
    exact start k
  · exact each j bound (views j bound) p left k _ wrote

-- The end of a key is reached from its start by moves that follow each other,
-- also where writers have not seen each other and some of what is left is lost.
theorem reaches (k : K) : Relation.ReflTransGen (w.Moves k) (w.base k) (w.final k) := by
  have kept := w.keeps (P:=fun k x => Relation.ReflTransGen (w.Moves k) (w.base k) x) (fun _ => .refl)
    fun i inside reads p left k y wrote => (reads k).tail ⟨i,inside,p,left,rfl,wrote⟩
  exact kept.2 k

end Writers
