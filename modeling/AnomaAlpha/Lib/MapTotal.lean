import AnomaAlpha.Lib.OrderedMap
import Mathlib.Algebra.BigOperators.Ring.Finset
import Mathlib.Algebra.Order.BigOperators.Group.Finset

-- What the entries of an ordered map weigh together.
namespace MapTotal
open OrderedMap

variable {K V C : Type} [Ord K] [Std.TransOrd K] [Std.LawfulEqOrd K]

def total (weight : K → V → Nat) (m : Std.ExtTreeMap K V) : Nat := (m.toList.map fun entry => weight entry.1 entry.2).sum

omit [Std.LawfulEqOrd K] in
theorem total_filter (keep : K → Bool) (weight : V → Nat) (m : Std.ExtTreeMap K V) :
    ((m.toList.filter fun entry => keep entry.1).map fun entry => weight entry.2).sum =
      total (fun k v => if keep k then weight v else 0) m := by
  unfold total
  induction m.toList with
  | nil => rfl
  | cons entry l ih => cases kept : keep entry.1 <;> simp [kept,ih]

variable [DecidableEq K]

theorem total_sum {weight : K → V → Nat} {m : Std.ExtTreeMap K V} {keys : Finset K}
    (covers : ∀ (k : K) (v : V), m[k]? = some v → k ∈ keys) :
    total weight m = ∑ k ∈ keys, (m[k]?).elim 0 (weight k) := by
  have listed : total weight m = ((m.toList.map Prod.fst).map fun k => (m[k]?).elim 0 (weight k)).sum := by
    rw [List.map_map]
    refine congrArg List.sum (List.map_congr_left fun entry member => ?_)
    rw [Function.comp_apply,Std.ExtTreeMap.mem_toList_iff_getElem?_eq_some.mp member]
    rfl
  rw [listed,← List.sum_toFinset _ (nodup_keys m)]
  refine Finset.sum_subset ?_ ?_
  · intro k member
    obtain ⟨v,held⟩ := (mem_keys_iff m k).mp (List.mem_toFinset.mp member)
    exact covers k v held
  · intro k _ outside
    rw [List.mem_toFinset,mem_keys_iff,← Option.ne_none_iff_exists',not_not] at outside
    rw [outside]
    rfl

def keysOf (m : Std.ExtTreeMap K V) : Finset K := (m.toList.map Prod.fst).toFinset

theorem mem_keysOf {m : Std.ExtTreeMap K V} {k : K} {v : V} (held : m[k]? = some v) : k ∈ keysOf m :=
  List.mem_toFinset.mpr ((mem_keys_iff m k).mpr ⟨v,held⟩)

theorem total_update {weight : K → V → Nat} {before after : K → C → Nat} {m m' : Std.ExtTreeMap K V}
    {changes : Std.ExtTreeMap K C} (each : ∀ k : K, (m'[k]?).elim 0 (weight k) + (changes[k]?).elim 0 (before k) =
      (m[k]?).elim 0 (weight k) + (changes[k]?).elim 0 (after k)) :
    total weight m' + total before changes = total weight m + total after changes := by
  have old : ∀ (k : K) (v : V), m[k]? = some v → k ∈ keysOf m ∪ keysOf m' ∪ keysOf changes :=
    fun k v held => Finset.mem_union_left _ (Finset.mem_union_left _ (mem_keysOf held))
  have new : ∀ (k : K) (v : V), m'[k]? = some v → k ∈ keysOf m ∪ keysOf m' ∪ keysOf changes :=
    fun k v held => Finset.mem_union_left _ (Finset.mem_union_right _ (mem_keysOf held))
  have changed : ∀ (k : K) (c : C), changes[k]? = some c → k ∈ keysOf m ∪ keysOf m' ∪ keysOf changes :=
    fun k c held => Finset.mem_union_right _ (mem_keysOf held)
  rw [total_sum old,total_sum new,total_sum changed,total_sum changed,← Finset.sum_add_distrib,← Finset.sum_add_distrib]
  exact Finset.sum_congr rfl fun k _ => each k

theorem total_le {weight : K → V → Nat} {before : K → C → Nat} {m : Std.ExtTreeMap K V} {changes : Std.ExtTreeMap K C}
    (each : ∀ k : K, (changes[k]?).elim 0 (before k) ≤ (m[k]?).elim 0 (weight k)) : total before changes ≤ total weight m := by
  have held : ∀ (k : K) (v : V), m[k]? = some v → k ∈ keysOf m ∪ keysOf changes :=
    fun k v held => Finset.mem_union_left _ (mem_keysOf held)
  have changed : ∀ (k : K) (c : C), changes[k]? = some c → k ∈ keysOf m ∪ keysOf changes :=
    fun k c held => Finset.mem_union_right _ (mem_keysOf held)
  rw [total_sum held,total_sum changed]
  exact Finset.sum_le_sum fun k _ => each k

end MapTotal
