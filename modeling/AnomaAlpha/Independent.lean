import AnomaAlpha.Serial
import Mathlib.Algebra.BigOperators.Group.List.Lemmas

namespace AnomaAlpha
open Execution Schedule StateDiff

-- No change that one transaction proposes is at an address where the other one
-- asks the state.
def Avoids (state : View) (tx other : Transaction) : Prop :=
  ∀ a ∈ tx.proposals.toList.map Prod.fst, a ∉ footprint other state

def Independent (state : View) (txs : List Transaction) : Prop :=
  txs.Pairwise fun tx other => Avoids state tx other ∧ Avoids state other tx

section
variable {rt : Runtime} {sch : Scheduler} {cache state : View} {txs permuted : List Transaction}

theorem independent_perm (apart : Independent state txs) (same : permuted.Perm txs) : Independent state permuted :=
  (same.pairwise_iff fun both => And.symm both).mpr apart

theorem declared_footprint {tx : Transaction} {a : Address} (declared : Declared tx state a) : a ∈ footprint tx state := by
  rcases declared_iff.mp declared with key | ⟨addr,key,_,up,path,named⟩ | ⟨intent,inside,named⟩
  · exact List.mem_append_left _ (List.mem_append_left _ (Collect.key_touched key))
  · have touched : up ∈ Collect.touched tx := List.mem_flatMap.mpr ⟨addr,key,path⟩
    exact List.mem_append_left _ (List.mem_append_right _ (List.mem_flatMap.mpr ⟨up,touched,named⟩))
  · exact List.mem_append_right _ (List.mem_flatMap.mpr ⟨intent,inside,named⟩)

theorem dependsOn_declared {tx other : Transaction}
    (depends : (TransactionRefs.new tx state).dependsOn (TransactionRefs.new other state) = true) :
    ∃ a ∈ other.proposals.toList.map Prod.fst, Declared tx state a := by
  unfold TransactionRefs.dependsOn at depends
  simp only [Bool.or_eq_true,List.any_eq_true,Std.ExtTreeSet.mem_toList,Std.ExtTreeSet.contains_iff_mem] at depends
  rcases depends with ⟨a,read,written⟩ | ⟨a,wrote,written⟩
  · exact ⟨a,(TransactionRefs.mem_writes other state a).mp written,.inl read⟩
  · exact ⟨a,(TransactionRefs.mem_writes other state a).mp written,.inr wrote⟩

theorem independent_parent (apart : Independent state txs) (j : Nat) :
    (dependencies (refsOf state txs)).parent j = none := by
  cases edge : (dependencies (refsOf state txs)).parent j with
  | none => rfl
  | some i =>
      exfalso
      change parentOf (refsOf state txs) j = some i at edge
      unfold parentOf at edge
      split at edge
      · cases edge
      · rename_i r0 found
        obtain ⟨e,first,_⟩ := Option.map_eq_some_iff.mp edge
        have depends := List.find?_some first
        have member := List.mem_reverse.mp (List.mem_of_find?_eq_some first)
        have place := List.mk_mem_zipIdx_iff_getElem?.mp member
        rw [List.getElem?_take] at place
        split at place
        · rename_i before
          unfold refsOf at found place
          rw [List.getElem?_map] at found place
          obtain ⟨tx,here,rfl⟩ := Option.map_eq_some_iff.mp found
          obtain ⟨other,there,equal⟩ := Option.map_eq_some_iff.mp place
          rw [← equal] at depends
          obtain ⟨a,key,declared⟩ := dependsOn_declared depends
          obtain ⟨late,rfl⟩ := List.getElem?_eq_some_iff.mp here
          obtain ⟨early,rfl⟩ := List.getElem?_eq_some_iff.mp there
          have both := List.pairwise_iff_getElem.mp apart e.2 j early late before
          exact both.1 a key (declared_footprint declared)
        · cases place

theorem independent_earlier (apart : Independent state txs) (j : Nat) : earlier state txs j = [] := by
  unfold earlier
  rw [Forest.depth_top (independent_parent apart j)]
  rfl

theorem overlay_default (state : View) : (Overlayed.mk state (default : StateDiff).get).get = state := by
  funext a
  simp [Overlayed.get,StateDiff.get,default]

theorem map_getD_range {X Y : Type} (f : X → Y) (l : List X) (d : X) :
    ((List.range l.length).map fun i => f (l.getD i d)) = l.map f := by
  apply List.ext_getElem
  · simp
  · intro i left right
    have bound : i < l.length := by simpa using right
    simp [bound]

theorem independent_block (u : Components.Labeling) (apart : Independent state txs) :
    executeMany rt sch u state cache txs = .ok (txs.map fun tx => execute rt sch tx state cache) := by
  obtain ⟨out,ran,each⟩ := executeMany_function (Collect.all_end txs) rt sch u state cache
  rw [ran,← map_getD_range (fun tx => execute rt sch tx state cache) txs default]
  congr 1
  apply List.map_congr_left
  intro i member
  have here := each i (List.mem_range.mp member)
  rw [independent_earlier apart i] at here
  rw [here]
  unfold executeOn accumulate
  rw [List.map_nil,List.foldl_nil,overlay_default]

theorem execute_silent {tx : Transaction} {view : View} {diff : StateDiff} {a : Address}
    (ran : execute rt sch tx view cache = .ok diff) (outside : a ∉ tx.proposals.toList.map Prod.fst) :
    diff.patch a = none := by
  apply Collect.outputs_silent (execute_ok.mp ran).1
  rw [OrderedMap.mem_keys_iff,not_exists] at outside
  exact Option.eq_none_iff_forall_ne_some.mpr outside

-- The invariant of the plain run: what the remaining transactions look up is
-- still as it was at the start.
theorem independent_sequential (store : InMemoryStateStore) (apart : Independent state txs)
    (untouched : ∀ tx ∈ txs, ∀ a ∈ footprint tx state, state a = store.get a) :
    sequential rt sch cache store txs = txs.map fun tx => execute rt sch tx state cache := by
  induction txs generalizing store with
  | nil => rfl
  | cons tx txs ih =>
      obtain ⟨first,rest⟩ := List.pairwise_cons.mp apart
      have same : execute rt sch tx state cache = execute rt sch tx store.get cache :=
        execute_frame (untouched tx (by simp))
      have later : ∀ other ∈ txs, ∀ a ∈ footprint other state,
          state a = (store.advance (execute rt sch tx store.get cache)).get a := by
        intro other member a looked
        have before := untouched other (List.mem_cons_of_mem _ member) a looked
        cases ran : execute rt sch tx store.get cache with
        | error e => exact before
        | ok diff =>
            have outside : a ∉ tx.proposals.toList.map Prod.fst := fun key => (first other member).1 a key looked
            have silent := execute_silent ran outside
            unfold InMemoryStateStore.advance
            rw [InMemoryStateStore.apply_get]
            simpa [Patch.apply,silent] using before
      simp only [sequential,List.map_cons]
      rw [ih _ rest later,same]

def patchAlone (rt : Runtime) (sch : Scheduler) (cache state : View) (tx : Transaction) : Option (Patch Address Account) :=
  (execute rt sch tx state cache).toOption.map patch

theorem patchAlone_silent {tx : Transaction} {p : Patch Address Account} {a : Address}
    (patched : patchAlone rt sch cache state tx = some p) (outside : a ∉ tx.proposals.toList.map Prod.fst) :
    p a = none := by
  cases ran : execute rt sch tx state cache with
  | error e => simp [patchAlone,ran,Except.toOption] at patched
  | ok diff =>
      obtain rfl : diff.patch = p := by simpa [patchAlone,ran,Except.toOption] using patched
      exact execute_silent ran outside

theorem patches_commute (apart : Independent state txs) :
    (txs.filterMap (patchAlone rt sch cache state)).Pairwise Commute := by
  rw [List.pairwise_filterMap]
  refine List.Pairwise.imp ?_ apart
  intro tx other both p patched q otherPatched
  apply Patch.commute_apart
  intro a
  by_cases key : a ∈ tx.proposals.toList.map Prod.fst
  · have outside : a ∉ other.proposals.toList.map Prod.fst := by
      intro otherKey
      exact both.1 a key (declared_footprint (declared_iff.mpr (.inl otherKey)))
    exact .inr (patchAlone_silent otherPatched outside)
  · exact .inl (patchAlone_silent patched key)

theorem successes_patches (txs : List Transaction) :
    (successes (txs.map fun tx => execute rt sch tx state cache)).map patch =
      txs.filterMap (patchAlone rt sch cache state) := by
  unfold successes
  rw [List.filterMap_map,List.map_filterMap]
  rfl

theorem independent_merge (store : InMemoryStateStore) (apart : Independent state txs) (same : permuted.Perm txs) :
    store.apply (mergeAll (successes (permuted.map fun tx => execute rt sch tx state cache))) =
      store.apply (mergeAll (successes (txs.map fun tx => execute rt sch tx state cache))) := by
  apply InMemoryStateStore.ext_get
  rw [InMemoryStateStore.apply_get,InMemoryStateStore.apply_get,mergeAll_patch,mergeAll_patch,successes_patches,
    successes_patches]
  have product := List.Perm.prod_eq' (same.filterMap (patchAlone rt sch cache state))
    (patches_commute (independent_perm apart same))
  rw [product]

end

-- Any order of an independent block gives every transaction the result it has
-- alone, and all orders end in the same store.
theorem independent_transactions_commute (rt : Runtime) (sch : Scheduler) (u : Components.Labeling)
    (state cache : View) (txs permuted : List Transaction) (apart : Independent state txs)
    (same : permuted.Perm txs) :
    executeMany rt sch u state cache permuted = .ok (permuted.map fun tx => execute rt sch tx state cache) ∧
    ∀ store : InMemoryStateStore, store.get = state →
      sequential rt sch cache store permuted = (permuted.map fun tx => execute rt sch tx state cache) ∧
      store.apply (mergeAll (successes (permuted.map fun tx => execute rt sch tx state cache))) =
        store.apply (mergeAll (successes (txs.map fun tx => execute rt sch tx state cache))) := by
  have apartToo := independent_perm apart same
  refine ⟨independent_block u apartToo,?_⟩
  intro store held
  refine ⟨independent_sequential store apartToo ?_,independent_merge store apart same⟩
  intro tx _ a _
  rw [held]

namespace IndependentExample
def other : Address := ⟨"/c",by decide⟩
def block : List Transaction := [FootprintExample.creates FootprintExample.parent,FootprintExample.creates other]
end IndependentExample

theorem two_creations_commute :
    Independent SerialExample.empty.get IndependentExample.block ∧
    executeMany acceptHost.runtime .inOrder .quick SerialExample.empty.get FootprintExample.nothing
        IndependentExample.block.reverse =
      .ok [.ok (FootprintExample.created IndependentExample.other),
        .ok (FootprintExample.created FootprintExample.parent)] := by
  have apart : Independent SerialExample.empty.get IndependentExample.block := by
    unfold Independent Avoids
    decide
  refine ⟨apart,?_⟩
  rw [(independent_transactions_commute acceptHost.runtime .inOrder .quick SerialExample.empty.get
    FootprintExample.nothing _ _ apart (List.reverse_perm _)).1]
  decide

end AnomaAlpha
