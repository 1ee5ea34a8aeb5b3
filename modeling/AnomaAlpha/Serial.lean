import AnomaAlpha.ExecuteMany

namespace AnomaAlpha
open Execution Schedule StateDiff

section
variable (rt : Runtime) (sch : Scheduler) (cache : View)

-- The plain run of a block: one transaction after the other, each on the store
-- that the successful ones before it have left.
def sequential : InMemoryStateStore → List Transaction → List (Except Error StateDiff)
  | _,[] => []
  | store,tx :: txs =>
    let result := execute rt sch tx store.get cache
    result :: sequential (store.advance result) txs

variable (store : InMemoryStateStore) (txs : List Transaction)

def storeBefore : Nat → InMemoryStateStore
  | 0 => store
  | j+1 => (storeBefore j).advance (execute rt sch (txs.getD j default) (storeBefore j).get cache)

def serial (j : Nat) : Except Error StateDiff :=
  execute rt sch (txs.getD j default) (storeBefore rt sch cache store txs j).get cache

def wrote (a : Address) (i : Nat) : Bool :=
  (serial rt sch cache store txs i).isOk && (txs.getD i default).proposals.contains a

def lastWriter (order : List Nat) (a : Address) : Option Nat :=
  (order.filter (wrote rt sch cache store txs a)).getLast?

-- What a transaction looks up was last written by the same transaction among
-- all earlier ones and among those that its tree has executed before it, and
-- that transaction did not delete an account of the initial state.
def Aligned : Prop := ∀ j < txs.length, ∀ a ∈ footprint (txs.getD j default) (storeBefore rt sch cache store txs j).get,
  lastWriter rt sch cache store txs (List.range j) a =
    lastWriter rt sch cache store txs (earlier store.get txs j) a ∧
  ∀ i, lastWriter rt sch cache store txs (List.range j) a = some i →
    (txs.getD i default).proposals[a]? = some .deleteAccount → store.get a = none

theorem storeBefore_cons (tx : Transaction) (j : Nat) :
    storeBefore rt sch cache store (tx :: txs) (j+1) =
      storeBefore rt sch cache (store.advance (execute rt sch tx store.get cache)) txs j := by
  induction j with
  | zero => rfl
  | succ j ih => rw [storeBefore,ih,storeBefore,List.getD_cons_succ]

theorem sequential_serial :
    sequential rt sch cache store txs = (List.range txs.length).map (serial rt sch cache store txs) := by
  induction txs generalizing store with
  | nil => rfl
  | cons tx txs ih =>
      rw [sequential,ih,List.length_cons,List.range_succ_eq_map,List.map_cons,List.map_map]
      congr 1
      apply List.map_congr_left
      intro j _
      simp only [serial,Function.comp,Nat.succ_eq_add_one,storeBefore_cons,List.getD_cons_succ]

def patchOf (i : Nat) : Option (Patch Address Account) := (serial rt sch cache store txs i).toOption.map patch

theorem storeBefore_get (j : Nat) : (storeBefore rt sch cache store txs j).get =
    Patch.apply store.get ((List.range j).filterMap (patchOf rt sch cache store txs)).prod := by
  induction j with
  | zero => exact (Patch.apply_one _).symm
  | succ j ih =>
      rw [List.range_succ,List.filterMap_append,List.prod_append,Patch.apply_mul,← ih]
      have result : storeBefore rt sch cache store txs (j+1) =
          (storeBefore rt sch cache store txs j).advance (serial rt sch cache store txs j) := rfl
      rw [result]
      cases ran : serial rt sch cache store txs j with
      | error e => simp [patchOf,ran,Except.toOption,InMemoryStateStore.advance,Patch.apply_one]
      | ok diff =>
          simp [patchOf,ran,Except.toOption,InMemoryStateStore.advance,InMemoryStateStore.apply_get]

theorem serial_outputs {diff : StateDiff} {i : Nat} (ran : serial rt sch cache store txs i = .ok diff) :
    Collect.outputs (storeBefore rt sch cache store txs i).get (txs.getD i default) = .ok diff :=
  (execute_ok.mp ran).1

theorem accumulate_serial (acc : StateDiff) (order : List Nat) (reached : Reachable acc) :
    Reachable (accumulate acc (order.map fun k => (serial rt sch cache store txs k,k))) ∧
    (accumulate acc (order.map fun k => (serial rt sch cache store txs k,k))).patch =
      acc.patch * (order.filterMap (patchOf rt sch cache store txs)).prod := by
  induction order generalizing acc with
  | nil => exact ⟨reached,by simp [accumulate]⟩
  | cons k order ih =>
      cases ran : serial rt sch cache store txs k with
      | error e =>
          have rest := ih acc reached
          simpa [accumulate,ran,patchOf,Except.toOption] using rest
      | ok diff =>
          have rest := ih (acc.apply diff) (.apply reached (Collect.outputs_reachable (serial_outputs _ _ _ _ _ ran)))
          simpa [accumulate,ran,patchOf,Except.toOption,StateDiff.apply,patch_merge,mul_assoc] using rest

theorem wrote_patch (a : Address) (i : Nat) :
    wrote rt sch cache store txs a i = ((patchOf rt sch cache store txs i).bind (· a)).isSome := by
  cases ran : serial rt sch cache store txs i with
  | error e => simp [wrote,patchOf,ran,Except.toOption,Except.isOk,Except.toBool]
  | ok diff =>
      have writes := Collect.outputs_writes (serial_outputs _ _ _ _ _ ran) a
      simp only [wrote,patchOf,ran,Except.toOption,Except.isOk,Except.toBool,Option.map_some,Option.bind_some,
        Bool.true_and,Std.ExtTreeMap.contains_eq_isSome_getElem?]
      cases written : diff.patch a with
      | none => rw [writes.mp written]; rfl
      | some value =>
          cases proposed : (txs.getD i default).proposals[a]? with
          | none => rw [writes.mpr proposed] at written; cases written
          | some change => rfl

theorem written_at (order : List Nat) (a : Address) :
    (order.filterMap (patchOf rt sch cache store txs)).prod a =
      (lastWriter rt sch cache store txs order a).bind fun i => (patchOf rt sch cache store txs i).bind (· a) := by
  rw [Patch.prod_last,lastWriter]
  congr 2
  apply List.filter_congr
  intro i _
  exact (wrote_patch rt sch cache store txs a i).symm

theorem deleted_by {a : Address} {i : Nat} (deleted : (patchOf rt sch cache store txs i).bind (· a) = some none) :
    (txs.getD i default).proposals[a]? = some .deleteAccount := by
  cases ran : serial rt sch cache store txs i with
  | error e => simp [patchOf,ran,Except.toOption] at deleted
  | ok diff =>
      have outs := serial_outputs _ _ _ _ _ ran
      simp only [patchOf,ran,Except.toOption,Option.map_some,Option.bind_some] at deleted
      cases proposed : (txs.getD i default).proposals[a]? with
      | none =>
          have silent := Collect.outputs_silent outs proposed
          rw [silent] at deleted; cases deleted
      | some change =>
          obtain ⟨result,fits,held⟩ := Collect.outputs_fits outs proposed
          obtain rfl := Option.some.inj (held.symm.trans deleted)
          cases change <;> cases found : (storeBefore rt sch cache store txs i).get a <;>
            simp [Collect.effect,found] at fits
          rfl

-- Under alignment the overlay of a tree shows a transaction what the plain run
-- shows it.
theorem aligned_view (aligned : Aligned rt sch cache store txs) {j : Nat} (inside : j < txs.length) :
    ∀ a ∈ footprint (txs.getD j default) (storeBefore rt sch cache store txs j).get,
      (storeBefore rt sch cache store txs j).get a =
        (Overlayed.mk store.get (accumulate default
          ((earlier store.get txs j).map fun k => (serial rt sch cache store txs k,k))).get).get a := by
  intro a member
  obtain ⟨same,kept⟩ := aligned j inside a member
  obtain ⟨reached,merged⟩ := accumulate_serial rt sch cache store txs default (earlier store.get txs j) .default
  rw [patch_default,one_mul] at merged
  have seen := written_at rt sch cache store txs (earlier store.get txs j) a
  have last := written_at rt sch cache store txs (List.range j) a
  rw [← same] at seen
  rw [Overlayed.get_patch store.get (reachable_separate reached),storeBefore_get,merged]
  refine Eq.symm (Eq.trans ?_ (congrArg (fun w => w.getD (store.get a)) (seen.trans last.symm)))
  refine (Patch.overlay_eq_apply _ _ a).mpr ?_
  intro given
  obtain ⟨deleted,present⟩ := given
  rw [seen] at deleted
  obtain ⟨i,writer,removed⟩ := Option.bind_eq_some_iff.mp deleted
  exact present (kept i writer (deleted_by rt sch cache store txs removed))

-- One transaction on the initial state overlaid with the diffs that the rows
-- above it have in the plain run.
def replay (j : Nat) : Except Error StateDiff :=
  executeOn rt sch store.get cache txs
    (accumulate default ((earlier store.get txs j).map fun k => (serial rt sch cache store txs k,k))) j

variable {rt sch cache store txs}

theorem aligned_replay (aligned : Aligned rt sch cache store txs) {j : Nat} (inside : j < txs.length) :
    replay rt sch cache store txs j = serial rt sch cache store txs j :=
  (execute_frame (aligned_view rt sch cache store txs aligned inside)).symm

theorem accumulate_congr {out result : Nat → Except Error StateDiff} (acc : StateDiff) {order : List Nat}
    (same : ∀ k ∈ order, (out k).toOption = (result k).toOption) :
    accumulate acc (order.map fun k => (out k,k)) = accumulate acc (order.map fun k => (result k,k)) := by
  induction order generalizing acc with
  | nil => rfl
  | cons k order ih =>
      have here := same k (by simp)
      have rest := fun acc => ih acc fun x member => same x (List.mem_cons_of_mem _ member)
      simp only [accumulate,List.map_cons,List.foldl_cons] at rest ⊢
      cases first : out k <;> cases second : result k <;> simp [first,second,Except.toOption] at here
      · exact rest acc
      · rw [here]; exact rest _

variable {out : Nat → Except Error StateDiff}

theorem outcomes_follow (each : ∀ i < txs.length, out i = executeOn rt sch store.get cache txs
      (accumulate default ((earlier store.get txs i).map fun k => (out k,k))) i)
    (replays : ∀ j < txs.length,
      (replay rt sch cache store txs j).toOption = (serial rt sch cache store txs j).toOption) :
    ∀ i < txs.length, (out i).toOption = (serial rt sch cache store txs i).toOption := by
  have deep : ∀ d i, i < txs.length → (dependencies (refsOf store.get txs)).depth i = d →
      (out i).toOption = (serial rt sch cache store txs i).toOption := by
    intro d
    induction d using Nat.strongRecOn with
    | ind d ih =>
        intro i inside at_depth
        have before : ∀ k ∈ earlier store.get txs i, (out k).toOption = (serial rt sch cache store txs k).toOption := by
          intro k member
          obtain ⟨shallow,bound⟩ := earlier_inside store.get txs inside member
          exact ih _ (at_depth ▸ shallow) k bound rfl
        rw [each i inside,accumulate_congr default before]
        exact replays i inside
  exact fun i inside => deep _ i inside rfl

-- The one edge into a transaction, the rows of its tree and the overlay keep the
-- order of the block exactly as far as every transaction comes out the same on
-- the view that its tree gives it.
theorem block_is_sequential_iff (rt : Runtime) (sch : Scheduler) (u : Components.Labeling) (cache : View)
    (store : InMemoryStateStore) (txs : List Transaction) :
    ((∃ results, executeMany rt sch u store.get cache txs = .ok results ∧
        results.map Except.toOption = (sequential rt sch cache store txs).map Except.toOption) ↔
      ∀ j < txs.length, (replay rt sch cache store txs j).toOption = (serial rt sch cache store txs j).toOption) ∧
    (Aligned rt sch cache store txs →
      ∀ j < txs.length, replay rt sch cache store txs j = serial rt sch cache store txs j) := by
  refine ⟨?_,fun aligned j inside => aligned_replay aligned inside⟩
  obtain ⟨out,ran,each⟩ := executeMany_function (Collect.all_end txs) rt sch u store.get cache
  rw [ran,sequential_serial]
  constructor
  · intro given
    obtain ⟨results,equal,same⟩ := given
    obtain rfl := Except.ok.inj equal
    rw [List.map_map,List.map_map,List.map_inj_left] at same
    intro j inside
    have before : ∀ k ∈ earlier store.get txs j, (serial rt sch cache store txs k).toOption = (out k).toOption := by
      intro k member
      exact (same k (List.mem_range.mpr (earlier_inside store.get txs inside member).2)).symm
    rw [replay,accumulate_congr default before,← each j inside]
    exact same j (List.mem_range.mpr inside)
  · intro replays
    refine ⟨_,rfl,?_⟩
    rw [List.map_map,List.map_map]
    exact List.map_congr_left fun i member => outcomes_follow each replays i (List.mem_range.mp member)

end

namespace SerialExample
def empty : InMemoryStateStore := ⟨∅⟩
def proposes (addr : Address) (change : AccountChange) : Transaction :=
  .new [] ((∅ : BTreeMap Address AccountChange).insert addr change)
def dependent : List Transaction :=
  [proposes FootprintExample.parent (.createAccount FootprintExample.account),
    proposes FootprintExample.parent (.replaceState [2])]
def nested : List Transaction :=
  [proposes FootprintExample.parent (.createAccount FootprintExample.sealed),
    proposes FootprintExample.child (.createAccount FootprintExample.account)]
end SerialExample

theorem create_then_replace_is_sequential :
    Aligned acceptHost.runtime .inOrder FootprintExample.nothing SerialExample.empty SerialExample.dependent ∧
    ∃ results, executeMany acceptHost.runtime .inOrder .quick SerialExample.empty.get FootprintExample.nothing
        SerialExample.dependent = .ok results ∧
      results.map Except.toOption = (sequential acceptHost.runtime .inOrder FootprintExample.nothing
        SerialExample.empty SerialExample.dependent).map Except.toOption := by
  have edge : (dependencies (refsOf SerialExample.empty.get SerialExample.dependent)).parent 1 = some 0 := by decide
  have top : (dependencies (refsOf SerialExample.empty.get SerialExample.dependent)).parent 0 = none := by decide
  have first : earlier SerialExample.empty.get SerialExample.dependent 0 = [] := by
    rw [earlier,Forest.depth_top top]
    rfl
  have second : earlier SerialExample.empty.get SerialExample.dependent 1 = [0] := by
    rw [earlier,Forest.depth_step edge,Forest.root_step edge,Forest.depth_top top,Forest.root_top top]
    rfl
  have aligned : Aligned acceptHost.runtime .inOrder FootprintExample.nothing SerialExample.empty
      SerialExample.dependent := by
    intro j inside a member
    have known : j = 0 ∨ j = 1 := by
      have bound : j < 2 := inside
      omega
    rcases known with rfl | rfl
    · rw [first]
      exact ⟨rfl,by simp [lastWriter]⟩
    · rw [second]
      refine ⟨rfl,?_⟩
      intro i writer removed
      obtain rfl : i = 0 := by
        have inRange := List.mem_of_getLast? writer
        simpa using (List.mem_filter.mp inRange).1
      change ((∅ : BTreeMap Address AccountChange).insert FootprintExample.parent
        (.createAccount FootprintExample.account))[a]? = some .deleteAccount at removed
      rw [OrderedMap.get_insert] at removed
      split at removed <;> simp at removed
  obtain ⟨exactly,enough⟩ := block_is_sequential_iff acceptHost.runtime .inOrder .quick FootprintExample.nothing
    SerialExample.empty SerialExample.dependent
  exact ⟨aligned,exactly.mpr fun j inside => congrArg Except.toOption (enough aligned j inside)⟩

-- Creating an account does not count as writing what its children are checked
-- against.
theorem parent_and_child_run_apart :
    executeMany acceptHost.runtime .inOrder .quick SerialExample.empty.get FootprintExample.nothing
        SerialExample.nested =
      .ok [.ok (StateDiff.set default FootprintExample.parent FootprintExample.sealed).1,
        .ok (FootprintExample.created FootprintExample.child)] ∧
    sequential acceptHost.runtime .inOrder FootprintExample.nothing SerialExample.empty SerialExample.nested =
      [.ok (StateDiff.set default FootprintExample.parent FootprintExample.sealed).1,
        .error (.crash (.compile "Validation error: unexpected end of file"))] := by
  constructor <;> decide

end AnomaAlpha
