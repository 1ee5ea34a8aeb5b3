import AnomaAlpha.CodeCache
import AnomaAlpha.Lib.Writers

namespace AnomaAlpha
open Execution Schedule StateDiff BlockStateBuilder

section
variable {rt : Runtime} {sch : Scheduler} {u : Components.Labeling} {state cache : View} {txs : List Transaction}

-- A transaction of a block with the view that its tree gives it.
def Shown (rt : Runtime) (sch : Scheduler) (u : Components.Labeling) (state cache : View) (txs : List Transaction)
    (tx : Transaction) (view : View) : Prop :=
  ∃ (out : Nat → Except Error StateDiff) (i : Nat),
    executeMany rt sch u state cache txs = .ok ((List.range txs.length).map out) ∧ txs[i]? = some tx ∧
    view = (Overlayed.mk state (accumulate default ((earlier state txs i).map fun k => (out k,k))).get).get

def patchOut (out : Nat → Except Error StateDiff) (i : Nat) : Option (Patch Address Account) := (out i).toOption.map patch

theorem accumulate_patch (out : Nat → Except Error StateDiff) (order : List Nat) (acc : StateDiff)
    (each : ∀ k ∈ order, ∀ diff, out k = .ok diff → Reachable diff) (reached : Reachable acc) :
    Reachable (accumulate acc (order.map fun k => (out k,k))) ∧
    (accumulate acc (order.map fun k => (out k,k))).patch = acc.patch * (order.filterMap (patchOut out)).prod := by
  induction order generalizing acc with
  | nil => exact ⟨reached,by simp [accumulate]⟩
  | cons k order ih =>
      have later := fun acc => ih acc fun j member => each j (List.mem_cons_of_mem _ member)
      cases ran : out k with
      | error e => simpa [accumulate,ran,patchOut,Except.toOption] using later acc reached
      | ok diff =>
          have rest := later (acc.apply diff) (.apply reached (each k (by simp) diff ran))
          simpa [accumulate,ran,patchOut,Except.toOption,StateDiff.apply,patch_merge,mul_assoc] using rest

theorem execute_reachable {tx : Transaction} {view : View} {diff : StateDiff}
    (ran : execute rt sch tx view cache = .ok diff) : Reachable diff :=
  Collect.outputs_reachable (execute_ok.mp ran).1

theorem successes_patch (out : Nat → Except Error StateDiff) (l : List Nat) :
    (successes (l.map out)).map patch = l.filterMap (patchOut out) := by
  rw [successes,List.filterMap_map,List.map_filterMap]
  rfl

-- The transactions of a block write on the state before it; the rank is the
-- depth in the dependency trees.
def blockWriters (state : View) (txs : List Transaction) (out : Nat → Except Error StateDiff) : Writers Address Account where
  base := state
  count := txs.length
  left := patchOut out
  before := earlier state txs
  rank := (dependencies (refsOf state txs)).depth
  lower inside member := earlier_inside state txs inside member

theorem patchOut_some {out : Nat → Except Error StateDiff} {i : Nat} {p : Patch Address Account}
    (left : patchOut out i = some p) : ∃ diff, out i = .ok diff ∧ diff.patch = p := by
  obtain ⟨diff,ran,patched⟩ := Option.map_eq_some_iff.mp left
  cases result : out i with
  | error e => simp [result,Except.toOption] at ran
  | ok value =>
      rw [result] at ran
      obtain rfl := Option.some.inj ran
      exact ⟨value,rfl,patched⟩

section
variable {out : Nat → Except Error StateDiff}

theorem outcome_each (ran : executeMany rt sch u state cache txs = .ok ((List.range txs.length).map out)) :
    ∀ i < txs.length, out i =
      executeOn rt sch state cache txs (accumulate default ((earlier state txs i).map fun k => (out k,k))) i := by
  obtain ⟨found,again,each⟩ := executeMany_function (Collect.all_end txs) rt sch u state cache
  have same := List.map_inj_left.mp (Except.ok.inj (ran.symm.trans again))
  intro i inside
  have before : ((earlier state txs i).map fun k => (found k,k)) = (earlier state txs i).map fun k => (out k,k) :=
    List.map_congr_left fun k member => by rw [same k (List.mem_range.mpr (earlier_inside state txs inside member).2)]
  rw [same i (List.mem_range.mpr inside),each i inside,before]

theorem outcome_reachable (ran : executeMany rt sch u state cache txs = .ok ((List.range txs.length).map out)) :
    ∀ i < txs.length, ∀ diff, out i = .ok diff → Reachable diff := by
  intro i inside diff result
  rw [outcome_each ran i inside] at result
  exact execute_reachable result

theorem writers_view (ran : executeMany rt sch u state cache txs = .ok ((List.range txs.length).map out)) :
    ∀ i < txs.length, (blockWriters state txs out).view i =
      (Overlayed.mk state (accumulate default ((earlier state txs i).map fun k => (out k,k))).get).get := by
  intro i inside
  obtain ⟨kept,merged⟩ := accumulate_patch out (earlier state txs i) default
    (fun k member => outcome_reachable ran k (earlier_inside state txs inside member).2) .default
  rw [Overlayed.get_patch state (reachable_separate kept),merged,patch_default,one_mul]
  rfl

theorem writers_final (store : InMemoryStateStore) :
    (store.apply (mergeAll (successes ((List.range txs.length).map out)))).get =
      (blockWriters store.get txs out).final := by
  rw [InMemoryStateStore.apply_get,mergeAll_patch,successes_patch]
  rfl

theorem writers_left (ran : executeMany rt sch u state cache txs = .ok ((List.range txs.length).map out)) :
    ∀ i < txs.length, ∀ p, (blockWriters state txs out).left i = some p → ∃ tx diff,
      Shown rt sch u state cache txs tx ((blockWriters state txs out).view i) ∧
      execute rt sch tx ((blockWriters state txs out).view i) cache = .ok diff ∧ diff.patch = p := by
  intro i inside p left
  obtain ⟨diff,result,patched⟩ := patchOut_some left
  have here : txs[i]? = some (txs.getD i default) := by simp [inside]
  refine ⟨txs.getD i default,diff,⟨out,i,ran,here,writers_view ran i inside⟩,?_,patched⟩
  rw [writers_view ran i inside]
  exact (outcome_each ran i inside).symm.trans result

end

theorem shown_view {tx : Transaction} {view : View} (shown : Shown rt sch u state cache txs tx view) :
    ∃ out i, executeMany rt sch u state cache txs = .ok ((List.range txs.length).map out) ∧ i < txs.length ∧
      view = (blockWriters state txs out).view i := by
  obtain ⟨out,i,ran,found,rfl⟩ := shown
  have inside := (List.getElem?_eq_some_iff.mp found).1
  exact ⟨out,i,ran,inside,(writers_view ran i inside).symm⟩

theorem earlier_first (state : View) (txs : List Transaction) : earlier state txs 0 = [] := by
  have top : (dependencies (refsOf state txs)).parent 0 = none := by
    cases edge : (dependencies (refsOf state txs)).parent 0 with
    | none => rfl
    | some i => exact absurd ((dependencies (refsOf state txs)).smaller edge) (Nat.not_lt_zero i)
  unfold earlier
  rw [Forest.depth_top top]
  rfl

theorem shown_single {only tx : Transaction} {view : View} (shown : Shown rt sch u state cache [only] tx view) :
    tx = only ∧ view = state := by
  obtain ⟨out,i,_,found,rfl⟩ := shown
  obtain rfl : i = 0 := Nat.lt_one_iff.mp (List.getElem?_eq_some_iff.mp found).1
  refine ⟨(Option.some.inj found).symm,?_⟩
  rw [earlier_first,List.map_nil]
  funext a
  simp [accumulate,Overlayed.get,StateDiff.get,default]

theorem shown_member {tx : Transaction} {view : View} (shown : Shown rt sch u state cache txs tx view) : tx ∈ txs := by
  obtain ⟨_,_,_,found,_⟩ := shown
  exact List.mem_of_getElem? found

def ApprovedBy (rt : Runtime) (cache : View) (tx : Transaction) (view : View) (acc : Account) : Prop :=
  ∃ context tree bytes m, Collect.predicateContext rt.toHashing view tx = .ok context ∧
    Collect.expandPredicateTree view acc.predicates context (Collect.boundCalldata context) = .ok tree ∧
    rt.encodeContext context = .ok bytes ∧ settle (attach rt bytes cache tree) m = some true

theorem proposed_approves {tx : Transaction} {view : View} {diff : StateDiff} {a up : Address} {change : AccountChange}
    {acc : Account} (ran : execute rt sch tx view cache = .ok diff) (proposed : tx.proposals[a]? = some change)
    (path : up ∈ a :: a.ancestors) (held : view up = some acc) : ApprovedBy rt cache tx view acc := by
  obtain ⟨_,context,accounts,intents,gathered,asked,expected,invoked⟩ := execute_ok.mp ran
  obtain ⟨tree,expanded⟩ := Collect.accountsPredicates_expands asked (Collect.mem_touched.mpr ⟨a,change,proposed,path⟩) held
  have required := (gathered_required sch asked expected tree).mpr (.account proposed path held expanded)
  obtain ⟨bytes,m,encoded,settled⟩ := invoked_settles invoked required
  exact ⟨context,tree,bytes,m,gathered,expanded,encoded,settled⟩

theorem written_proposed {tx : Transaction} {view : View} {diff : StateDiff} {a : Address} {after : Option Account}
    (ran : execute rt sch tx view cache = .ok diff) (wrote : diff.patch a = some after) :
    ∃ change, tx.proposals[a]? = some change ∧ Collect.effect change (view a) = some after := by
  have written := (execute_ok.mp ran).1
  cases proposed : tx.proposals[a]? with
  | none =>
      rw [Collect.outputs_silent written proposed] at wrote
      cases wrote
  | some change =>
      obtain ⟨result,fits,held⟩ := Collect.outputs_fits written proposed
      cases held.symm.trans wrote
      exact ⟨change,rfl,fits⟩

end

section
variable {c : Toolchain} {sch : Scheduler} {u : Components.Labeling} {P : Address → Option Account → Prop}
  {stores : InMemoryStateStore × InMemoryStateStore}

-- A transaction that a run of blocks accepts, with the view of its tree and the
-- module cache before its block.
def Taken (c : Toolchain) (sch : Scheduler) (u : Components.Labeling)
    (stores : InMemoryStateStore × InMemoryStateStore) (blocks : List Block) (tx : Transaction) (view cache : View)
    (diff : StateDiff) : Prop :=
  ∃ front block back, blocks = front ++ block :: back ∧
    Shown c.toRuntime sch u (front.foldl (replay c sch u) stores).1.get cache block.transactions tx view ∧
    cache = (front.foldl (replay c sch u) stores).2.get ∧ execute c.toRuntime sch tx view cache = .ok diff

theorem replay_keeps {block : Block} (start : ∀ a, P a (stores.1.get a))
    (each : ∀ tx view diff, Shown c.toRuntime sch u stores.1.get stores.2.get block.transactions tx view →
      execute c.toRuntime sch tx view stores.2.get = .ok diff → (∀ a, P a (view a)) →
      ∀ a after, diff.patch a = some after → P a after) :
    (∀ tx view, Shown c.toRuntime sch u stores.1.get stores.2.get block.transactions tx view → ∀ a, P a (view a)) ∧
    ∀ a, P a ((replay c sch u stores block).1.get a) := by
  have keeps : ∀ out, executeMany c.toRuntime sch u stores.1.get stores.2.get block.transactions =
      .ok ((List.range block.transactions.length).map out) →
      (∀ i < block.transactions.length, ∀ a, P a ((blockWriters stores.1.get block.transactions out).view i a)) ∧
      ∀ a, P a ((blockWriters stores.1.get block.transactions out).final a) := by
    intro out ran
    refine (blockWriters stores.1.get block.transactions out).keeps start fun i inside reads p left => ?_
    obtain ⟨tx,diff,shown,accepted,rfl⟩ := writers_left ran i inside p left
    exact each tx _ diff shown accepted reads
  constructor
  · intro tx view shown
    obtain ⟨out,i,ran,inside,rfl⟩ := shown_view shown
    exact (keeps out ran).1 i inside
  · obtain ⟨out,ran,_⟩ := executeMany_function (Collect.all_end block.transactions) c.toRuntime sch u stores.1.get stores.2.get
    intro a
    unfold replay
    rw [ran]
    dsimp only
    rw [← apply_mergeAll,writers_final]
    exact (keeps out ran).2 a

theorem blocks_keep (c : Toolchain) (sch : Scheduler) (u : Components.Labeling)
    (stores : InMemoryStateStore × InMemoryStateStore) (blocks : List Block) (start : ∀ a, P a (stores.1.get a))
    (each : ∀ tx view cache diff, Taken c sch u stores blocks tx view cache diff → (∀ a, P a (view a)) →
      ∀ a after, diff.patch a = some after → P a after) :
    (∀ tx view cache diff, Taken c sch u stores blocks tx view cache diff → ∀ a, P a (view a)) ∧
    ∀ a, P a ((blocks.foldl (replay c sch u) stores).1.get a) := by
  induction blocks generalizing stores with
  | nil =>
      refine ⟨?_,start⟩
      intro tx view cache diff taken
      obtain ⟨front,block,back,empty,_⟩ := taken
      simp at empty
  | cons block blocks ih =>
      obtain ⟨first,next⟩ := replay_keeps start fun tx view diff shown accepted =>
        each tx view _ diff ⟨[],block,blocks,rfl,shown,rfl,accepted⟩
      obtain ⟨views,final⟩ := ih _ next fun tx view cache diff taken => by
        obtain ⟨front,later,back,rfl,shown,cached,accepted⟩ := taken
        exact each tx view cache diff ⟨block :: front,later,back,rfl,shown,cached,accepted⟩
      refine ⟨?_,final⟩
      intro tx view cache diff taken
      obtain ⟨front,later,back,split,shown,cached,accepted⟩ := taken
      cases front with
      | nil =>
          obtain ⟨rfl,rfl⟩ := List.cons.inj split
          subst cached
          exact first tx view shown
      | cons head front =>
          obtain ⟨rfl,rfl⟩ := List.cons.inj split
          exact views tx view cache diff ⟨front,later,back,rfl,shown,cached,accepted⟩

theorem consumeAll_stores {b next : BlockStateBuilder} {blocks : List Block} {results : List (Except BlockStateBuilder.Error Unit)}
    (ran : consumeAll c sch u b blocks = .ok (results,next)) :
    (next.state,next.codecache) = (accepted blocks results).foldl (replay c sch u) (b.state,b.codecache) := by
  induction blocks generalizing b results with
  | nil =>
      cases ran
      rfl
  | cons block blocks ih =>
      obtain ⟨⟨result,between⟩,stepped,later⟩ := Fallible.bind_ok.mp ran
      obtain ⟨⟨rest,last⟩,ranLater,finished⟩ := Fallible.bind_ok.mp later
      cases finished
      have stores := ih ranLater
      cases front : b.recent with
      | nil => simp [consume,front] at stepped
      | cons last older =>
          rcases consume_cases c sch u (Collect.all_end block.transactions) front with ⟨error,refused,_⟩ | ⟨stopped,_,_⟩ | ⟨_,taken⟩
          · rw [refused] at stepped
            cases stepped
            exact stores
          · rw [stopped] at stepped
            cases stepped
          · rw [taken] at stepped
            cases stepped
            exact stores

-- One accepted change of an account, as all that had a say in it saw it.
def Changed (c : Toolchain) (sch : Scheduler) (u : Components.Labeling)
    (stores : InMemoryStateStore × InMemoryStateStore) (blocks : List Block) (a : Address)
    (before after : Option Account) : Prop :=
  ∃ tx view cache diff change, Taken c sch u stores blocks tx view cache diff ∧ view a = before ∧
    tx.proposals[a]? = some change ∧ Collect.effect change before = some after ∧
    ∀ up ∈ a :: a.ancestors, ∀ acc, view up = some acc → ApprovedBy c.toRuntime cache tx view acc

theorem Taken.executed {blocks : List Block} {tx : Transaction} {view cache : View} {diff : StateDiff}
    (taken : Taken c sch u stores blocks tx view cache diff) : execute c.toRuntime sch tx view cache = .ok diff := by
  obtain ⟨_,_,_,_,_,_,ran⟩ := taken
  exact ran

theorem taken_single {block : Block} {only tx : Transaction} {view cache : View} {diff : StateDiff}
    (single : block.transactions = [only]) (taken : Taken c sch u stores [block] tx view cache diff) :
    tx = only ∧ view = stores.1.get ∧ cache = stores.2.get := by
  obtain ⟨front,own,back,split,shown,cached,_⟩ := taken
  cases front with
  | nil =>
      obtain ⟨rfl,_⟩ := List.cons.inj split
      rw [single] at shown
      obtain ⟨rfl,rfl⟩ := shown_single shown
      exact ⟨rfl,rfl,cached⟩
  | cons head front => simp at split

theorem consumeAll_single {b : BlockStateBuilder} {block last : Block} {older : List Block}
    (front : b.recent = last :: older) (follows : block.Follows c last) (fits : last.height.toNat + 1 < 2^64) :
    consumeAll c sch u b [block] = .ok ([.ok ()],⟨b.historyLen,(replay c sch u (b.state,b.codecache) block).1,
      (replay c sch u (b.state,b.codecache) block).2,pushRecent b.historyLen.get (last.hashed c :: older) block⟩) := by
  rcases consume_cases c sch u (Collect.all_end block.transactions) front with ⟨_,_,other⟩ | ⟨_,_,full⟩ | ⟨_,taken⟩
  · exact absurd follows other
  · exact absurd fits full
  · simp only [consumeAll,taken,bind,Except.bind,pure,Except.pure]

theorem taken_changes {blocks : List Block} {tx : Transaction} {view cache : View} {diff : StateDiff} {a : Address}
    {after : Option Account} (taken : Taken c sch u stores blocks tx view cache diff)
    (wrote : diff.patch a = some after) : Changed c sch u stores blocks a (view a) after := by
  have ran := taken.executed
  obtain ⟨change,proposed,fits⟩ := written_proposed ran wrote
  exact ⟨tx,view,cache,diff,change,taken,rfl,proposed,fits,
    fun up path acc held => proposed_approves ran proposed path held⟩

-- What an account holds after any run of the builder is reached from what it
-- held by accepted changes, each of which fits what the one before has left.
theorem account_history (c : Toolchain) (sch : Scheduler) (u : Components.Labeling) (b next : BlockStateBuilder)
    (blocks : List Block) (results : List (Except BlockStateBuilder.Error Unit))
    (ran : consumeAll c sch u b blocks = .ok (results,next)) (a : Address) :
    Relation.ReflTransGen (Changed c sch u (b.state,b.codecache) (accepted blocks results) a)
      (b.state.get a) (next.state.get a) := by
  have kept := blocks_keep c sch u (b.state,b.codecache) (accepted blocks results)
    (P:=fun a x => Relation.ReflTransGen (Changed c sch u (b.state,b.codecache) (accepted blocks results) a) (b.state.get a) x)
    (fun _ => .refl) fun tx view cache diff taken reads a after wrote => (reads a).tail (taken_changes taken wrote)
  rw [← consumeAll_stores ran] at kept
  exact kept.2 a

end

theorem publication_history :
    CodeCacheExample.grown.state.get FootprintExample.parent = some BuilderExample.library ∧
    Relation.ReflTransGen (Changed BuilderExample.toolchain .inOrder .quick
        (BuilderExample.empty,BuilderExample.empty) [BuilderExample.child] FootprintExample.parent)
      none (CodeCacheExample.grown.state.get FootprintExample.parent) := by
  constructor
  · unfold CodeCacheExample.grown replay
    simp only [BuilderExample.child,CodeCacheExample.child_executed]
    decide
  · exact account_history BuilderExample.toolchain .inOrder .quick BuilderExample.builder CodeCacheExample.grown
      [BuilderExample.child] [.ok ()] CodeCacheExample.child_consumed FootprintExample.parent

end AnomaAlpha
