import AnomaAlpha.Host
import AnomaAlpha.Verdict

set_option linter.unusedSectionVars false

namespace AnomaAlpha.Execution
open Collect Fallible CancelFlag

variable {A : Type} [DecidableEq A] [Ord A] [Std.TransOrd A] [Std.LawfulEqOrd A]
  [AddressSpace A]
variable {rt : Runtime A} {sch : Scheduler A} {tx : Transaction A} {state cache : View A}

theorem execute_ok {diff : StateDiff A} : execute rt sch tx state cache = .ok diff ↔
    outputs state tx = .ok diff ∧ ∃ context accounts intents,
      predicateContext rt.toHashing state tx = .ok context ∧ accountsPredicates state context tx = .ok accounts ∧
      intentsPredicates state context tx = .ok intents ∧
      parallelInvokePredicates rt sch context (sch.order accounts ++ intents) cache = .ok () := by
  simp only [execute,bind_ok,mapError_ok]
  constructor
  · intro given
    obtain ⟨diff',written,context,gathered,accounts,asked,intents,expected,finished⟩ := given
    split at finished
    · rename_i invoked
      obtain rfl := Except.ok.inj finished
      exact ⟨written,context,accounts,intents,gathered,asked,expected,invoked⟩
    · cases finished
  · intro given
    obtain ⟨written,context,accounts,intents,gathered,asked,expected,invoked⟩ := given
    exact ⟨diff,written,context,gathered,accounts,asked,intents,expected,by rw [invoked]⟩

inductive Required (state : View A) (context : PredicateContext A) (tx : Transaction A) : ExpandedTree A → Prop where
  | account : tx.proposals[addr]? = some change → up ∈ addr :: AddressSpace.ancestors addr → state up = some acc →
      expandPredicateTree state acc.predicates context (boundCalldata context) = .ok tree →
      Required state context tx tree
  | intent : intent ∈ tx.intents → expandPredicateTree state intent.expectations context intent.calldata = .ok tree →
      Required state context tx tree

def accepts (rt : Runtime A) (context : PredicateContext A) (cache : View A) (pred : ExpandedPredicate A) : Bool :=
  match rt.encodeContext context with
  | .ok bytes => (invoke rt bytes pred cache).toOption.getD false
  | .error _ => false

theorem gathered_required (sch : Scheduler A) {context : PredicateContext A} {accounts intents : List (ExpandedTree A)}
    (asked : accountsPredicates state context tx = .ok accounts)
    (expected : intentsPredicates state context tx = .ok intents) (tree : ExpandedTree A) :
    tree ∈ sch.order accounts ++ intents ↔ Required state context tx tree := by
  rw [List.mem_append,(sch.order_perm accounts).mem_iff,accountsPredicates_mem asked,mapM_mem expected]
  constructor
  · intro given
    rcases given with ⟨addr,inside,acc,found,expanded⟩ | ⟨intent,inside,expanded⟩
    · obtain ⟨_,_,proposed,path⟩ := mem_touched.mp inside
      exact .account proposed path found expanded
    · exact .intent inside expanded
  · intro required
    cases required with
    | account proposed path found expanded => exact .inl ⟨_,mem_touched.mpr ⟨_,_,proposed,path⟩,_,found,expanded⟩
    | intent inside expanded => exact .inr ⟨_,inside,expanded⟩

theorem invoke_all_ok {context : PredicateContext A} {bytes : Bytes} {trees : List (ExpandedTree A)}
    (encoded : rt.encodeContext context = .ok bytes)
    (answers : ∀ tree ∈ trees, ∀ pred ∈ tree.leaves, ∃ b, invoke rt bytes pred cache = .ok b) :
    parallelInvokePredicates rt sch context trees cache = .ok () ↔
      ∀ tree ∈ trees, tree.holds (accepts rt context cache) = true := by
  have calm : ∀ t ∈ trees.map (attach rt bytes cache), crashFree t = t.size := by
    intro t member
    obtain ⟨tree,inside,rfl⟩ := List.mem_map.mp member
    apply clean_total
    intro leaf present
    rw [attach,ExpressionTree.leaves_map,List.mem_map] at present
    obtain ⟨pred,at_leaf,rfl⟩ := present
    exact answers tree inside pred at_leaf
  have same : ∀ tree, (attach rt bytes cache tree).holds answer = tree.holds (accepts rt context cache) := by
    intro tree
    rw [attach,ExpressionTree.holds_map]
    apply ExpressionTree.holds_congr
    intro pred _
    simp only [answer,accepts,encoded]
  simp only [parallelInvokePredicates,encoded,Except.mapError,bind,Except.bind]
  rw [calm_run calm]
  simp only [List.forall_mem_map,same]

theorem invoked_settles {context : PredicateContext A} {trees : List (ExpandedTree A)} {tree : ExpandedTree A}
    (invoked : parallelInvokePredicates rt sch context trees cache = .ok ()) (member : tree ∈ trees) :
    ∃ bytes m, rt.encodeContext context = .ok bytes ∧ settle (attach rt bytes cache tree) m = some true := by
  obtain ⟨bytes,encoded,ran⟩ := bind_ok.mp invoked
  rw [mapError_ok] at encoded
  obtain ⟨i,found⟩ := List.mem_iff_getElem?.mp (List.mem_map_of_mem member)
  obtain ⟨m,_,_,_,_,settled⟩ := (parallelInvoke_ok _ _ _).mp ran i _ found
  exact ⟨bytes,m,encoded,settled⟩

def Approves (rt : Runtime A) (context : PredicateContext A) (cache : View A)
    (expanded : Except (CollectError A) (ExpandedTree A)) : Prop :=
  ∃ tree, expanded = .ok tree ∧ tree.holds (accepts rt context cache) = true

-- Approval is asked of every existing account on the way to a change and of
-- every intent, whatever the threads do.
theorem executes_iff_approved (encodes : ∀ context, ∃ bytes, rt.encodeContext context = .ok bytes)
    (answers : ∀ context bytes tree, predicateContext rt.toHashing state tx = .ok context →
      rt.encodeContext context = .ok bytes → Required state context tx tree →
      ∀ pred ∈ tree.leaves, ∃ b, invoke rt bytes pred cache = .ok b) (diff : StateDiff A) :
    execute rt sch tx state cache = .ok diff ↔
      outputs state tx = .ok diff ∧ ∃ context, predicateContext rt.toHashing state tx = .ok context ∧
        (∀ addr change, tx.proposals[addr]? = some change → ∀ up ∈ addr :: AddressSpace.ancestors addr,
          ∀ acc, state up = some acc →
            Approves rt context cache (expandPredicateTree state acc.predicates context (boundCalldata context))) ∧
        ∀ intent ∈ tx.intents,
          Approves rt context cache (expandPredicateTree state intent.expectations context intent.calldata) := by
  rw [execute_ok]
  refine and_congr_right fun written => ?_
  constructor
  · intro given
    obtain ⟨context,accounts,intents,gathered,asked,expected,invoked⟩ := given
    obtain ⟨bytes,encoded⟩ := encodes context
    have members := gathered_required sch asked expected
    have all := (invoke_all_ok encoded fun tree member =>
      answers context bytes tree gathered encoded ((members tree).mp member)).mp invoked
    refine ⟨context,gathered,?_,?_⟩
    · intro addr change proposed up path acc found
      obtain ⟨tree,expanded⟩ := accountsPredicates_expands asked (mem_touched.mpr ⟨addr,change,proposed,path⟩) found
      exact ⟨tree,expanded,all tree ((members tree).mpr (.account proposed path found expanded))⟩
    · intro intent inside
      obtain ⟨tree,expanded⟩ := mapM_each expected inside
      exact ⟨tree,expanded,all tree ((members tree).mpr (.intent inside expanded))⟩
  · intro given
    obtain ⟨context,gathered,accounts_hold,intents_hold⟩ := given
    obtain ⟨bytes,encoded⟩ := encodes context
    obtain ⟨accounts,asked⟩ : ∃ accounts, accountsPredicates state context tx = .ok accounts := by
      refine accountsPredicates_total fun up inside acc found => ?_
      obtain ⟨addr,change,proposed,path⟩ := mem_touched.mp inside
      exact (accounts_hold addr change proposed up path acc found).imp fun _ => And.left
    obtain ⟨intents,expected⟩ : ∃ intents, intentsPredicates state context tx = .ok intents :=
      mapM_total fun intent inside => (intents_hold intent inside).imp fun _ => And.left
    have members := gathered_required sch asked expected
    refine ⟨context,accounts,intents,gathered,asked,expected,?_⟩
    rw [invoke_all_ok encoded fun tree member =>
      answers context bytes tree gathered encoded ((members tree).mp member)]
    intro tree member
    cases (members tree).mp member with
    | account proposed path found expanded =>
        obtain ⟨other,again,holds⟩ := accounts_hold _ _ proposed _ path _ found
        obtain rfl := Except.ok.inj (expanded.symm.trans again)
        exact holds
    | intent inside expanded =>
        obtain ⟨other,again,holds⟩ := intents_hold _ inside
        obtain rfl := Except.ok.inj (expanded.symm.trans again)
        exact holds

theorem executes_silent {diff : StateDiff A} (succeeded : execute rt sch tx state cache = .ok diff) {addr : A}
    (outside : tx.proposals[addr]? = none) :
    (∀ store : InMemoryStateStore A, store.get = state → (store.apply diff).get addr = store.get addr) ∧
    ∀ store : StateDiff A, store.get = state → (store.apply diff).get addr = store.get addr := by
  have silent := outputs_silent (execute_ok.mp succeeded).1 outside
  constructor
  · intro store same
    subst same
    simp [InMemoryStateStore.apply_get,Patch.apply,silent]
  · intro store same
    subst same
    exact StateDiff.apply_silent store silent

end AnomaAlpha.Execution
