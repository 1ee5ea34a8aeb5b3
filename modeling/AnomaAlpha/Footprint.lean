import AnomaAlpha.Approval

set_option linter.unusedSectionVars false

namespace AnomaAlpha
open OrderedMap Fallible

structure TransactionRefs (A : Type := Address) [Ord A] where
  reads : BTreeSet A
  writes : BTreeSet A

section
variable {A : Type} [DecidableEq A] [Ord A] [Std.TransOrd A] [Std.LawfulEqOrd A]
  [AddressSpace A]

instance : DecidableEq (TransactionRefs A) := fun left right =>
  decidable_of_iff (left.reads = right.reads ∧ left.writes = right.writes) <| by
    cases left; cases right; simp

namespace TransactionRefs

def dependsOn (self other : TransactionRefs A) : Bool :=
  self.reads.toList.any (fun addr => other.writes.contains addr) ||
    self.writes.toList.any fun addr => other.writes.contains addr

def note (writes reads : BTreeSet A) (addr : A) : BTreeSet A :=
  if writes.contains addr then reads else reads.insert addr

def noteParam (writes reads : BTreeSet A) : Param A → BTreeSet A
  | .accountRef addr => note writes reads addr
  | _ => reads

-- The closure that `TransactionRefs::new` runs on every predicate of a tree.
def notePredicate (writes reads : BTreeSet A) (pred : Predicate A) : BTreeSet A :=
  let reads := pred.params.foldl (noteParam writes) reads
  match pred.code with
  | .accountRef addr _ => note writes reads addr
  | .inline _ => reads

def noteAccount (state : View A) (writes reads : BTreeSet A) (addr : A) : BTreeSet A :=
  match state addr with
  | some acc => acc.predicates.forEach (notePredicate writes) reads
  | none => reads

-- The ancestors of a proposal are visited only if its own account exists.
def noteProposal (state : View A) (writes reads : BTreeSet A) (addr : A) : BTreeSet A :=
  match state addr with
  | some acc => (AddressSpace.ancestors addr).foldl (noteAccount state writes)
      (acc.predicates.forEach (notePredicate writes) reads)
  | none => reads

def noteProposalOrHalt (state : View A) (writes reads : BTreeSet A) (addr : A) : Except (Stop Empty) (BTreeSet A) :=
  match state addr with
  | some acc => forAncestors (fun reads addr => .ok (noteAccount state writes reads addr))
      (acc.predicates.forEach (notePredicate writes) reads) addr
  | none => .ok reads

-- On addresses that need not have been checked.
def newOrHalt (tx : Transaction A) (state : View A) : Except (Stop Empty) (TransactionRefs A) := do
  let keys := tx.proposals.toList.map Prod.fst
  let writes := keys.foldl (fun writes addr => writes.insert addr) ∅
  let reads ← keys.foldlM (noteProposalOrHalt state writes) ∅
  return ⟨tx.intents.foldl (fun reads intent => intent.expectations.forEach (notePredicate writes) reads) reads,writes⟩

def new (tx : Transaction A) (state : View A) : TransactionRefs A :=
  let keys := tx.proposals.toList.map Prod.fst
  let writes := keys.foldl (fun writes addr => writes.insert addr) ∅
  let reads := keys.foldl (noteProposal state writes) ∅
  ⟨tx.intents.foldl (fun reads intent => intent.expectations.forEach (notePredicate writes) reads) reads,writes⟩

end TransactionRefs

def Param.refs : Param A → List A
  | .accountRef addr => [addr]
  | _ => []

def Code.refs : Code A → List A
  | .accountRef addr _ => [addr]
  | .inline _ => []

def PredicateTree.refs (tree : PredicateTree A) : List A :=
  tree.leaves.flatMap fun pred => pred.params.flatMap Param.refs ++ pred.code.refs

def accountRefs (state : View A) (addr : A) : List A :=
  match state addr with
  | some acc => PredicateTree.refs acc.predicates
  | none => []

-- Every address at which `execute` asks the state.
def footprint (tx : Transaction A) (state : View A) : List A :=
  Collect.touched tx ++ (Collect.touched tx).flatMap (accountRefs state) ++
    tx.intents.flatMap fun intent => PredicateTree.refs intent.expectations

namespace TransactionRefs

theorem mem_note (writes reads : BTreeSet A) (addr a : A) :
    a ∈ note writes reads addr ↔ a ∈ reads ∨ (a ∉ writes ∧ a = addr) := by
  unfold note
  split
  · rename_i written
    have inside : addr ∈ writes := written
    constructor
    · exact .inl
    · intro given
      rcases given with old | ⟨outside,rfl⟩
      · exact old
      · exact absurd inside outside
  · rename_i fresh
    have outside : addr ∉ writes := fun inside => fresh inside
    rw [mem_insert_iff]
    constructor
    · intro given
      rcases given with rfl | old
      · exact .inr ⟨outside,rfl⟩
      · exact .inl old
    · intro given
      rcases given with old | ⟨_,rfl⟩
      · exact .inr old
      · exact .inl rfl

theorem mem_notePredicate (writes reads : BTreeSet A) (pred : Predicate A) (a : A) :
    a ∈ notePredicate writes reads pred ↔
      a ∈ reads ∨ (a ∉ writes ∧ a ∈ pred.params.flatMap Param.refs ++ pred.code.refs) := by
  have params : a ∈ pred.params.foldl (noteParam writes) reads ↔
      a ∈ reads ∨ ∃ param ∈ pred.params, a ∉ writes ∧ a ∈ param.refs := by
    apply mem_foldl
    intro s param
    cases param <;> simp [noteParam,Param.refs,mem_note]
  unfold notePredicate
  cases coded : pred.code with
  | inline wasm =>
      simp only [params,Code.refs,List.append_nil,List.mem_flatMap]
      exact or_congr_right ⟨fun ⟨p,inside,outside,named⟩ => ⟨outside,p,inside,named⟩,
        fun ⟨outside,p,inside,named⟩ => ⟨p,inside,outside,named⟩⟩
  | accountRef addr entrypoint =>
      simp only [mem_note,params,Code.refs,List.mem_append,List.mem_flatMap,List.mem_singleton,or_assoc]
      refine or_congr_right ?_
      constructor
      · intro given
        rcases given with ⟨p,inside,outside,named⟩ | ⟨outside,rfl⟩
        · exact ⟨outside,.inl ⟨p,inside,named⟩⟩
        · exact ⟨outside,.inr rfl⟩
      · intro given
        obtain ⟨outside,⟨p,inside,named⟩ | rfl⟩ := given
        · exact .inl ⟨p,inside,outside,named⟩
        · exact .inr ⟨outside,rfl⟩

theorem mem_noteTree (writes reads : BTreeSet A) (tree : PredicateTree A) (a : A) :
    a ∈ tree.forEach (notePredicate writes) reads ↔ a ∈ reads ∨ (a ∉ writes ∧ a ∈ PredicateTree.refs tree) := by
  rw [ExpressionTree.forEach_leaves,mem_foldl fun s pred => mem_notePredicate writes s pred a]
  refine or_congr_right ?_
  rw [PredicateTree.refs,List.mem_flatMap]
  exact ⟨fun ⟨p,inside,outside,named⟩ => ⟨outside,p,inside,named⟩,
    fun ⟨outside,p,inside,named⟩ => ⟨p,inside,outside,named⟩⟩

theorem mem_noteAccount (state : View A) (writes reads : BTreeSet A) (addr a : A) :
    a ∈ noteAccount state writes reads addr ↔ a ∈ reads ∨ (a ∉ writes ∧ a ∈ accountRefs state addr) := by
  unfold noteAccount accountRefs
  cases state addr with
  | none => simp
  | some acc => exact mem_noteTree writes reads acc.predicates a

theorem mem_noteProposal (state : View A) (writes reads : BTreeSet A) (addr a : A) :
    a ∈ noteProposal state writes reads addr ↔ a ∈ reads ∨
      (a ∉ writes ∧ state addr ≠ none ∧ ∃ up ∈ addr :: AddressSpace.ancestors addr, a ∈ accountRefs state up) := by
  unfold noteProposal
  cases found : state addr with
  | none => simp
  | some acc =>
      have own : accountRefs state addr = PredicateTree.refs acc.predicates := by simp [accountRefs,found]
      simp only [mem_foldl fun s up => mem_noteAccount state writes s up a,mem_noteTree,List.exists_mem_cons_iff,
        own,or_assoc]
      simp only [ne_eq,reduceCtorEq,not_false_eq_true,true_and,and_or_left]
      refine or_congr_right (or_congr_right ?_)
      exact ⟨fun ⟨up,inside,outside,named⟩ => ⟨outside,up,inside,named⟩,
        fun ⟨outside,up,inside,named⟩ => ⟨up,inside,outside,named⟩⟩

theorem mem_writes (tx : Transaction A) (state : View A) (a : A) :
    a ∈ (new tx state).writes ↔ a ∈ tx.proposals.toList.map Prod.fst := by
  simp only [new,mem_insertAll]
  simp

theorem mem_reads (tx : Transaction A) (state : View A) (a : A) :
    a ∈ (new tx state).reads ↔ a ∉ (new tx state).writes ∧
      ((∃ addr ∈ tx.proposals.toList.map Prod.fst, state addr ≠ none ∧
        ∃ up ∈ addr :: AddressSpace.ancestors addr, a ∈ accountRefs state up) ∨
      ∃ intent ∈ tx.intents, a ∈ PredicateTree.refs intent.expectations) := by
  have empty : a ∉ (∅ : BTreeSet A) := Std.ExtTreeSet.not_mem_empty
  simp only [new,mem_foldl fun s (intent : Intent A) => mem_noteTree _ s intent.expectations a,
    mem_foldl fun s addr => mem_noteProposal state _ s addr a,empty,false_or]
  constructor
  · intro given
    rcases given with ⟨addr,inside,outside,present,up,above,named⟩ | ⟨intent,inside,outside,named⟩
    · exact ⟨outside,.inl ⟨addr,inside,present,up,above,named⟩⟩
    · exact ⟨outside,.inr ⟨intent,inside,named⟩⟩
  · intro given
    obtain ⟨outside,⟨addr,inside,present,up,above,named⟩ | ⟨intent,inside,named⟩⟩ := given
    · exact .inl ⟨addr,inside,outside,present,up,above,named⟩
    · exact .inr ⟨intent,inside,outside,named⟩

-- The refs come to an iteration that fails: below an account that exists.
def Lost (state : View A) (tx : Transaction A) : Prop :=
  ∃ addr ∈ tx.proposals.toList.map Prod.fst, state addr ≠ none ∧ AddressSpace.halt addr ≠ none

theorem ends_kept {state : View A} {tx : Transaction A} (ends : Collect.Ends tx) : ¬Lost state tx := by
  intro ⟨addr,key,_,fails⟩
  exact fails (ends addr key)

theorem noteProposal_kept {state : View A} {addr : A} (kept : state addr ≠ none → AddressSpace.halt addr = none)
    (writes reads : BTreeSet A) : noteProposalOrHalt state writes reads addr = .ok (noteProposal state writes reads addr) := by
  unfold noteProposalOrHalt noteProposal
  cases found : state addr with
  | none => rfl
  | some acc =>
      simp only
      rw [Collect.forAncestors_ends _ (kept (by rw [found]; simp)),foldlM_pure]
      rfl

theorem newOrHalt_kept {state : View A} {tx : Transaction A} (kept : ¬Lost state tx) : newOrHalt tx state = .ok (new tx state) := by
  have each : ∀ addr ∈ tx.proposals.toList.map Prod.fst, state addr ≠ none → AddressSpace.halt addr = none := by
    intro addr key present
    by_contra fails
    exact kept ⟨addr,key,present,fails⟩
  unfold newOrHalt new
  simp only
  rw [foldlM_congr fun addr key reads => noteProposal_kept (each addr key) _ reads,foldlM_pure]
  rfl

end TransactionRefs

namespace Collect
variable {s t : View A} {tx : Transaction A}

theorem expandPredicateTree_congr (tree : PredicateTree A) (context : PredicateContext A) (calldata : Calldata)
    (same : ∀ a ∈ PredicateTree.refs tree, s a = t a) :
    expandPredicateTree s tree context calldata = expandPredicateTree t tree context calldata := by
  apply ExpressionTree.tryMap_congr
  intro pred leaf
  have named : ∀ a ∈ pred.params.flatMap Param.refs ++ pred.code.refs, s a = t a := fun a member =>
    same a (List.mem_flatMap.mpr ⟨pred,leaf,member⟩)
  have code : expandCode s pred = expandCode t pred := by
    unfold expandCode
    cases coded : pred.code with
    | inline wasm => rfl
    | accountRef addr entrypoint => simp only [named addr (by simp [coded,Code.refs])]
  have params : pred.params.mapM (expandParam s context calldata pred) =
      pred.params.mapM (expandParam t context calldata pred) := by
    apply mapM_congr
    intro param member
    cases param with
    | accountRef addr =>
        have here := named addr (List.mem_append_left _ (List.mem_flatMap.mpr ⟨_,member,by simp [Param.refs]⟩))
        simp only [expandParam,here]
    | inline | proposalRef | calldataRef => rfl
  simp only [expandPredicate,code,params]

theorem outputs_congr (same : ∀ a ∈ tx.proposals.toList.map Prod.fst, s a = t a) : outputs s tx = outputs t tx := by
  apply foldlM_congr
  intro entry member output
  have here := same entry.1 (List.mem_map_of_mem member)
  cases change : entry.2 <;> simp only [outputStep,change,here]

theorem predicateContext_congr {w : Hashing A} (same : ∀ a ∈ tx.proposals.toList.map Prod.fst, s a = t a) :
    predicateContext w s tx = predicateContext w t tx := by
  have steps := foldlM_congr (f:=contextStep s) (g:=contextStep t) (l:=tx.proposals.toList) (by
    intro entry member proposals
    have here := same entry.1 (List.mem_map_of_mem member)
    cases change : entry.2 <;> simp only [contextStep,expandAccountChange,change,here]) ∅
  simp only [predicateContext,steps]

theorem accountsPredicates_congr (context : PredicateContext A) (same : ∀ a ∈ touched tx, s a = t a)
    (named : ∀ a ∈ touched tx, ∀ r ∈ accountRefs s a, s r = t r) :
    accountsPredicates s context tx = accountsPredicates t context tx := by
  have steps := foldlM_congr (f:=accountStep s context (boundCalldata context))
    (g:=accountStep t context (boundCalldata context)) (l:=touched tx) (by
      intro addr member output
      have here := same addr member
      unfold accountStep
      split
      · rfl
      · rw [← here]
        cases found : s addr with
        | none => rfl
        | some acc =>
            have refs : ∀ r ∈ PredicateTree.refs acc.predicates, s r = t r := fun r inside =>
              named addr member r (by simpa [accountRefs,found] using inside)
            simp only [expandPredicateTree_congr acc.predicates context (boundCalldata context) refs]) []
  simp only [accountsPredicates,steps]

theorem intentsPredicates_congr (context : PredicateContext A)
    (named : ∀ intent ∈ tx.intents, ∀ r ∈ PredicateTree.refs intent.expectations, s r = t r) :
    intentsPredicates s context tx = intentsPredicates t context tx :=
  mapM_congr fun intent member => expandPredicateTree_congr _ _ _ (named intent member)

theorem expanded_leaf {tree : PredicateTree A} {context : PredicateContext A} {calldata : Calldata}
    {expanded : ExpandedTree A} (ran : expandPredicateTree s tree context calldata = .ok expanded)
    {pred : Predicate A} (leaf : pred ∈ tree.leaves) :
    (∃ code, expandCode s pred = .ok code) ∧
      ∀ param ∈ pred.params, ∃ value, expandParam s context calldata pred param = .ok value := by
  obtain ⟨q,expandedHere⟩ := ExpressionTree.tryMap_ok ran pred leaf
  obtain ⟨code,coded,rest⟩ := bind_ok.mp expandedHere
  obtain ⟨params,mapped,_⟩ := bind_ok.mp rest
  exact ⟨⟨code,coded⟩,fun param member => mapM_each mapped member⟩

theorem expanded_refs {tree : PredicateTree A} {context : PredicateContext A} {calldata : Calldata}
    {expanded : ExpandedTree A} (ran : expandPredicateTree s tree context calldata = .ok expanded) :
    ∀ r ∈ PredicateTree.refs tree, s r ≠ none := by
  intro r member absent
  obtain ⟨pred,leaf,named⟩ := List.mem_flatMap.mp member
  obtain ⟨⟨code,coded⟩,params⟩ := expanded_leaf ran leaf
  rcases List.mem_append.mp named with inParams | inCode
  · obtain ⟨param,inside,here⟩ := List.mem_flatMap.mp inParams
    obtain ⟨value,looked⟩ := params param inside
    cases param with
    | accountRef addr =>
        obtain rfl := List.mem_singleton.mp here
        simp [expandParam,absent] at looked
    | inline | proposalRef | calldataRef => simp [Param.refs] at here
  · cases kind : pred.code with
    | inline wasm => simp [kind,Code.refs] at inCode
    | accountRef addr entrypoint =>
        rw [kind] at inCode
        obtain rfl := List.mem_singleton.mp inCode
        simp [expandCode,kind,absent] at coded

end Collect

end

namespace Execution
open Collect
variable {rt : Runtime} {sch : Scheduler} {tx : Transaction} {s t cache : View}

-- Execution is a function of what the state holds on the footprint.
theorem execute_frame (same : ∀ a ∈ footprint tx s, s a = t a) :
    execute rt sch tx s cache = execute rt sch tx t cache := by
  have atTouched : ∀ a ∈ touched tx, s a = t a := fun a member =>
    same a (List.mem_append_left _ (List.mem_append_left _ member))
  have atAccounts : ∀ a ∈ touched tx, ∀ r ∈ accountRefs s a, s r = t r := fun a member r named =>
    same r (List.mem_append_left _ (List.mem_append_right _ (List.mem_flatMap.mpr ⟨a,member,named⟩)))
  have atIntents : ∀ intent ∈ tx.intents, ∀ r ∈ PredicateTree.refs intent.expectations, s r = t r :=
    fun intent member r named => same r (List.mem_append_right _ (List.mem_flatMap.mpr ⟨intent,member,named⟩))
  have atKeys : ∀ a ∈ tx.proposals.toList.map Prod.fst, s a = t a := fun a key => atTouched a (key_touched key)
  have accounts := fun context => accountsPredicates_congr context atTouched atAccounts
  have intents := fun context => intentsPredicates_congr context atIntents
  simp only [execute,outputs_congr atKeys,predicateContext_congr atKeys,accounts,intents]

def Declared (tx : Transaction) (s : View) (a : Address) : Prop :=
  a ∈ (TransactionRefs.new tx s).reads ∨ a ∈ (TransactionRefs.new tx s).writes

-- `TransactionRefs::new` does not list the ancestors themselves, and lists what
-- their predicates name only below an account that exists.
def Covered (tx : Transaction) (s : View) : Prop :=
  ∀ addr ∈ tx.proposals.toList.map Prod.fst, ∀ up ∈ addr.ancestors,
    Declared tx s up ∧ ∀ r ∈ accountRefs s up, Declared tx s r

theorem declared_iff {a : Address} : Declared tx s a ↔ a ∈ tx.proposals.toList.map Prod.fst ∨
    (∃ addr ∈ tx.proposals.toList.map Prod.fst, s addr ≠ none ∧
      ∃ up ∈ addr :: addr.ancestors, a ∈ accountRefs s up) ∨
    ∃ intent ∈ tx.intents, a ∈ PredicateTree.refs intent.expectations := by
  rw [Declared,TransactionRefs.mem_reads,TransactionRefs.mem_writes]
  simp only [ancestors_checked]
  by_cases key : a ∈ tx.proposals.toList.map Prod.fst
  · simp only [key,not_true_eq_false,false_and,or_true,true_or]
  · simp only [key,not_false_eq_true,true_and,or_false,false_or]

theorem covered_footprint (covered : Covered tx s) : ∀ a ∈ footprint tx s, Declared tx s a := by
  intro a member
  rcases List.mem_append.mp member with inside | named
  · rcases List.mem_append.mp inside with touchedHere | inTrees
    · obtain ⟨addr,key,path⟩ := List.mem_flatMap.mp touchedHere
      rcases List.mem_cons.mp path with rfl | above
      · exact declared_iff.mpr (.inl key)
      · exact (covered addr key a above).1
    · obtain ⟨up,touchedHere,named⟩ := List.mem_flatMap.mp inTrees
      obtain ⟨addr,key,path⟩ := List.mem_flatMap.mp touchedHere
      rcases List.mem_cons.mp path with rfl | above
      · have present : s up ≠ none := by
          intro absent
          simp [accountRefs,absent] at named
        exact declared_iff.mpr (.inr (.inl ⟨up,key,present,up,by simp,named⟩))
      · exact (covered addr key up above).2 a named
  · exact declared_iff.mpr (.inr (.inr (List.mem_flatMap.mp named)))

def unproposed (a : Address) : Account := ⟨[],.id ⟨.inline [],[.proposalRef a]⟩⟩

theorem unproposed_fails {a : Address} {diff : StateDiff} (inside : a ∈ touched tx)
    (outside : a ∉ tx.proposals.toList.map Prod.fst) (found : t a = some (unproposed a)) :
    execute rt sch tx t cache ≠ .ok diff := by
  intro succeeded
  obtain ⟨_,context,accounts,intents,gathered,asked,_,_⟩ := execute_ok.mp succeeded
  obtain ⟨tree,expanded⟩ := accountsPredicates_expands asked inside found
  have leaf : (⟨.inline [],[.proposalRef a]⟩ : Predicate) ∈ (unproposed a).predicates.leaves := by
    simp [unproposed,ExpressionTree.leaves]
  obtain ⟨value,looked⟩ := (expanded_leaf expanded leaf).2 (.proposalRef a) (by simp)
  simp [expandParam,(context_steps gathered).2 a outside] at looked

theorem missing_ref_fails {up r : Address} {acc : Account} {diff : StateDiff} (inside : up ∈ touched tx)
    (found : t up = some acc) (named : r ∈ PredicateTree.refs acc.predicates) (absent : t r = none) :
    execute rt sch tx t cache ≠ .ok diff := by
  intro succeeded
  obtain ⟨_,context,accounts,intents,_,asked,_,_⟩ := execute_ok.mp succeeded
  obtain ⟨tree,expanded⟩ := accountsPredicates_expands asked inside found
  exact expanded_refs expanded r named absent

-- An undeclared address that execution looks up can be changed so that a
-- transaction which succeeded fails.
theorem uncovered_differs (rt : Runtime) (sch : Scheduler) (cache : View) (diff : StateDiff)
    (uncovered : ¬ Covered tx s) :
    ∃ t, (∀ a, Declared tx s a → s a = t a) ∧ execute rt sch tx t cache ≠ .ok diff := by
  simp only [Covered,not_forall] at uncovered
  obtain ⟨addr,key,up,above,uncovered⟩ := uncovered
  have inside : up ∈ touched tx := List.mem_flatMap.mpr ⟨addr,key,List.mem_cons_of_mem _ above⟩
  by_cases declared : Declared tx s up
  · obtain ⟨r,named,hidden⟩ : ∃ r ∈ accountRefs s up, ¬ Declared tx s r := by
      by_contra none
      exact uncovered ⟨declared,fun r named => by_contra fun hidden => none ⟨r,named,hidden⟩⟩
    have other : up ≠ r := fun same => hidden (same ▸ declared)
    refine ⟨Function.update s r none,?_,?_⟩
    · intro a declaredHere
      have apart : a ≠ r := fun same => hidden (same ▸ declaredHere)
      rw [Function.update_of_ne apart]
    · cases found : s up with
      | none => simp [accountRefs,found] at named
      | some acc =>
          have kept : Function.update s r none up = some acc := by rw [Function.update_of_ne other,found]
          exact missing_ref_fails inside kept (by simpa [accountRefs,found] using named)
            (Function.update_self r none s)
  · refine ⟨Function.update s up (some (unproposed up)),?_,?_⟩
    · intro a declaredHere
      have apart : a ≠ up := fun same => declared (same ▸ declaredHere)
      rw [Function.update_of_ne apart]
    · exact unproposed_fails inside (fun proposed => declared (declared_iff.mpr (.inl proposed)))
        (Function.update_self _ _ s)

theorem declared_refs_cover_execution (rt : Runtime) (sch : Scheduler) (tx : Transaction) (s cache : View) :
    (Covered tx s → ∀ t, (∀ a, Declared tx s a → s a = t a) →
      execute rt sch tx s cache = execute rt sch tx t cache) ∧
    ∀ diff, execute rt sch tx s cache = .ok diff →
      ((∀ t, (∀ a, Declared tx s a → s a = t a) →
        (execute rt sch tx s cache).toOption = (execute rt sch tx t cache).toOption) ↔ Covered tx s) := by
  have enough : Covered tx s → ∀ t, (∀ a, Declared tx s a → s a = t a) →
      execute rt sch tx s cache = execute rt sch tx t cache := fun covered t agree =>
    execute_frame fun a member => agree a (covered_footprint covered a member)
  refine ⟨enough,fun diff succeeded => ⟨?_,fun covered t agree => by rw [enough covered t agree]⟩⟩
  intro same
  by_contra uncovered
  obtain ⟨t,agree,differs⟩ := uncovered_differs rt sch cache diff uncovered
  have equal := same t agree
  rw [succeeded] at equal
  cases result : execute rt sch tx t cache with
  | error e => simp [result,Except.toOption] at equal
  | ok other =>
      simp only [result,Except.toOption,Option.some.injEq] at equal
      exact differs (equal ▸ result)

namespace FootprintExample
def parent : Address := ⟨"/a",by decide⟩
def child : Address := ⟨"/a/b",by decide⟩
def account : Account := ⟨[1],.id ⟨.inline acceptWasm,[]⟩⟩
def creates (addr : Address) : Transaction :=
  .new [] ((∅ : BTreeMap Address AccountChange).insert addr (.createAccount account))
def created (addr : Address) : StateDiff := (StateDiff.set default addr account).1
def nothing : View := fun _ => none
def settled : View := fun addr => if addr = parent then some account else none
def nests : Transaction :=
  .new [] (((∅ : BTreeMap Address AccountChange).insert parent (.replaceState [2])).insert child (.createAccount account))
def nested : StateDiff := (StateDiff.set (StateDiff.set default parent ⟨[2],account.predicates⟩).1 child account).1
def sealed : Account := ⟨[],.id ⟨.inline [],[]⟩⟩
def guarded : View := fun addr => if addr = parent then some sealed else none
end FootprintExample

theorem nested_account_covered :
    Covered FootprintExample.nests FootprintExample.settled ∧
    execute acceptHost.runtime .inOrder FootprintExample.nests FootprintExample.settled FootprintExample.nothing =
      .ok FootprintExample.nested ∧
    ∀ t : View, t FootprintExample.parent = some FootprintExample.account → t FootprintExample.child = none →
      execute acceptHost.runtime .inOrder FootprintExample.nests FootprintExample.settled FootprintExample.nothing =
      execute acceptHost.runtime .inOrder FootprintExample.nests t FootprintExample.nothing := by
  have keys : FootprintExample.nests.proposals.toList.map Prod.fst = [FootprintExample.parent,FootprintExample.child] := by
    decide
  have refs : TransactionRefs.new FootprintExample.nests FootprintExample.settled =
      ⟨∅,((∅ : BTreeSet Address).insert FootprintExample.parent).insert FootprintExample.child⟩ := by decide
  have covered : Covered FootprintExample.nests FootprintExample.settled := by
    intro addr key up above
    rw [keys] at key
    simp only [List.mem_cons,List.not_mem_nil,or_false] at key
    have roots : FootprintExample.parent.ancestors = [] ∧ FootprintExample.child.ancestors = [FootprintExample.parent] := by
      decide
    obtain rfl | rfl := key
    · rw [roots.1] at above
      cases above
    · rw [roots.2,List.mem_singleton] at above
      subst above
      have named : accountRefs FootprintExample.settled FootprintExample.parent = [] := by decide
      rw [named,Declared,refs]
      exact ⟨.inr (by decide),List.forall_mem_nil _⟩
  refine ⟨covered,by decide,fun t there absent => ?_⟩
  refine (declared_refs_cover_execution acceptHost.runtime .inOrder _ _ _).1 covered t ?_
  intro a declared
  rw [Declared,refs] at declared
  have key : FootprintExample.child = a ∨ FootprintExample.parent = a := by simpa using declared
  obtain rfl | rfl := key
  · rw [absent]
    decide
  · rw [there]
    decide

theorem undeclared_ancestor_decides :
    (∀ a, Declared (FootprintExample.creates FootprintExample.child) FootprintExample.nothing a →
      FootprintExample.nothing a = FootprintExample.guarded a) ∧
    execute acceptHost.runtime .inOrder (FootprintExample.creates FootprintExample.child) FootprintExample.nothing
      FootprintExample.nothing = .ok (FootprintExample.created FootprintExample.child) ∧
    execute acceptHost.runtime .inOrder (FootprintExample.creates FootprintExample.child) FootprintExample.guarded
      FootprintExample.nothing = .error (.crash (.compile "Validation error: unexpected end of file")) := by
  refine ⟨?_,by decide,by decide⟩
  intro a declared
  have refs : TransactionRefs.new (FootprintExample.creates FootprintExample.child) FootprintExample.nothing =
      ⟨∅,(∅ : BTreeSet Address).insert FootprintExample.child⟩ := by decide
  rw [Declared,refs] at declared
  obtain rfl : FootprintExample.child = a := by simpa using declared
  decide

end Execution
end AnomaAlpha
