import AnomaAlpha.State
import AnomaAlpha.Transaction
import AnomaAlpha.Lib.Fallible

set_option linter.unusedSectionVars false

namespace AnomaAlpha

inductive CollectError (A : Type := Address) where
  | accountAlreadyExists (address : A)
  | accountDoesNotExist (address : A)
  | codeDoesNotExist (address : A) (predicate : Predicate A)
  | accountRefDoesNotExist (address : A) (predicate : Predicate A)
  | proposalDoesNotExist (address : A) (predicate : Predicate A)
  | calldataNotFound (key : String) (predicate : Predicate A)
  deriving DecidableEq

-- How a function ends without a result: by its own error, or by an iteration over
-- ancestors that fails.
inductive Stop (ε : Type) where
  | error (error : ε)
  | halt (reason : Halt)
  deriving DecidableEq

def Stop.map (f : ε → δ) : Stop ε → Stop δ
  | .error e => .error (f e)
  | .halt reason => .halt reason

def Stop.settle : Except (Stop ε) α → Except Halt (Except ε α)
  | .ok result => .ok (.ok result)
  | .error (.error e) => .ok (.error e)
  | .error (.halt reason) => .error reason

-- `for addr in addr.ancestors()`.
def forAncestors {A : Type} [AddressSpace A] (body : σ → A → Except ε σ) (s : σ) (start : A) : Except (Stop ε) σ := do
  let s ← ((AddressSpace.ancestors start).foldlM body s).mapError .error
  match AddressSpace.halt start with
  | some reason => throw (.halt reason)
  | none => return s

namespace Collect
variable {A : Type} [DecidableEq A] [Ord A] [Std.TransOrd A] [Std.LawfulEqOrd A]
  [AddressSpace A]

def outputStep (state : View A) (output : StateDiff A) (proposal : A × AccountChange A) :
    Except (CollectError A) (StateDiff A) :=
  let (addr,change) := proposal
  match change with
  | .createAccount acc => match state addr with
    | some _ => .error (.accountAlreadyExists addr)
    | none => .ok (output.set addr acc).1
  | .replaceState s => match state addr with
    | some acc => .ok (output.set addr ⟨s,acc.predicates⟩).1
    | none => .error (.accountDoesNotExist addr)
  | .replacePredicates p => match state addr with
    | some acc => .ok (output.set addr ⟨acc.state,p⟩).1
    | none => .error (.accountDoesNotExist addr)
  | .deleteAccount => match state addr with
    | none => .error (.accountDoesNotExist addr)
    | some _ => .ok (output.remove addr).1

def outputs (state : View A) (tx : Transaction A) : Except (CollectError A) (StateDiff A) :=
  tx.proposals.toList.foldlM (outputStep state) default

def expandAccountChange (addr : A) (state : View A) (change : AccountChange A) :
    Except (CollectError A) (ExpandedAccountChange A) :=
  match change with
  | .createAccount acc => .ok (.createAccount acc)
  | .replaceState s => match state addr with
    | some acc => .ok (.replaceState acc.state s)
    | none => .error (.accountDoesNotExist addr)
  | .replacePredicates p => match state addr with
    | some acc => .ok (.replacePredicates acc.predicates p)
    | none => .error (.accountDoesNotExist addr)
  | .deleteAccount => match state addr with
    | some acc => .ok (.deleteAccount acc)
    | none => .error (.accountDoesNotExist addr)

def contextStep (state : View A) (proposals : BTreeMap A (ExpandedAccountChange A))
    (proposal : A × AccountChange A) : Except (CollectError A) (BTreeMap A (ExpandedAccountChange A)) := do
  let expanded ← expandAccountChange proposal.1 state proposal.2
  return proposals.insert proposal.1 expanded

-- `collect()` into a map keeps the last of two intents that share a hash.
def predicateContext (w : Hashing A) (state : View A) (tx : Transaction A) : Except (CollectError A) (PredicateContext A) := do
  let proposals ← tx.proposals.toList.foldlM (contextStep state) ∅
  return ⟨Std.ExtTreeMap.ofList (tx.intents.map fun intent => ((intent.hash w).1,intent.calldata)) compare,proposals⟩

def expandCode (state : View A) (pred : Predicate A) : Except (CollectError A) ExpandedCode :=
  match pred.code with
  | .inline wasm => .ok ⟨wasm,"invoke"⟩
  | .accountRef addr entrypoint => match state addr with
    | some acc => .ok ⟨acc.state,entrypoint⟩
    | none => .error (.codeDoesNotExist addr pred)

def expandParam (state : View A) (context : PredicateContext A) (calldata : Calldata) (pred : Predicate A) :
    Param A → Except (CollectError A) (ExpandedParam A)
  | .inline v => .ok (.inline v)
  | .accountRef addr => match state addr with
    | some acc => .ok (.accountRef addr acc.state)
    | none => .error (.accountRefDoesNotExist addr pred)
  | .proposalRef addr => match context.proposals[addr]? with
    | some change => .ok (.proposalRef addr change)
    | none => .error (.proposalDoesNotExist addr pred)
  | .calldataRef key => match calldata[key]? with
    | some val => .ok (.calldataRef key val)
    | none => .error (.calldataNotFound key pred)

def expandPredicate (state : View A) (context : PredicateContext A) (calldata : Calldata) (pred : Predicate A) :
    Except (CollectError A) (ExpandedPredicate A) := do
  let code ← expandCode state pred
  let params ← pred.params.mapM (expandParam state context calldata pred)
  return ⟨code,params⟩

def expandPredicateTree (state : View A) (tree : PredicateTree A) (context : PredicateContext A)
    (calldata : Calldata) : Except (CollectError A) (ExpandedTree A) :=
  tree.tryMap (expandPredicate state context calldata)

def extend (prev current : Calldata) : Calldata :=
  current.toList.foldl (fun m entry => m.insert entry.1 entry.2) prev

-- The calldata of all intents in one map; on overlapping keys the intent with
-- the largest hash decides.
def boundCalldata (context : PredicateContext A) : Calldata :=
  match context.calldata.toList.map Prod.snd with
  | [] => ∅
  | first :: rest => rest.foldl extend first

def touched (tx : Transaction A) : List A :=
  (tx.proposals.toList.map Prod.fst).flatMap fun addr => addr :: AddressSpace.ancestors addr

-- One round of either loop of `accounts_predicates`. `output` is the hash map
-- as the list of its entries in order of insertion.
def accountStep (state : View A) (context : PredicateContext A) (calldata : Calldata)
    (output : List (A × ExpandedTree A)) (addr : A) : Except (CollectError A) (List (A × ExpandedTree A)) :=
  if output.any (·.1 == addr) then .ok output
  else match state addr with
    | none => .ok output
    | some acc => do
      let tree ← expandPredicateTree state acc.predicates context calldata
      return output ++ [(addr,tree)]

def accountsPredicates (state : View A) (context : PredicateContext A) (tx : Transaction A) :
    Except (CollectError A) (List (ExpandedTree A)) := do
  let output ← (touched tx).foldlM (accountStep state context (boundCalldata context)) []
  return output.map Prod.snd

-- The same on addresses that need not have been checked.
def accountsPredicatesOrHalt (state : View A) (context : PredicateContext A) (tx : Transaction A) :
    Except (Stop (CollectError A)) (List (ExpandedTree A)) := do
  let output ← (tx.proposals.toList.map Prod.fst).foldlM (fun output addr => do
    let output ← (accountStep state context (boundCalldata context) output addr).mapError .error
    forAncestors (accountStep state context (boundCalldata context)) output addr) []
  return output.map Prod.snd

def intentsPredicates (state : View A) (context : PredicateContext A) (tx : Transaction A) :
    Except (CollectError A) (List (ExpandedTree A)) :=
  tx.intents.mapM fun intent => expandPredicateTree state intent.expectations context intent.calldata

open OrderedMap Fallible StateDiff

theorem mem_touched {tx : Transaction A} {up : A} : up ∈ touched tx ↔
    ∃ addr change, tx.proposals[addr]? = some change ∧ up ∈ addr :: AddressSpace.ancestors addr := by
  simp only [touched,List.mem_flatMap,mem_keys_iff]
  constructor
  · intro given
    obtain ⟨addr,⟨change,proposed⟩,path⟩ := given
    exact ⟨addr,change,proposed,path⟩
  · intro given
    obtain ⟨addr,change,proposed,path⟩ := given
    exact ⟨addr,⟨change,proposed⟩,path⟩

theorem key_touched {tx : Transaction A} (key : addr ∈ tx.proposals.toList.map Prod.fst) : addr ∈ touched tx :=
  List.mem_flatMap.mpr ⟨addr,key,by simp⟩

-- What a change makes of the account at its address; `none` when it does not
-- fit the account that is there.
def effect : AccountChange A → Option (Account A) → Option (Option (Account A))
  | .createAccount acc,none => some (some acc)
  | .replaceState s,some acc => some (some ⟨s,acc.predicates⟩)
  | .replacePredicates p,some acc => some (some ⟨acc.state,p⟩)
  | .deleteAccount,some _ => some none
  | _,_ => none

def write (output : StateDiff A) (addr : A) : Option (Account A) → StateDiff A
  | some acc => (output.set addr acc).1
  | none => (output.remove addr).1

theorem write_patch (output : StateDiff A) (addr : A) (result : Option (Account A)) (a : A) :
    (write output addr result).patch a = if addr = a then some result else output.patch a := by
  cases result <;> by_cases same : addr = a <;> simp [write,StateDiff.set,StateDiff.remove,patch,same]

theorem write_reachable {output : StateDiff A} {addr : A} {result : Option (Account A)} (reached : Reachable output) : Reachable (write output addr result) := by
  cases result with
  | none => exact .remove reached
  | some acc => exact .set reached

theorem outputStep_ok {state : View A} {output next : StateDiff A} {addr : A} {change : AccountChange A}
    (stepped : outputStep state output (addr,change) = .ok next) :
    ∃ result, effect change (state addr) = some result ∧ next = write output addr result := by
  cases change <;> cases found : state addr <;> simp only [outputStep,found] at stepped <;> cases stepped
  all_goals exact ⟨_,rfl,rfl⟩

theorem outputs_reachable {state : View A} {tx : Transaction A} {diff : StateDiff A}
    (ran : outputs state tx = .ok diff) : Reachable diff := by
  refine foldlM_invariant Reachable ?_ .default ran
  intro d entry next _ reached stepped
  obtain ⟨result,_,rfl⟩ := outputStep_ok stepped
  exact write_reachable reached

theorem outputs_steps {state : View A} {tx : Transaction A} {diff : StateDiff A} (ran : outputs state tx = .ok diff) :
    (∀ entry ∈ tx.proposals.toList, ∃ result, effect entry.2 (state entry.1) = some result ∧
      diff.patch entry.1 = some result) ∧
    ∀ a, a ∉ tx.proposals.toList.map Prod.fst → diff.patch a = none := by
  have steps := foldlM_writes (fun d => patch d) (fun addr change => effect change (state addr))
    (fun d addr change next stepped => by
      obtain ⟨result,fits,rfl⟩ := outputStep_ok stepped
      exact ⟨result,fits,write_patch d addr result⟩) (nodup_keys tx.proposals) ran
  refine ⟨steps.1,?_⟩
  intro a outside
  rw [steps.2 a outside,patch_default]
  rfl

theorem outputs_fits {state : View A} {tx : Transaction A} {diff : StateDiff A} (ran : outputs state tx = .ok diff)
    (proposed : tx.proposals[a]? = some change) :
    ∃ result, effect change (state a) = some result ∧ diff.patch a = some result :=
  (outputs_steps ran).1 (a,change) (Std.ExtTreeMap.mem_toList_iff_getElem?_eq_some.mpr proposed)

theorem outputs_silent {state : View A} {tx : Transaction A} {diff : StateDiff A} (ran : outputs state tx = .ok diff)
    (proposed : tx.proposals[a]? = none) : diff.patch a = none := by
  apply (outputs_steps ran).2 a
  rw [mem_keys_iff,proposed]
  simp

theorem outputs_writes {state : View A} {tx : Transaction A} {diff : StateDiff A} (ran : outputs state tx = .ok diff)
    (a : A) : diff.patch a = none ↔ tx.proposals[a]? = none := by
  cases proposed : tx.proposals[a]? with
  | none => simp [outputs_silent ran proposed]
  | some change =>
      obtain ⟨result,_,held⟩ := outputs_fits ran proposed
      simp [held]

theorem context_steps {w : Hashing A} {state : View A} {tx : Transaction A} {context : PredicateContext A}
    (ran : predicateContext w state tx = .ok context) :
    (∀ entry ∈ tx.proposals.toList, ∃ expanded,
      (expandAccountChange entry.1 state entry.2).toOption = some expanded ∧
      context.proposals[entry.1]? = some expanded) ∧
    ∀ a, a ∉ tx.proposals.toList.map Prod.fst → context.proposals[a]? = none := by
  obtain ⟨proposals,folded,finished⟩ := bind_ok.mp ran
  obtain rfl := Except.ok.inj finished
  have steps := foldlM_writes (fun (m : BTreeMap A (ExpandedAccountChange A)) a => m[a]?)
    (fun addr change => (expandAccountChange addr state change).toOption)
    (fun m addr change next stepped => by
      obtain ⟨expanded,fits,inserted⟩ := bind_ok.mp stepped
      obtain rfl := Except.ok.inj inserted
      exact ⟨expanded,by simp [fits,Except.toOption],fun a => get_insert m addr a expanded⟩)
    (nodup_keys tx.proposals) folded
  refine ⟨steps.1,fun a outside => (steps.2 a outside).trans ?_⟩
  exact Std.ExtTreeMap.getElem?_empty

theorem context_proposal {w : Hashing A} {state : View A} {tx : Transaction A} {context : PredicateContext A}
    (ran : predicateContext w state tx = .ok context) (proposed : tx.proposals[a]? = some change) :
    ∃ expanded, expandAccountChange a state change = .ok expanded ∧ context.proposals[a]? = some expanded := by
  obtain ⟨expanded,fits,held⟩ := (context_steps ran).1 (a,change)
    (Std.ExtTreeMap.mem_toList_iff_getElem?_eq_some.mpr proposed)
  refine ⟨expanded,?_,held⟩
  cases tried : expandAccountChange a state change with
  | error e => simp [tried,Except.toOption] at fits
  | ok value => simpa [tried,Except.toOption] using fits

-- What one round leaves in the map: the entry of an existing account is its
-- expanded tree, whether this round inserted it or an earlier one did.
def Gathered (state : View A) (context : PredicateContext A) (output : List (A × ExpandedTree A)) : Prop :=
  ∀ entry ∈ output, ∃ acc, state entry.1 = some acc ∧
    expandPredicateTree state acc.predicates context (boundCalldata context) = .ok entry.2

theorem accountStep_cases {state : View A} {context : PredicateContext A} {calldata : Calldata}
    {output next : List (A × ExpandedTree A)} {addr : A}
    (stepped : accountStep state context calldata output addr = .ok next) :
    (next = output ∧ ∃ tree, (addr,tree) ∈ output) ∨ (next = output ∧ state addr = none) ∨
    ∃ acc tree, state addr = some acc ∧ expandPredicateTree state acc.predicates context calldata = .ok tree ∧
      next = output ++ [(addr,tree)] := by
  unfold accountStep at stepped
  split at stepped
  · rename_i present
    obtain ⟨⟨key,tree⟩,member,same⟩ := List.any_eq_true.mp present
    obtain rfl : key = addr := by simpa using same
    exact .inl ⟨(Except.ok.inj stepped).symm,tree,member⟩
  · split at stepped
    · rename_i absent
      exact .inr (.inl ⟨(Except.ok.inj stepped).symm,absent⟩)
    · rename_i acc found
      obtain ⟨tree,expanded,finished⟩ := bind_ok.mp stepped
      exact .inr (.inr ⟨acc,tree,found,expanded,(Except.ok.inj finished).symm⟩)

theorem accounts_fold {state : View A} {context : PredicateContext A} {l : List A}
    {output result : List (A × ExpandedTree A)} (gathered : Gathered state context output)
    (ran : l.foldlM (accountStep state context (boundCalldata context)) output = .ok result) :
    Gathered state context result ∧ (∀ entry ∈ output, entry ∈ result) ∧
    (∀ entry ∈ result, entry ∈ output ∨ entry.1 ∈ l) ∧
    ∀ addr ∈ l, ∀ acc, state addr = some acc → ∃ tree, (addr,tree) ∈ result := by
  induction l generalizing output with
  | nil =>
      obtain rfl := foldlM_nil_ok.mp ran
      exact ⟨gathered,fun _ member => member,fun _ member => .inl member,by simp⟩
  | cons addr l ih =>
      obtain ⟨middle,first,rest⟩ := foldlM_cons_ok.mp ran
      rcases accountStep_cases first with ⟨rfl,tree,member⟩ | ⟨rfl,absent⟩ | ⟨acc,tree,found,expanded,rfl⟩
      · obtain ⟨all,keeps,only,covers⟩ := ih gathered rest
        refine ⟨all,keeps,fun entry inside => (only entry inside).imp_right (List.mem_cons_of_mem _),?_⟩
        intro a inside acc found
        rcases List.mem_cons.mp inside with rfl | later
        · exact ⟨tree,keeps _ member⟩
        · exact covers a later acc found
      · obtain ⟨all,keeps,only,covers⟩ := ih gathered rest
        refine ⟨all,keeps,fun entry inside => (only entry inside).imp_right (List.mem_cons_of_mem _),?_⟩
        intro a inside acc found
        rcases List.mem_cons.mp inside with rfl | later
        · rw [absent] at found; cases found
        · exact covers a later acc found
      · have wider : Gathered state context (output ++ [(addr,tree)]) := by
          intro entry member
          rcases List.mem_append.mp member with old | new
          · exact gathered entry old
          · obtain rfl := List.mem_singleton.mp new
            exact ⟨acc,found,expanded⟩
        obtain ⟨all,keeps,only,covers⟩ := ih wider rest
        refine ⟨all,fun entry member => keeps entry (List.mem_append_left _ member),?_,?_⟩
        · intro entry member
          rcases only entry member with inside | later
          · rcases List.mem_append.mp inside with old | new
            · exact .inl old
            · obtain rfl := List.mem_singleton.mp new
              exact .inr (by simp)
          · exact .inr (List.mem_cons_of_mem _ later)
        · intro a inside other present
          rcases List.mem_cons.mp inside with rfl | later
          · exact ⟨tree,keeps _ (by simp)⟩
          · exact covers a later other present

-- No existing account among the proposals and their ancestors is forgotten, and
-- nothing else is asked.
theorem accountsPredicates_mem {state : View A} {context : PredicateContext A} {tx : Transaction A}
    {trees : List (ExpandedTree A)} (ran : accountsPredicates state context tx = .ok trees) (tree : ExpandedTree A) :
    tree ∈ trees ↔ ∃ addr ∈ touched tx, ∃ acc, state addr = some acc ∧
      expandPredicateTree state acc.predicates context (boundCalldata context) = .ok tree := by
  obtain ⟨output,folded,finished⟩ := bind_ok.mp ran
  obtain rfl := Except.ok.inj finished
  obtain ⟨all,_,only,covers⟩ := accounts_fold (by simp [Gathered]) folded
  constructor
  · intro member
    obtain ⟨⟨addr,_⟩,inside,rfl⟩ := List.mem_map.mp member
    obtain ⟨acc,found,expanded⟩ := all _ inside
    rcases only _ inside with old | touchedHere
    · cases old
    · exact ⟨addr,touchedHere,acc,found,expanded⟩
  · intro given
    obtain ⟨addr,touchedHere,acc,found,expanded⟩ := given
    obtain ⟨other,inside⟩ := covers addr touchedHere acc found
    obtain ⟨acc',found',expanded'⟩ := all _ inside
    obtain rfl : acc = acc' := Option.some.inj (found.symm.trans found')
    obtain rfl : tree = other := Except.ok.inj (expanded.symm.trans expanded')
    exact List.mem_map.mpr ⟨_,inside,rfl⟩

theorem accounts_fold_expands {state : View A} {context : PredicateContext A} {l : List A}
    {result : List (A × ExpandedTree A)} (ran : l.foldlM (accountStep state context (boundCalldata context)) [] = .ok result)
    (inside : addr ∈ l) (found : state addr = some acc) :
    ∃ tree, expandPredicateTree state acc.predicates context (boundCalldata context) = .ok tree := by
  obtain ⟨all,_,_,covers⟩ := accounts_fold (by simp [Gathered]) ran
  obtain ⟨tree,member⟩ := covers addr inside acc found
  obtain ⟨acc',found',expanded⟩ := all _ member
  obtain rfl : acc = acc' := Option.some.inj (found.symm.trans found')
  exact ⟨tree,expanded⟩

theorem accountsPredicates_expands {state : View A} {context : PredicateContext A} {tx : Transaction A}
    {trees : List (ExpandedTree A)} (ran : accountsPredicates state context tx = .ok trees)
    (inside : addr ∈ touched tx) (found : state addr = some acc) :
    ∃ tree, expandPredicateTree state acc.predicates context (boundCalldata context) = .ok tree := by
  obtain ⟨output,folded,_⟩ := bind_ok.mp ran
  exact accounts_fold_expands folded inside found

theorem accounts_fold_total {state : View A} {context : PredicateContext A} {l : List A} (output : List (A × ExpandedTree A))
    (expands : ∀ addr ∈ l, ∀ acc, state addr = some acc →
      ∃ tree, expandPredicateTree state acc.predicates context (boundCalldata context) = .ok tree) :
    ∃ result, l.foldlM (accountStep state context (boundCalldata context)) output = .ok result := by
  induction l generalizing output with
  | nil => exact ⟨output,rfl⟩
  | cons addr l ih =>
      have stepped : ∃ next, accountStep state context (boundCalldata context) output addr = .ok next := by
        unfold accountStep
        split
        · exact ⟨_,rfl⟩
        · cases found : state addr with
          | none => exact ⟨_,rfl⟩
          | some acc =>
              obtain ⟨tree,expanded⟩ := expands addr (by simp) acc found
              exact ⟨_,by simp [expanded,bind,Except.bind,pure,Except.pure]; rfl⟩
      obtain ⟨next,first⟩ := stepped
      obtain ⟨result,rest⟩ := ih next fun a member => expands a (List.mem_cons_of_mem _ member)
      exact ⟨result,foldlM_cons_ok.mpr ⟨next,first,rest⟩⟩

theorem accountsPredicates_total {state : View A} {context : PredicateContext A} {tx : Transaction A}
    (expands : ∀ addr ∈ touched tx, ∀ acc, state addr = some acc →
      ∃ tree, expandPredicateTree state acc.predicates context (boundCalldata context) = .ok tree) :
    ∃ trees, accountsPredicates state context tx = .ok trees := by
  obtain ⟨output,folded⟩ := accounts_fold_total [] expands
  exact ⟨_,bind_ok.mpr ⟨output,folded,rfl⟩⟩

def Ends (tx : Transaction A) : Prop := ∀ addr ∈ tx.proposals.toList.map Prod.fst, AddressSpace.halt addr = none

theorem all_end (txs : List Transaction) : ∀ tx ∈ txs, Ends tx := fun _ _ _ _ => rfl

theorem forAncestors_ends {body : σ → A → Except ε σ} (s : σ) {start : A} (ends : AddressSpace.halt start = none) :
    forAncestors body s start = ((AddressSpace.ancestors start).foldlM body s).mapError .error := by
  unfold forAncestors
  rw [ends]
  cases (AddressSpace.ancestors start).foldlM body s <;> rfl

theorem forAncestors_halts {body : σ → A → Except ε σ} (s : σ) {start : A} (fails : AddressSpace.halt start = some reason) :
    forAncestors body s start =
      ((AddressSpace.ancestors start).foldlM body s).mapError Stop.error >>= fun _ => .error (.halt reason) := by
  unfold forAncestors
  rw [fails]
  rfl

def visit (body : σ → A → Except ε σ) (s : σ) (addr : A) : Except (Stop ε) σ := do
  let s ← (body s addr).mapError .error
  forAncestors body s addr

def upward (addr : A) : List A := addr :: AddressSpace.ancestors addr

theorem visit_ends {body : σ → A → Except ε σ} (s : σ) {addr : A} (ends : AddressSpace.halt addr = none) :
    visit body s addr = ((upward addr).foldlM body s).mapError .error := by
  unfold visit upward
  rw [List.foldlM_cons]
  cases body s addr with
  | error e => rfl
  | ok next => exact forAncestors_ends next ends

theorem visit_halts {body : σ → A → Except ε σ} (s : σ) {addr : A} (fails : AddressSpace.halt addr = some reason) :
    visit body s addr = ((upward addr).foldlM body s).mapError Stop.error >>= fun _ => .error (.halt reason) := by
  unfold visit upward
  rw [List.foldlM_cons]
  cases body s addr with
  | error e => rfl
  | ok next => exact forAncestors_halts next fails

theorem visits_end {body : σ → A → Except ε σ} (s : σ) {keys : List A}
    (ends : ∀ addr ∈ keys, AddressSpace.halt addr = none) :
    keys.foldlM (visit body) s = ((keys.flatMap upward).foldlM body s).mapError .error := by
  induction keys generalizing s with
  | nil => rfl
  | cons addr keys ih =>
      rw [List.foldlM_cons,List.flatMap_cons,List.foldlM_append,visit_ends s (ends addr (by simp))]
      cases (upward addr).foldlM body s with
      | error e => rfl
      | ok next => exact ih next fun other later => ends other (List.mem_cons_of_mem _ later)

theorem visits_halt {body : σ → A → Except ε σ} (s : σ) {front back : List A} {addr : A}
    (ends : ∀ addr ∈ front, AddressSpace.halt addr = none) (fails : AddressSpace.halt addr = some reason) :
    (front ++ addr :: back).foldlM (visit body) s =
      (((front ++ [addr]).flatMap upward).foldlM body s).mapError Stop.error >>= fun _ => .error (.halt reason) := by
  rw [List.foldlM_append,visits_end s ends,List.flatMap_append,List.foldlM_append]
  cases (front.flatMap upward).foldlM body s with
  | error e => rfl
  | ok next =>
      change (addr :: back).foldlM (visit body) next = _
      rw [List.foldlM_cons,visit_halts next fails,List.flatMap_singleton]
      change _ = ((upward addr).foldlM body next).mapError Stop.error >>= fun _ => .error (.halt reason)
      cases (upward addr).foldlM body next <;> rfl

theorem accountsPredicatesOrHalt_eq (state : View A) (context : PredicateContext A) (tx : Transaction A) :
    accountsPredicatesOrHalt state context tx = (do
      let output ← (tx.proposals.toList.map Prod.fst).foldlM (visit (accountStep state context (boundCalldata context))) []
      return output.map Prod.snd) := rfl

theorem accountsPredicates_ends (state : View A) (context : PredicateContext A) {tx : Transaction A} (ends : Ends tx) :
    accountsPredicatesOrHalt state context tx = (accountsPredicates state context tx).mapError .error := by
  rw [accountsPredicatesOrHalt_eq,visits_end [] ends]
  unfold accountsPredicates touched upward
  cases List.foldlM (accountStep state context (boundCalldata context)) [] _ <;> rfl

def Meets (state : View A) (context : PredicateContext A) (tx : Transaction A) : Prop :=
  ∃ front addr back, tx.proposals.toList.map Prod.fst = front ++ addr :: back ∧ AddressSpace.halt addr ≠ none ∧
    ∀ a ∈ (front ++ [addr]).flatMap upward, ∀ acc, state a = some acc →
      ∃ tree, expandPredicateTree state acc.predicates context (boundCalldata context) = .ok tree

theorem first_halt {keys : List A} (fails : ¬∀ addr ∈ keys, AddressSpace.halt addr = none) :
    ∃ front addr back reason, keys = front ++ addr :: back ∧ (∀ a ∈ front, AddressSpace.halt a = none) ∧
      AddressSpace.halt addr = some reason := by
  cases found : keys.find? fun addr => (AddressSpace.halt addr).isSome with
  | none =>
      refine (fails fun addr member => ?_).elim
      have ends := List.find?_eq_none.mp found addr member
      simpa using ends
  | some addr =>
      obtain ⟨here,front,back,parts,before⟩ := List.find?_eq_some_iff_append.mp found
      obtain ⟨reason,fails⟩ := Option.isSome_iff_exists.mp here
      exact ⟨front,addr,back,reason,parts,fun a member => by simpa using before a member,fails⟩

theorem first_front {front front' back back' : List A} {addr addr' : A} (same : front ++ addr :: back = front' ++ addr' :: back')
    (ends : ∀ a ∈ front, AddressSpace.halt a = none) (fails : AddressSpace.halt addr' ≠ none) :
    ∀ a ∈ front ++ [addr], a ∈ front' ++ [addr'] := by
  rcases List.append_eq_append_iff.mp same with ⟨middle,rfl,rest⟩ | ⟨middle,rfl,rest⟩
  · cases middle with
    | nil =>
        obtain ⟨rfl,_⟩ := List.cons.inj rest
        simp
    | cons first middle =>
        obtain ⟨rfl,_⟩ := List.cons.inj rest
        intro a member
        simp only [List.mem_append,List.mem_cons,List.not_mem_nil,or_false] at member ⊢
        tauto
  · cases middle with
    | nil =>
        obtain ⟨rfl,_⟩ := List.cons.inj rest
        simp
    | cons first middle =>
        obtain ⟨rfl,_⟩ := List.cons.inj rest
        exact absurd (ends _ (by simp)) fails

theorem accountsPredicatesOrHalt_cases (state : View A) (context : PredicateContext A) (tx : Transaction A) :
    (Meets state context tx ∧ ∃ reason, accountsPredicatesOrHalt state context tx = .error (.halt reason)) ∨
    (¬Meets state context tx ∧
      accountsPredicatesOrHalt state context tx = (accountsPredicates state context tx).mapError .error) := by
  by_cases ends : Ends tx
  · refine .inr ⟨?_,accountsPredicates_ends state context ends⟩
    intro ⟨front,addr,back,parts,fails,_⟩
    exact fails (ends addr (by rw [parts]; simp))
  · obtain ⟨front,addr,back,reason,parts,before,fails⟩ := first_halt ends
    have walked : accountsPredicatesOrHalt state context tx =
        (((front ++ [addr]).flatMap upward).foldlM (accountStep state context (boundCalldata context)) []).mapError Stop.error >>=
          fun _ => .error (.halt reason) := by
      rw [accountsPredicatesOrHalt_eq,parts,visits_halt [] before fails]
      cases ((front ++ [addr]).flatMap upward).foldlM (accountStep state context (boundCalldata context)) [] <;> rfl
    cases asked : ((front ++ [addr]).flatMap upward).foldlM (accountStep state context (boundCalldata context)) [] with
    | ok output =>
        rw [asked] at walked
        refine .inl ⟨⟨front,addr,back,parts,by rw [fails]; simp,?_⟩,reason,walked⟩
        intro a inside acc found
        exact accounts_fold_expands asked inside found
    | error e =>
        rw [asked] at walked
        refine .inr ⟨?_,?_⟩
        · intro ⟨front',addr',back',parts',fails',expands⟩
          have held := first_front (parts.symm.trans parts') before fails'
          obtain ⟨output,ran⟩ := accounts_fold_total (l:=(front ++ [addr]).flatMap upward) [] fun a inside acc found => by
            obtain ⟨key,member,above⟩ := List.mem_flatMap.mp inside
            exact expands a (List.mem_flatMap.mpr ⟨key,held key member,above⟩) acc found
          rw [asked] at ran
          cases ran
        · have failed : (touched tx).foldlM (accountStep state context (boundCalldata context)) [] = .error e := by
            have split : touched tx = (front ++ [addr]).flatMap upward ++ back.flatMap upward := by
              change (tx.proposals.toList.map Prod.fst).flatMap upward = _
              rw [parts,← List.flatMap_append,List.append_assoc,List.singleton_append]
            rw [split,List.foldlM_append,asked]
            rfl
          rw [walked]
          unfold accountsPredicates
          rw [failed]
          rfl

def Stuck (w : Hashing A) (state : View A) (tx : Transaction A) : Prop :=
  (∃ diff, outputs state tx = .ok diff) ∧ ∃ context, predicateContext w state tx = .ok context ∧ Meets state context tx

theorem ends_unstuck {w : Hashing A} {state : View A} {tx : Transaction A} (ends : Ends tx) : ¬Stuck w state tx := by
  intro ⟨_,_,_,front,addr,back,parts,fails,_⟩
  exact fails (ends addr (by rw [parts]; simp))

end Collect
end AnomaAlpha
