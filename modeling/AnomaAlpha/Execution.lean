import AnomaAlpha.Collect
import AnomaAlpha.Lib.CancelFlag
import Mathlib.Data.List.Sort

-- A reduction of operands in their order under any association, as a parallel iterator
-- may do it.
inductive Bracketing where
  | chunk
  | split (position : Nat) (left right : Bracketing)

namespace Bracketing
variable {α : Type}

def join (op : α → α → α) : Option α → Option α → Option α
  | some a,some b => some (op a b)
  | some a,none => some a
  | none,b => b

def reduceWith (op : α → α → α) : Bracketing → List α → Option α
  | .chunk,items => items.foldl (fun acc item => join op acc (some item)) none
  | .split position left right,items =>
    join op (left.reduceWith op (items.take position)) (right.reduceWith op (items.drop position))

theorem reduceWith_all {op : α → α → α} (P : α → Prop) (both : ∀ a b, P (op a b) ↔ P a ∧ P b)
    (b : Bracketing) (items : List α) :
    (∀ r, b.reduceWith op items = some r → P r) ↔ ∀ item ∈ items, P item := by
  have joined : ∀ x y, (∀ r, join op x y = some r → P r) ↔ (∀ r, x = some r → P r) ∧ ∀ r, y = some r → P r := by
    intro x y
    cases x <;> cases y <;> simp [join,both]
  induction b generalizing items with
  | chunk =>
      have fold : ∀ acc, (∀ r, items.foldl (fun acc item => join op acc (some item)) acc = some r → P r) ↔
          (∀ r, acc = some r → P r) ∧ ∀ item ∈ items, P item := by
        induction items with
        | nil => simp
        | cons item items ih =>
            intro acc
            rw [List.foldl_cons,ih,joined]
            simp only [Option.some.injEq,forall_eq',List.forall_mem_cons,and_assoc]
      simpa [reduceWith] using fold none
  | split position left right before after =>
      rw [reduceWith,joined]
      refine (and_congr (before _) (after _)).trans ?_
      rw [← List.forall_mem_append,List.take_append_drop]

end Bracketing

namespace AnomaAlpha

inductive Crash where
  | memory (error : String)
  | compile (error : String)
  | instantiation (error : String)
  | exportError (error : String)
  | encoding (error : String)
  | execution (error : String)
  | invalidReturnValue (value : UInt32)
  deriving DecidableEq

-- `MemoryAccess` has no constructor: the one memory access is inside `deliver_data`,
-- whose own `?` makes a `RuntimeError` of it.
inductive Error (A : Type := Address) where
  | state (error : CollectError A)
  | rejected (predicate : ExpandedPredicate A)
  | cancelled
  | crash (error : Crash)
  deriving DecidableEq

-- From `wasmer` and `rmp_serde`: an `Instance` is the store of one invocation with its
-- memory and exports, and `WasmPtr<u8>` is an `i32`.
structure Runtime (A : Type := Address) [Ord A] extends Hashing A where
  Module : Type
  Memory : Type
  Instance : Type
  TypedFunction : Type
  encodeContext : PredicateContext A → Except String Bytes
  encodeParams : List (ExpandedParam A) → Except String Bytes
  deserialize : Bytes → Option Module
  fromBinary : Bytes → Except String Module
  newMemory : (minimum : Nat) → Except String Memory
  newInstance : Module → Memory → Except String Instance
  getTypedFunction : Instance → (name : String) → (arguments : Nat) → Except String TypedFunction
  call : TypedFunction → List UInt32 → Instance → Except String (UInt32 × Instance)
  write : (offset : UInt64) → Bytes → Instance → Except String Instance

variable {A : Type}

namespace Execution

def cachePath (w : Hashing A) (code : Bytes) : String :=
  "/predcache/" ++ w.bs58.encode (w.wrap code).toBytes

theorem alphabet_allowed {c : Char} (member : c ∈ Base58.alphabet) : allowedChar c = true ∧ c ≠ '/' := by
  have all : Base58.alphabet.all (fun c => allowedChar c && c != '/') = true := by decide
  simpa using List.all_eq_true.mp all c member

theorem cachePath_checked (w : Hashing A) (code : Bytes) : checkPath (cachePath w code).toList = .ok () := by
  have encoded := w.bs58.alphabetic (w.wrap code).toBytes
  have filled : (w.bs58.encode (w.wrap code).toBytes).toList ≠ [] := by
    apply w.bs58.nonempty
    rw [Multihash.toBytes_wrap]
    simp
  have front : "/predcache/".toList = '/' :: "predcache/".toList := by decide
  have scanned : scanSegments 0 "predcache/".toList = .ok 0 := by decide
  rw [cachePath,String.toList_append,front,List.cons_append]
  generalize (w.bs58.encode (w.wrap code).toBytes).toList = key at encoded filled
  have segment := scan_segment 0 key fun c member => alphabet_allowed (encoded c member)
  have whole : scanSegments 0 ("predcache/".toList ++ key) = .ok key.length := by
    rw [scan_append,scanned,← Nat.zero_add key.length]
    exact segment
  cases key with
  | nil => exact absurd rfl filled
  | cons c key => exact check_slash whole

-- The `expect` on the key never fails.
def cachekey [AddressSpace A] (w : Hashing A) (code : Bytes) : A :=
  AddressSpace.ofChecked ⟨cachePath w code,cachePath_checked w code⟩

section
variable [Ord A] [AddressSpace A]

def loadModule (rt : Runtime A) (code : Bytes) (cache : View A) : Except Crash rt.Module :=
  match cache (cachekey rt.toHashing code) with
  | some val => match rt.deserialize val.state with
    | some module => .ok module
    | none => (rt.fromBinary code).mapError .compile
  | none => (rt.fromBinary code).mapError .compile

-- The length is cast to `u32`.
def deliverData (rt : Runtime A) (allocateFn : rt.TypedFunction) (data : Bytes) (ingestFn : rt.TypedFunction)
    (store : rt.Instance) : Except String (UInt32 × rt.Instance) := do
  let dataLen := UInt32.ofNat data.length
  let (rawPtr,store) ← rt.call allocateFn [dataLen] store
  let store ← rt.write rawPtr.toUInt64 data store
  rt.call ingestFn [rawPtr,dataLen] store

def invoke (rt : Runtime A) (context : Bytes) (predicate : ExpandedPredicate A) (cache : View A) :
    Except Crash Bool := do
  let module ← loadModule rt predicate.code.code cache
  let memory ← (rt.newMemory 32).mapError Crash.memory
  let store ← (rt.newInstance module memory).mapError Crash.instantiation
  let allocateFn ← (rt.getTypedFunction store "__allocate" 1).mapError Crash.exportError
  let contextFn ← (rt.getTypedFunction store "__ingest_context" 2).mapError Crash.exportError
  let paramsFn ← (rt.getTypedFunction store "__ingest_params" 2).mapError Crash.exportError
  let entrypointFn ← (rt.getTypedFunction store predicate.code.entrypoint 2).mapError Crash.exportError
  let (contextPtr,store) ← (deliverData rt allocateFn context contextFn store).mapError Crash.execution
  let params ← (rt.encodeParams predicate.params).mapError Crash.encoding
  let (paramsPtr,store) ← (deliverData rt allocateFn params paramsFn store).mapError Crash.execution
  let (result,_) ← (rt.call entrypointFn [paramsPtr,contextPtr] store).mapError Crash.execution
  if result = 0 then return false
  else if result = 1 then return true
  else throw (.invalidReturnValue result)

end

def negate (p : ExpandedPredicate A) : ExpandedPredicate A :=
  {p with code := {p.code with entrypoint := "not(" ++ p.code.entrypoint ++ ")"}}

def not (val : Except (Error A) (ExpandedPredicate A)) : Except (Error A) (ExpandedPredicate A) :=
  match val with
  | .ok p => .error (.rejected (negate p))
  | .error (.rejected p) => .ok (negate p)
  | .error e => .error e

def and (a b : Except (Error A) α) : Except (Error A) α :=
  match a,b with
  | .ok p,.ok _ => .ok p
  | .ok _,.error (.rejected p) => .error (.rejected p)
  | .error (.rejected p),.ok _ => .error (.rejected p)
  | .error .cancelled,.error e => .error e
  | .error e,.error .cancelled => .error e
  | .error e,_ => .error e
  | _,.error e => .error e

def or (a b : Except (Error A) α) : Except (Error A) α :=
  match a,b with
  | .ok p,.ok _ => .ok p
  | .ok p,.error (.rejected _) => .ok p
  | .error (.rejected _),.ok p => .ok p
  | .error .cancelled,.error e => .error e
  | .error e,.error .cancelled => .error e
  | .error e,_ => .error e
  | _,.error e => .error e

structure Leaf (A : Type := Address) where
  pred : ExpandedPredicate A
  outcome : Except Crash Bool

def leafResult (pred : ExpandedPredicate A) : CancelFlag.Poll Bool Crash → Except (Error A) (ExpandedPredicate A)
  | .done true => .ok pred
  | .done false => .error (.rejected pred)
  | .crashed e => .error (.crash e)
  | .skipped => .error .cancelled

-- The tree that `map` builds when its closure answers with the entries of the log; what
-- is left of the log belongs to the leaves that follow.
def refill : ExpressionTree (Leaf A) → List (CancelFlag.Poll Bool Crash) →
    ExpressionTree (Except (Error A) (ExpandedPredicate A)) × List (CancelFlag.Poll Bool Crash)
  | .id leaf,entry :: log => (.id (leafResult leaf.pred entry),log)
  | .id _,[] => (.id (.error .cancelled),[])
  | .not t,log =>
    let (t,log) := refill t log
    (.not t,log)
  | .and l r,log =>
    let (l,log) := refill l log
    let (r,log) := refill r log
    (.and l r,log)
  | .or l r,log =>
    let (l,log) := refill l log
    let (r,log) := refill r log
    (.or l r,log)

def evaluate (tree : ExpressionTree (Leaf A)) (log : List (CancelFlag.Poll Bool Crash)) :
    Except (Error A) (ExpandedPredicate A) :=
  (refill tree log).1.reduce (fun p => p) not and or

def treeResult (tree : ExpressionTree (Leaf A)) : CancelFlag.Task (Leaf A) Bool Crash → Except (Error A) Unit
  | .working log _ => (evaluate tree log).map fun _ => ()
  | _ => .error .cancelled

def jobs (trees : List (ExpressionTree (Leaf A))) : List (List (Leaf A)) := trees.map ExpressionTree.leaves

-- One complete run of the threads: `steps` says which tree moves next.
def threads (steps : List Nat) (trees : List (ExpressionTree (Leaf A))) : CancelFlag.Machine (Leaf A) Bool Crash :=
  CancelFlag.finish Leaf.outcome (jobs trees) steps

def parallelInvoke (steps : List Nat) (brackets : Bracketing) (trees : List (ExpressionTree (Leaf A))) :
    Except (Error A) Unit :=
  let results := trees.mapIdx fun i tree => treeResult tree ((threads steps trees).tasks i)
  (brackets.reduceWith and results).getD (.ok ())

-- Everything that the program leaves open: the order in which the hash map of
-- account predicates is read, the interleaving and the association.
structure Scheduler (A : Type := Address) where
  order : List (ExpandedTree A) → List (ExpandedTree A)
  order_perm : ∀ trees, (order trees).Perm trees
  steps : List (ExpandedTree A) → List Nat
  brackets : List (ExpandedTree A) → Bracketing

def Scheduler.inOrder : Scheduler A := ⟨fun trees => trees,fun _ => .refl _,fun _ => [],fun _ => .chunk⟩

section
variable [Ord A] [AddressSpace A]

def attach (rt : Runtime A) (context : Bytes) (cache : View A) (tree : ExpandedTree A) : ExpressionTree (Leaf A) :=
  tree.map fun pred => ⟨pred,invoke rt context pred cache⟩

def parallelInvokePredicates (rt : Runtime A) (sch : Scheduler A) (context : PredicateContext A)
    (predicates : List (ExpandedTree A)) (cache : View A) : Except (Error A) Unit := do
  let context ← (rt.encodeContext context).mapError fun e => Error.crash (.encoding e)
  parallelInvoke (sch.steps predicates) (sch.brackets predicates) (predicates.map (attach rt context cache))

variable [DecidableEq A] [Std.TransOrd A] [Std.LawfulEqOrd A]

def execute (rt : Runtime A) (sch : Scheduler A) (tx : Transaction A) (state cache : View A) :
    Except (Error A) (StateDiff A) := do
  let stateDiff ← (Collect.outputs state tx).mapError Error.state
  let context ← (Collect.predicateContext rt.toHashing state tx).mapError Error.state
  let accountPreds ← (Collect.accountsPredicates state context tx).mapError Error.state
  let intentPreds ← (Collect.intentsPredicates state context tx).mapError Error.state
  match parallelInvokePredicates rt sch context (sch.order accountPreds ++ intentPreds) cache with
  | .ok () => .ok stateDiff
  | .error e => .error e

-- The same on addresses that need not have been checked.
def executeOrHalt (rt : Runtime A) (sch : Scheduler A) (tx : Transaction A) (state cache : View A) :
    Except (Stop (Error A)) (StateDiff A) := do
  let stateDiff ← (Collect.outputs state tx).mapError fun e => .error (.state e)
  let context ← (Collect.predicateContext rt.toHashing state tx).mapError fun e => .error (.state e)
  let accountPreds ← (Collect.accountsPredicatesOrHalt state context tx).mapError (Stop.map .state)
  let intentPreds ← (Collect.intentsPredicates state context tx).mapError fun e => .error (.state e)
  match parallelInvokePredicates rt sch context (sch.order accountPreds ++ intentPreds) cache with
  | .ok () => return stateDiff
  | .error e => throw (.error e)

theorem executeOrHalt_cases (rt : Runtime A) (sch : Scheduler A) (tx : Transaction A) (state cache : View A) :
    (Collect.Stuck rt.toHashing state tx ∧ ∃ reason, executeOrHalt rt sch tx state cache = .error (.halt reason)) ∨
    (¬Collect.Stuck rt.toHashing state tx ∧
      executeOrHalt rt sch tx state cache = (execute rt sch tx state cache).mapError .error) := by
  unfold Collect.Stuck executeOrHalt execute
  cases written : Collect.outputs state tx with
  | error e => exact .inr ⟨by simp,rfl⟩
  | ok diff =>
      cases gathered : Collect.predicateContext rt.toHashing state tx with
      | error e => exact .inr ⟨by simp,rfl⟩
      | ok context =>
          rcases Collect.accountsPredicatesOrHalt_cases state context tx with ⟨meets,reason,stopped⟩ | ⟨clear,same⟩
          · exact .inl ⟨⟨⟨diff,rfl⟩,context,rfl,meets⟩,reason,by simp only [bind,Except.bind,Except.mapError,stopped,Stop.map]⟩
          · refine .inr ⟨?_,?_⟩
            · intro ⟨_,other,again,meets⟩
              obtain rfl := Except.ok.inj again
              exact clear meets
            · simp only [bind,Except.bind,Except.mapError,same]
              cases Collect.accountsPredicates state context tx with
              | error e => rfl
              | ok accounts =>
                  cases Collect.intentsPredicates state context tx with
                  | error e => rfl
                  | ok intents =>
                      simp only
                      split <;> rfl

theorem executeOrHalt_ends {rt : Runtime A} {sch : Scheduler A} {tx : Transaction A} {state cache : View A}
    (ends : Collect.Ends tx) : executeOrHalt rt sch tx state cache = (execute rt sch tx state cache).mapError .error := by
  rcases executeOrHalt_cases rt sch tx state cache with ⟨stuck,_⟩ | ⟨_,same⟩
  · exact (Collect.ends_unstuck ends stuck).elim
  · exact same

end

end Execution

variable [DecidableEq A] [Ord A] [Std.TransOrd A] [Std.LawfulEqOrd A]

def InMemoryStateStore.advance (store : InMemoryStateStore A) : Except (Error A) (StateDiff A) → InMemoryStateStore A
  | .ok diff => store.apply diff
  | .error _ => store

def successes (results : List (Except (Error A) (StateDiff A))) : List (StateDiff A) := results.filterMap Except.toOption

end AnomaAlpha
