import AnomaAlpha.Builder
import AnomaAlpha.Lib.Unpack

-- What is written of a transaction, and of what a predicate is asked, tells which one
-- it was, as long as the lengths fit 32 bits and the codes of hashes 64.
namespace AnomaAlpha.Wire
open MessagePack PrefixCode

variable {α β : Type}

theorem array_pair (a b : Bytes) : array [a,b] = arrayLen 2 ++ (a ++ b) := by simp [array]

theorem variant_eq (name : String) (content : Bytes) : variant name content = mapLen 1 ++ (str name ++ content) := by
  simp [variant,map]

theorem variant_split {name name' : String} {content content' rest rest' : Bytes}
    (small : (variant name content).length < 2^32) (small' : (variant name' content').length < 2^32)
    (same : variant name content ++ rest = variant name' content' ++ rest') :
    name = name' ∧ content ++ rest = content' ++ rest' := by
  rw [variant_eq,List.length_append,List.length_append] at small small'
  rw [variant_eq,variant_eq,List.append_assoc,List.append_assoc,List.append_assoc,List.append_assoc] at same
  exact unique_str _ _ _ _ (by omega) (by omega) (List.append_cancel_left same)

theorem variant_apart {write : α → Bytes} {a b : α} (apart : Apart (2^32) write a b) (name : String) :
    Apart (2^32) (fun a => variant name (write a)) a b := by
  simp only [variant_eq]
  exact (apart.front (str name)).front (mapLen 1)

theorem pair_apart {write : α → Bytes} {write' : β → Bytes} {a b : α × β} (apart : Apart (2^32) write a.1 b.1)
    (apart' : Apart (2^32) write' a.2 b.2) : Apart (2^32) (fun pair : α × β => array [write pair.1,write' pair.2]) a b := by
  simp only [array_pair]
  exact (apart.seq apart').front (arrayLen 2)

theorem unique_byte : Unique (2^32) fun byte : UInt8 => uint byte.toNat := by
  intro a b rest rest' _ _ same
  obtain ⟨value,rest⟩ := uint_unique (a.toNat_lt.trans (by decide)) (b.toNat_lt.trans (by decide)) same
  exact ⟨UInt8.toNat_inj.mp value,rest⟩

theorem uint_filled (n : Nat) : uint n ≠ [] := by
  unfold uint
  split_ifs <;> simp

theorem unique_bytes : Unique (2^32) bytes := fun _ _ =>
  array_apart (fun byte => uint_filled byte.toNat) fun a _ b _ => unique_byte a b

theorem unique_address : Unique (2^32) (address (A:=Address)) := unique_str.comap fun _ _ => Address.ext_path

theorem unique_param : Unique (2^32) (param (A:=Address)) := by
  intro a b rest rest' small small' same
  cases a with
  | inline data => cases b with
    | inline data' =>
        obtain ⟨rfl,rest⟩ := variant_apart (unique_bytes data data') "Inline" _ _ small small' same
        exact ⟨rfl,rest⟩
    | _ => exact absurd (variant_split small small' same).1 (by decide)
  | accountRef addr => cases b with
    | accountRef addr' =>
        obtain ⟨rfl,rest⟩ := variant_apart (unique_address addr addr') "AccountRef" _ _ small small' same
        exact ⟨rfl,rest⟩
    | _ => exact absurd (variant_split small small' same).1 (by decide)
  | proposalRef addr => cases b with
    | proposalRef addr' =>
        obtain ⟨rfl,rest⟩ := variant_apart (unique_address addr addr') "ProposalRef" _ _ small small' same
        exact ⟨rfl,rest⟩
    | _ => exact absurd (variant_split small small' same).1 (by decide)
  | calldataRef key => cases b with
    | calldataRef key' =>
        obtain ⟨rfl,rest⟩ := variant_apart (unique_str key key') "CalldataRef" _ _ small small' same
        exact ⟨rfl,rest⟩
    | _ => exact absurd (variant_split small small' same).1 (by decide)

theorem unique_code : Unique (2^32) (code (A:=Address)) := by
  intro a b rest rest' small small' same
  cases a with
  | inline wasm => cases b with
    | inline wasm' =>
        obtain ⟨rfl,rest⟩ := variant_apart (unique_bytes wasm wasm') "Inline" _ _ small small' same
        exact ⟨rfl,rest⟩
    | accountRef _ _ => exact absurd (variant_split small small' same).1 (by decide)
  | accountRef addr entrypoint => cases b with
    | inline _ => exact absurd (variant_split small small' same).1 (by decide)
    | accountRef addr' entrypoint' =>
        have apart : Apart (2^32) _ (addr,entrypoint) (addr',entrypoint') :=
          pair_apart (unique_address addr addr') (unique_str entrypoint entrypoint')
        obtain ⟨pairs,rest⟩ := variant_apart apart "AccountRef" _ _ small small' same
        cases pairs
        exact ⟨rfl,rest⟩

theorem variant_filled (name : String) (content : Bytes) : variant name content ≠ [] := by
  rw [variant_eq]
  exact List.cons_ne_nil _ _

theorem param_filled (p : Param) : param p ≠ [] := by
  cases p <;> exact variant_filled _ _

theorem unique_predicate : Unique (2^32) (predicate (A:=Address)) := by
  intro a b rest rest' small small' same
  have apart : Apart (2^32) _ (a.code,a.params) (b.code,b.params) :=
    pair_apart (unique_code a.code b.code) (array_apart param_filled fun p _ p' _ => unique_param p p')
  obtain ⟨pairs,rest⟩ := apart _ _ small small' same
  cases a
  cases b
  cases pairs
  exact ⟨rfl,rest⟩

theorem unique_tree : Unique (2^32) (tree (A:=Address)) := by
  intro a
  induction a with
  | id pred =>
      intro b rest rest' small small' same
      cases b with
      | id pred' =>
          obtain ⟨rfl,rest⟩ := variant_apart (unique_predicate pred pred') "Id" _ _ small small' same
          exact ⟨rfl,rest⟩
      | _ => exact absurd (variant_split small small' same).1 (by decide)
  | not t ih =>
      intro b rest rest' small small' same
      cases b with
      | not t' =>
          obtain ⟨rfl,rest⟩ := variant_apart (ih t') "Not" _ _ small small' same
          exact ⟨rfl,rest⟩
      | _ => exact absurd (variant_split small small' same).1 (by decide)
  | and l r ihl ihr =>
      intro b rest rest' small small' same
      cases b with
      | and l' r' =>
          have apart : Apart (2^32) _ (l,r) (l',r') := pair_apart (ihl l') (ihr r')
          obtain ⟨pairs,rest⟩ := variant_apart apart "And" _ _ small small' same
          cases pairs
          exact ⟨rfl,rest⟩
      | _ => exact absurd (variant_split small small' same).1 (by decide)
  | or l r ihl ihr =>
      intro b rest rest' small small' same
      cases b with
      | or l' r' =>
          have apart : Apart (2^32) _ (l,r) (l',r') := pair_apart (ihl l') (ihr r')
          obtain ⟨pairs,rest⟩ := variant_apart apart "Or" _ _ small small' same
          cases pairs
          exact ⟨rfl,rest⟩
      | _ => exact absurd (variant_split small small' same).1 (by decide)

theorem unique_account : Unique (2^32) (account (A:=Address)) := by
  intro a b rest rest' small small' same
  have apart : Apart (2^32) _ (a.state,a.predicates) (b.state,b.predicates) :=
    pair_apart (unique_bytes a.state b.state) (unique_tree a.predicates b.predicates)
  obtain ⟨pairs,rest⟩ := apart _ _ small small' same
  cases a
  cases b
  cases pairs
  exact ⟨rfl,rest⟩

theorem single_apart {write : α → Bytes} {a b : α} (apart : Apart (2^32) write a b) :
    Apart (2^32) (fun a => array [write a]) a b := by
  have whole : (fun a => array [write a]) = fun a => arrayLen 1 ++ write a := by
    funext a
    simp [array]
  rw [whole]
  exact apart.front (arrayLen 1)

theorem name_apart {name : String} {content rest rest' : Bytes} :
    str "DeleteAccount" ++ rest ≠ variant name content ++ rest' := by
  rw [variant_eq]
  intro same
  exact absurd (List.cons.inj same).1 (by decide)

theorem unique_change : Unique (2^32) (change (A:=Address)) := by
  intro a b rest rest' small small' same
  cases a with
  | createAccount acc => cases b with
    | createAccount acc' =>
        obtain ⟨rfl,rest⟩ := variant_apart (unique_account acc acc') "CreateAccount" _ _ small small' same
        exact ⟨rfl,rest⟩
    | deleteAccount => exact absurd same.symm name_apart
    | _ => exact absurd (variant_split small small' same).1 (by decide)
  | replaceState state => cases b with
    | replaceState state' =>
        obtain ⟨rfl,rest⟩ := variant_apart (unique_bytes state state') "ReplaceState" _ _ small small' same
        exact ⟨rfl,rest⟩
    | deleteAccount => exact absurd same.symm name_apart
    | _ => exact absurd (variant_split small small' same).1 (by decide)
  | replacePredicates predicates => cases b with
    | replacePredicates predicates' =>
        obtain ⟨rfl,rest⟩ := variant_apart (unique_tree predicates predicates') "ReplacePredicates" _ _ small small' same
        exact ⟨rfl,rest⟩
    | deleteAccount => exact absurd same.symm name_apart
    | _ => exact absurd (variant_split small small' same).1 (by decide)
  | deleteAccount => cases b with
    | deleteAccount => exact ⟨rfl,List.append_cancel_left same⟩
    | _ => exact absurd same name_apart

theorem unique_expandedChange : Unique (2^32) (expandedChange (A:=Address)) := by
  intro a b rest rest' small small' same
  cases a with
  | createAccount acc => cases b with
    | createAccount acc' =>
        obtain ⟨rfl,rest⟩ := variant_apart (unique_account acc acc') "CreateAccount" _ _ small small' same
        exact ⟨rfl,rest⟩
    | _ => exact absurd (variant_split small small' same).1 (by decide)
  | replaceState current proposed => cases b with
    | replaceState current' proposed' =>
        have apart : Apart (2^32) _ (current,proposed) (current',proposed') :=
          pair_apart (unique_bytes current current') (unique_bytes proposed proposed')
        obtain ⟨pairs,rest⟩ := variant_apart apart "ReplaceState" _ _ small small' same
        cases pairs
        exact ⟨rfl,rest⟩
    | _ => exact absurd (variant_split small small' same).1 (by decide)
  | replacePredicates current proposed => cases b with
    | replacePredicates current' proposed' =>
        have apart : Apart (2^32) _ (current,proposed) (current',proposed') :=
          pair_apart (unique_tree current current') (unique_tree proposed proposed')
        obtain ⟨pairs,rest⟩ := variant_apart apart "ReplacePredicates" _ _ small small' same
        cases pairs
        exact ⟨rfl,rest⟩
    | _ => exact absurd (variant_split small small' same).1 (by decide)
  | deleteAccount current => cases b with
    | deleteAccount current' =>
        have apart := single_apart (unique_account current current')
        obtain ⟨rfl,rest⟩ := variant_apart apart "DeleteAccount" _ _ small small' same
        exact ⟨rfl,rest⟩
    | _ => exact absurd (variant_split small small' same).1 (by decide)

theorem unique_expandedParam : Unique (2^32) (expandedParam (A:=Address)) := by
  intro a b rest rest' small small' same
  cases a with
  | inline data => cases b with
    | inline data' =>
        obtain ⟨rfl,rest⟩ := variant_apart (unique_bytes data data') "Inline" _ _ small small' same
        exact ⟨rfl,rest⟩
    | _ => exact absurd (variant_split small small' same).1 (by decide)
  | accountRef addr state => cases b with
    | accountRef addr' state' =>
        have apart : Apart (2^32) _ (addr,state) (addr',state') :=
          pair_apart (unique_address addr addr') (unique_bytes state state')
        obtain ⟨pairs,rest⟩ := variant_apart apart "AccountRef" _ _ small small' same
        cases pairs
        exact ⟨rfl,rest⟩
    | _ => exact absurd (variant_split small small' same).1 (by decide)
  | proposalRef addr change => cases b with
    | proposalRef addr' change' =>
        have apart : Apart (2^32) _ (addr,change) (addr',change') :=
          pair_apart (unique_address addr addr') (unique_expandedChange change change')
        obtain ⟨pairs,rest⟩ := variant_apart apart "ProposalRef" _ _ small small' same
        cases pairs
        exact ⟨rfl,rest⟩
    | _ => exact absurd (variant_split small small' same).1 (by decide)
  | calldataRef key value => cases b with
    | calldataRef key' value' =>
        have apart : Apart (2^32) _ (key,value) (key',value') :=
          pair_apart (unique_str key key') (unique_bytes value value')
        obtain ⟨pairs,rest⟩ := variant_apart apart "CalldataRef" _ _ small small' same
        cases pairs
        exact ⟨rfl,rest⟩
    | _ => exact absurd (variant_split small small' same).1 (by decide)

theorem expandedParam_filled (p : ExpandedParam) : expandedParam p ≠ [] := by
  cases p <;> exact variant_filled _ _

theorem unique_params : Unique (2^32) (params (A:=Address)) := fun _ _ =>
  array_apart expandedParam_filled fun p _ p' _ => unique_expandedParam p p'

theorem entries_apart {K V : Type} [Ord K] [Std.TransOrd K] [Std.LawfulEqOrd K] {key : K → Bytes} {value : V → Bytes}
    {m m' : BTreeMap K V} (filled : ∀ k, key k ≠ [])
    (apart : ∀ k ∈ m, ∀ k' ∈ m', Apart (2^32) key k k') (values : Unique (2^32) value) :
    Apart (2^32) (fun m : BTreeMap K V => map (m.toList.map fun entry => (key entry.1,value entry.2))) m m' := by
  intro rest rest' small small' same
  have pairs : ∀ a ∈ m.toList, ∀ b ∈ m'.toList, Apart (2^32) (fun entry : K × V => key entry.1 ++ value entry.2) a b := by
    intro a member b member'
    have inside := Std.ExtTreeMap.mem_toList_iff_getElem?_eq_some.mp member
    have inside' := Std.ExtTreeMap.mem_toList_iff_getElem?_eq_some.mp member'
    refine (apart a.1 ?_ b.1 ?_).seq (values a.2 b.2)
    · exact Std.ExtTreeMap.mem_iff_isSome_getElem?.mpr (by rw [inside]; rfl)
    · exact Std.ExtTreeMap.mem_iff_isSome_getElem?.mpr (by rw [inside']; rfl)
  have some_key : ∀ entry : K × V, key entry.1 ++ value entry.2 ≠ [] := fun entry empty =>
    filled entry.1 (List.append_eq_nil_iff.mp empty).1
  obtain ⟨lists,rest⟩ := map_apart some_key pairs _ _ small small' same
  exact ⟨Std.ExtTreeMap.toList_inj.mp lists,rest⟩

theorem str_filled (text : String) : str text ≠ [] := by
  intro empty
  have head := (List.append_eq_nil_iff.mp empty).1
  unfold strLen at head
  split_ifs at head

theorem unique_calldata : Unique (2^32) calldata := fun _ _ =>
  entries_apart str_filled (fun k _ k' _ => unique_str k k') unique_bytes

theorem triple_apart {γ : Type} {first : α → Bytes} {second : β → Bytes} {third : γ → Bytes} {a b : α × β × γ}
    (apart : Apart (2^32) first a.1 b.1) (apart' : Apart (2^32) second a.2.1 b.2.1)
    (apart'' : Apart (2^32) third a.2.2 b.2.2) :
    Apart (2^32) (fun t : α × β × γ => array [first t.1,second t.2.1,third t.2.2]) a b := by
  have whole : (fun t : α × β × γ => array [first t.1,second t.2.1,third t.2.2]) =
      fun t => arrayLen 3 ++ (first t.1 ++ (second t.2.1 ++ third t.2.2)) := by
    funext t
    simp [array]
  rw [whole]
  exact (apart.seq (apart'.seq (a:=a.2) (b:=b.2) apart'')).front (arrayLen 3)

theorem uint_apart {n m : Nat} (small : n < 2^64) (small' : m < 2^64) : Apart (2^32) uint n m :=
  fun _ _ _ _ same => uint_unique small small' same

theorem bytes_count (data : Bytes) (small : (bytes data).length < 2^32) : data.length < 2^32 := by
  unfold bytes array at small
  rw [List.length_append,← List.flatMap_def] at small
  exact count_small (fun byte : UInt8 => uint_filled byte.toNat) (by omega)

theorem multihash_eq (h : Multihash) : multihash h = arrayLen 3 ++ (uint h.code ++ (uint h.digest.length ++
    bytes (h.digest ++ List.replicate (64-h.digest.length) 0))) := by
  simp [multihash,array]

theorem multihash_apart {a b : Multihash} (code : a.code < 2^64) (code' : b.code < 2^64) : Apart (2^32) multihash a b := by
  intro rest rest' small small' same
  rw [multihash_eq] at small small' same
  rw [multihash_eq] at same
  simp only [List.length_append] at small small'
  simp only [List.append_assoc] at same
  have size := bytes_count (a.digest ++ List.replicate (64-a.digest.length) 0) (by omega)
  have size' := bytes_count (b.digest ++ List.replicate (64-b.digest.length) 0) (by omega)
  rw [List.length_append] at size size'
  obtain ⟨codes,same⟩ := uint_unique code code' (List.append_cancel_left same)
  obtain ⟨lengths,same⟩ := uint_unique (by omega) (by omega) same
  obtain ⟨digests,rest⟩ := unique_bytes _ _ _ _ (by omega) (by omega) same
  have digest := (List.append_inj digests lengths).1
  cases a
  cases b
  exact ⟨congrArg₂ Multihash.mk codes digest,rest⟩

end AnomaAlpha.Wire

namespace AnomaAlpha
open MessagePack PrefixCode

def Intent.Typed (i : Intent) : Prop := i.recentBlockhash.code < 2^64
def Transaction.Typed (tx : Transaction) : Prop := ∀ i ∈ tx.intents, i.Typed
def PredicateContext.Typed (ctx : PredicateContext) : Prop := ∀ h ∈ ctx.calldata, h.code < 2^64

namespace Wire

theorem multihash_filled (h : Multihash) : multihash h ≠ [] := by
  rw [multihash_eq]
  exact List.cons_ne_nil _ _

theorem address_filled (addr : Address) : address addr ≠ [] := str_filled addr.path

theorem intent_apart {a b : Multihash × PredicateTree × Calldata} (code : a.1.code < 2^64) (code' : b.1.code < 2^64) :
    Apart (2^32) (fun i : Multihash × PredicateTree × Calldata => intent i.1 i.2.1 i.2.2) a b :=
  triple_apart (multihash_apart code code') (unique_tree a.2.1 b.2.1) (unique_calldata a.2.2 b.2.2)

theorem proposals_apart (m m' : BTreeMap Address AccountChange) :
    Apart (2^32) (fun m : BTreeMap Address AccountChange => map (m.toList.map fun entry => (address entry.1,change entry.2)))
      m m' :=
  entries_apart address_filled (fun addr _ addr' _ => unique_address addr addr') unique_change

theorem context_apart {ctx ctx' : PredicateContext} (typed : ctx.Typed) (typed' : ctx'.Typed) :
    Apart (2^32) context ctx ctx' := by
  intro rest rest' small small' same
  have apart : Apart (2^32) _ (ctx.calldata,ctx.proposals) (ctx'.calldata,ctx'.proposals) :=
    pair_apart (entries_apart multihash_filled (fun h inside h' inside' => multihash_apart (typed h inside) (typed' h' inside'))
        unique_calldata)
      (entries_apart address_filled (fun addr _ addr' _ => unique_address addr addr') unique_expandedChange)
  obtain ⟨pairs,rest⟩ := apart _ _ small small' same
  cases ctx
  cases ctx'
  cases pairs
  exact ⟨rfl,rest⟩

def content (i : Intent) : Multihash × PredicateTree × Calldata := (i.recentBlockhash,i.expectations,i.calldata)

theorem content_fresh {intents intents' : List Intent} (same : intents.map content = intents'.map content) :
    intents.map Intent.fresh = intents'.map Intent.fresh := by
  have rebuilt : Intent.fresh = (fun i : Multihash × PredicateTree × Calldata => ⟨i.1,i.2.1,i.2.2,none⟩) ∘ content := rfl
  rw [rebuilt,← List.map_map,same,List.map_map]

theorem intent_filled (i : Multihash × PredicateTree × Calldata) : intent i.1 i.2.1 i.2.2 ≠ [] := List.cons_ne_nil _ _

theorem intents_apart {intents intents' : List Intent} (typed : ∀ i ∈ intents, i.Typed) (typed' : ∀ i ∈ intents', i.Typed) :
    Apart (2^32) (fun items => array (items.map fun i : Multihash × PredicateTree × Calldata => intent i.1 i.2.1 i.2.2))
      (intents.map content) (intents'.map content) := by
  refine array_apart intent_filled fun a inside b inside' => ?_
  obtain ⟨i,member,rfl⟩ := List.mem_map.mp inside
  obtain ⟨i',member',rfl⟩ := List.mem_map.mp inside'
  exact intent_apart (typed i member) (typed' i' member')

theorem transaction_content (tx : Transaction) : transaction tx =
    array [array ((tx.intents.map content).map fun i => intent i.1 i.2.1 i.2.2),
      map (tx.proposals.toList.map fun entry => (address entry.1,change entry.2))] := by
  rw [List.map_map]
  rfl

theorem transaction_apart {tx tx' : Transaction} (typed : tx.Typed) (typed' : tx'.Typed) {rest rest' : Bytes}
    (small : (transaction tx).length < 2^32) (small' : (transaction tx').length < 2^32)
    (same : transaction tx ++ rest = transaction tx' ++ rest') : tx.fresh = tx'.fresh ∧ rest = rest' := by
  have apart : Apart (2^32) _ (tx.intents.map content,tx.proposals) (tx'.intents.map content,tx'.proposals) :=
    pair_apart (intents_apart typed typed') (proposals_apart tx.proposals tx'.proposals)
  rw [transaction_content] at small small' same
  rw [transaction_content] at same
  obtain ⟨pairs,rest⟩ := apart _ _ small small' same
  rw [Prod.mk.injEq] at pairs
  obtain ⟨contents,proposals⟩ := pairs
  exact ⟨congrArg₂ (Transaction.mk · · none) (content_fresh contents) proposals,rest⟩

theorem transaction_filled (tx : Transaction) : transaction tx ≠ [] := List.cons_ne_nil _ _

theorem block_apart {height height' : UInt64} {parent parent' : Multihash} {txs txs' : List Transaction}
    (code : parent.code < 2^64) (code' : parent'.code < 2^64) (typed : ∀ tx ∈ txs, tx.Typed ∧ tx.fresh = tx)
    (typed' : ∀ tx ∈ txs', tx.Typed ∧ tx.fresh = tx) (small : (block height parent txs).length < 2^32)
    (same : block height parent txs = block height' parent' txs') : height = height' ∧ parent = parent' ∧ txs = txs' := by
  have each : ∀ tx ∈ txs, ∀ tx' ∈ txs', Apart (2^32) transaction tx tx' := by
    intro tx inside tx' inside' rest rest' short short' equal
    obtain ⟨fresh,rest⟩ := transaction_apart (typed tx inside).1 (typed' tx' inside').1 short short' equal
    rw [(typed tx inside).2,(typed' tx' inside').2] at fresh
    exact ⟨fresh,rest⟩
  have apart : Apart (2^32) _ (height.toNat,parent,txs) (height'.toNat,parent',txs') :=
    triple_apart (uint_apart height.toNat_lt height'.toNat_lt) (multihash_apart code code')
      (array_apart transaction_filled each)
  have equal := apart.same small same
  simp only [Prod.mk.injEq] at equal
  exact ⟨UInt64.toNat_inj.mp equal.1,equal.2⟩

end Wire

-- The part of an invocation before its entrypoint is called: the entrypoint, the two
-- pointers that it is to get and the instance.
def Execution.prepare (rt : Runtime) (context : Bytes) (predicate : ExpandedPredicate) (cache : View) :
    Except Crash (rt.TypedFunction × UInt32 × UInt32 × rt.Instance) := do
  let module ← loadModule rt predicate.code.code cache
  let memory ← (rt.newMemory 32).mapError Crash.memory
  let store ← (rt.newInstance module memory).mapError Crash.instantiation
  let allocateFn ← (rt.getTypedFunction store "__allocate" 1).mapError Crash.exportError
  let contextFn ← (rt.getTypedFunction store "__ingest_context" 2).mapError Crash.exportError
  let paramsFn ← (rt.getTypedFunction store "__ingest_params" 2).mapError Crash.exportError
  let entrypointFn ← (rt.getTypedFunction store predicate.code.entrypoint 2).mapError Crash.exportError
  let (contextPtr,store) ← (deliverData rt allocateFn context contextFn store).mapError Crash.execution
  let params ← (rt.encodeParams predicate.params).mapError Crash.encoding
  let (paramsPtr,store) ← (deliverData rt allocateFn params paramsFn store).mapError Crash.execution
  return (entrypointFn,paramsPtr,contextPtr,store)

namespace Runtime

-- The same runtime, whose instances keep what is written into them.
def recording (rt : Runtime) : Runtime :=
  {rt with
    Instance := rt.Instance × List Bytes
    newInstance := fun module memory => (rt.newInstance module memory).map (·,[])
    getTypedFunction := fun store => rt.getTypedFunction store.1
    call := fun function arguments store =>
      (rt.call function arguments store.1).map fun (result,inner) => (result,(inner,store.2))
    write := fun offset data store => (rt.write offset data store.1).map (·,store.2 ++ [data])}

structure Wired (rt : Runtime) : Prop where
  context : ∀ ctx bytes, rt.encodeContext ctx = .ok bytes → bytes = Wire.context ctx
  params : ∀ ps bytes, rt.encodeParams ps = .ok bytes → bytes = Wire.params ps

end Runtime

namespace Execution
open Fallible

variable {rt : Runtime} {context : Bytes} {predicate : ExpandedPredicate} {cache : View}

theorem invoke_prepare (rt : Runtime) (context : Bytes) (predicate : ExpandedPredicate) (cache : View) :
    invoke rt context predicate cache = (do
      let (entrypointFn,paramsPtr,contextPtr,store) ← prepare rt context predicate cache
      let (result,_) ← (rt.call entrypointFn [paramsPtr,contextPtr] store).mapError Crash.execution
      if result = 0 then return false
      else if result = 1 then return true
      else throw (.invalidReturnValue result)) := by
  simp only [invoke,prepare,bind_assoc,pure_bind]

-- What is handed over to a predicate is what the instance has been given by the time
-- its entrypoint is called.
def Handed (rt : Runtime) (ctx : PredicateContext) (predicate : ExpandedPredicate) (cache : View) (written : List Bytes) :
    Prop :=
  ∃ context asked, rt.encodeContext ctx = .ok context ∧ prepare rt.recording context predicate cache = .ok asked ∧
    asked.2.2.2.2 = written

theorem deliver_records {allocateFn ingestFn : rt.TypedFunction} {store next : rt.Instance} (written : List Bytes)
    (delivered : deliverData rt allocateFn data ingestFn store = .ok (ptr,next)) :
    deliverData rt.recording allocateFn data ingestFn (store,written) = .ok (ptr,(next,written ++ [data])) := by
  obtain ⟨⟨rawPtr,allocated⟩,first,delivered⟩ := bind_ok.mp delivered
  obtain ⟨filled,wrote,last⟩ := bind_ok.mp delivered
  exact bind_ok.mpr ⟨(rawPtr,(allocated,written)),map_ok.mpr ⟨_,first,rfl⟩,
    bind_ok.mpr ⟨(filled,written ++ [data]),map_ok.mpr ⟨_,wrote,rfl⟩,map_ok.mpr ⟨_,last,rfl⟩⟩⟩

theorem deliver_writes {allocateFn ingestFn : rt.recording.TypedFunction} {store next : rt.recording.Instance}
    (delivered : deliverData rt.recording allocateFn data ingestFn store = .ok (ptr,next)) :
    next.2 = store.2 ++ [data] := by
  obtain ⟨⟨rawPtr,allocated⟩,first,delivered⟩ := bind_ok.mp delivered
  obtain ⟨filled,wrote,last⟩ := bind_ok.mp delivered
  obtain ⟨_,_,same⟩ := map_ok.mp first
  cases same
  obtain ⟨_,_,same⟩ := map_ok.mp wrote
  cases same
  obtain ⟨_,_,same⟩ := map_ok.mp last
  cases same
  rfl

theorem load_recorded {code : Bytes} {module : rt.Module} (loaded : loadModule rt code cache = .ok module) :
    loadModule rt.recording code cache = .ok module := by
  have key : cachekey rt.recording.toHashing code = cachekey rt.toHashing code := rfl
  unfold loadModule at loaded ⊢
  rw [key]
  cases cached : cache (cachekey rt.toHashing code) with
  | none =>
      rw [cached] at loaded
      exact loaded
  | some val =>
      rw [cached] at loaded
      cases found : rt.deserialize val.state with
      | none =>
          have here : rt.recording.deserialize val.state = none := found
          simp only [found] at loaded
          simp only [here]
          exact loaded
      | some module =>
          have here : rt.recording.deserialize val.state = some module := found
          simp only [found] at loaded
          simp only [here]
          exact loaded

theorem prepare_writes (asks : prepare rt.recording context predicate cache = .ok asked) :
    ∃ params, rt.encodeParams predicate.params = .ok params ∧ asked.2.2.2.2 = [context,params] := by
  unfold prepare at asks
  obtain ⟨module,_,asks⟩ := bind_ok.mp asks
  obtain ⟨memory,_,asks⟩ := bind_ok.mp asks
  obtain ⟨store,made,asks⟩ := bind_ok.mp asks
  obtain ⟨allocateFn,_,asks⟩ := bind_ok.mp asks
  obtain ⟨contextFn,_,asks⟩ := bind_ok.mp asks
  obtain ⟨paramsFn,_,asks⟩ := bind_ok.mp asks
  obtain ⟨entrypointFn,_,asks⟩ := bind_ok.mp asks
  obtain ⟨⟨contextPtr,filled⟩,first,asks⟩ := bind_ok.mp asks
  obtain ⟨params,encoded,asks⟩ := bind_ok.mp asks
  obtain ⟨⟨paramsPtr,full⟩,second,asks⟩ := bind_ok.mp asks
  cases asks
  rw [mapError_ok] at made first second encoded
  obtain ⟨_,_,rfl⟩ := map_ok.mp made
  refine ⟨params,encoded,?_⟩
  change full.2 = _
  rw [deliver_writes second,deliver_writes first]
  rfl

theorem prepare_handed {ctx : PredicateContext} (encoded : rt.encodeContext ctx = .ok context)
    (asks : prepare rt context predicate cache = .ok asked) : ∃ written, Handed rt ctx predicate cache written := by
  unfold prepare at asks
  obtain ⟨module,loaded,asks⟩ := bind_ok.mp asks
  obtain ⟨memory,made,asks⟩ := bind_ok.mp asks
  obtain ⟨store,stored,asks⟩ := bind_ok.mp asks
  obtain ⟨allocateFn,allocates,asks⟩ := bind_ok.mp asks
  obtain ⟨contextFn,ingests,asks⟩ := bind_ok.mp asks
  obtain ⟨paramsFn,reads,asks⟩ := bind_ok.mp asks
  obtain ⟨entrypointFn,exported,asks⟩ := bind_ok.mp asks
  obtain ⟨⟨contextPtr,filled⟩,first,asks⟩ := bind_ok.mp asks
  obtain ⟨params,encodes,asks⟩ := bind_ok.mp asks
  obtain ⟨⟨paramsPtr,full⟩,second,asks⟩ := bind_ok.mp asks
  rw [mapError_ok] at stored first second
  refine ⟨[context,params],context,(entrypointFn,paramsPtr,contextPtr,(full,[context,params])),encoded,?_,rfl⟩
  unfold prepare
  refine bind_ok.mpr ⟨module,load_recorded loaded,bind_ok.mpr ⟨memory,made,bind_ok.mpr ⟨(store,[]),?_,?_⟩⟩⟩
  · exact mapError_ok.mpr (map_ok.mpr ⟨store,stored,rfl⟩)
  refine bind_ok.mpr ⟨allocateFn,allocates,bind_ok.mpr ⟨contextFn,ingests,bind_ok.mpr ⟨paramsFn,reads,?_⟩⟩⟩
  refine bind_ok.mpr ⟨entrypointFn,exported,bind_ok.mpr ⟨(contextPtr,(filled,[context])),?_,?_⟩⟩
  · exact mapError_ok.mpr (deliver_records [] first)
  refine bind_ok.mpr ⟨params,encodes,bind_ok.mpr ⟨(paramsPtr,(full,[context,params])),?_,rfl⟩⟩
  exact mapError_ok.mpr (deliver_records [context] second)

end Execution

-- An invocation that comes to its entrypoint has handed over two byte strings, and each
-- of them stands for one context or one list of parameters only.
theorem inputs_apart (rt : Runtime) (wired : rt.Wired) :
    (∀ ctx context predicate cache, rt.encodeContext ctx = .ok context →
      (∃ written, Execution.Handed rt ctx predicate cache written) ∨
      ∃ e, Execution.prepare rt context predicate cache = .error e ∧ Execution.invoke rt context predicate cache = .error e) ∧
    (∀ ctx predicate cache written, Execution.Handed rt ctx predicate cache written →
      ∃ context params, written = [context,params] ∧ rt.encodeContext ctx = .ok context ∧
        rt.encodeParams predicate.params = .ok params) ∧
    ∀ (ctx ctx' : PredicateContext) predicate predicate' cache cache' context context' params params', ctx.Typed → ctx'.Typed →
      Execution.Handed rt ctx predicate cache [context,params] → Execution.Handed rt ctx' predicate' cache' [context',params'] →
      context.length < 2^32 → params.length < 2^32 →
      (context = context' ↔ ctx = ctx') ∧ (params = params' ↔ predicate.params = predicate'.params) := by
  have writes : ∀ ctx predicate cache written, Execution.Handed rt ctx predicate cache written →
      ∃ context params, written = [context,params] ∧ rt.encodeContext ctx = .ok context ∧
        rt.encodeParams predicate.params = .ok params := by
    intro ctx predicate cache written ⟨context,asked,encoded,asks,same⟩
    obtain ⟨params,encodes,wrote⟩ := Execution.prepare_writes asks
    exact ⟨context,params,same ▸ wrote,encoded,encodes⟩
  refine ⟨?_,writes,?_⟩
  · intro ctx context predicate cache encoded
    cases asks : Execution.prepare rt context predicate cache with
    | ok asked => exact .inl (Execution.prepare_handed encoded asks)
    | error e =>
        refine .inr ⟨e,rfl,?_⟩
        rw [Execution.invoke_prepare,asks]
        rfl
  · intro ctx ctx' predicate predicate' cache cache' context context' params params' typed typed' handed handed' small small'
    obtain ⟨_,_,same,encoded,encodes⟩ := writes _ _ _ _ handed
    cases same
    obtain ⟨_,_,same,encoded',encodes'⟩ := writes _ _ _ _ handed'
    cases same
    obtain rfl := wired.context ctx context encoded
    obtain rfl := wired.context ctx' context' encoded'
    obtain rfl := wired.params predicate.params params encodes
    obtain rfl := wired.params predicate'.params params' encodes'
    exact ⟨⟨(Wire.context_apart typed typed').same small,congrArg Wire.context⟩,
      ⟨(Wire.unique_params predicate.params predicate'.params).same small',congrArg Wire.params⟩⟩

namespace EncodingsExample

def addr : Address := ⟨"/vault",by decide⟩
def blank : PredicateContext := ⟨∅,∅⟩
def replaced : PredicateContext := ⟨∅,(∅ : BTreeMap Address ExpandedAccountChange).insert addr (.replaceState [1] [2])⟩
def asks (params : List ExpandedParam) : ExpandedPredicate := ⟨⟨acceptWasm,"invoke"⟩,params⟩

end EncodingsExample

theorem acceptHost_wired : acceptHost.runtime.Wired :=
  ⟨fun _ _ same => (Except.ok.inj same).symm,fun _ _ same => (Except.ok.inj same).symm⟩

open EncodingsExample in
theorem proposal_shows : ∃ context params context' params',
    Execution.Handed acceptHost.runtime blank (asks [.inline [1]]) (fun _ => none) [context,params] ∧
    Execution.Handed acceptHost.runtime replaced (asks [.accountRef addr [1]]) (fun _ => none) [context',params'] ∧
    context ≠ context' ∧ params ≠ params' := by
  obtain ⟨comes,writes,apart⟩ := inputs_apart acceptHost.runtime acceptHost_wired
  have hands : ∀ ctx params, ∃ written, Execution.Handed acceptHost.runtime ctx (asks params) (fun _ => none) written := by
    intro ctx params
    rcases comes ctx _ (asks params) (fun _ => none) rfl with handed | ⟨e,_,failed⟩
    · exact handed
    · rw [asks,acceptHost_invoke] at failed
      cases failed
  obtain ⟨_,handed⟩ := hands blank [.inline [1]]
  obtain ⟨_,handed'⟩ := hands replaced [.accountRef addr [1]]
  obtain ⟨context,params,rfl,encoded,encodes⟩ := writes _ _ _ _ handed
  obtain ⟨context',params',rfl,encoded',encodes'⟩ := writes _ _ _ _ handed'
  refine ⟨context,params,context',params',handed,handed',?_⟩
  cases encoded
  cases encodes
  obtain ⟨contexts,params⟩ := apart _ _ _ _ _ _ _ _ _ _ (fun h inside => absurd inside (by simp [blank]))
    (fun h inside => absurd inside (by simp [replaced])) handed handed' (by decide) (by decide)
  refine ⟨fun same => ?_,fun same => absurd (params.mp same) (by decide)⟩
  have proposals := congrArg PredicateContext.proposals (contexts.mp same)
  exact absurd proposals (by decide)

end AnomaAlpha
