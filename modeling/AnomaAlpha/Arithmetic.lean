import AnomaAlpha.Approval
import AnomaAlpha.Token
import AnomaAlpha.Expansion
import AnomaAlpha.Proposals

namespace AnomaAlpha
open Execution Collect Fallible

namespace Stdpred

-- `u64::saturating_sub`.
def saturatingSub (a b : UInt64) : UInt64 := if a < b then 0 else a - b

section
-- `rmp_serde::from_slice` at `u64`; the `expect` on it panics.
variable (sliceToU64 : Bytes → Option UInt64)

-- The predicates on two integers differ in the comparison.
def compareUints (test : UInt64 → UInt64 → Bool) (params : List ExpandedParam) (_ : PredicateContext) : Option Bool :=
  match params with
  | [first,second] => do
    let first ← sliceToU64 first.data
    let second ← sliceToU64 second.data
    return test first second
  | _ => none

def uintEqual : List ExpandedParam → PredicateContext → Option Bool :=
  compareUints sliceToU64 fun first second => first == second

def uintGreaterThan : List ExpandedParam → PredicateContext → Option Bool :=
  compareUints sliceToU64 fun first second => first > second

def uintGreaterThanEqual : List ExpandedParam → PredicateContext → Option Bool :=
  compareUints sliceToU64 fun first second => first ≥ second

def uintLessThan : List ExpandedParam → PredicateContext → Option Bool :=
  compareUints sliceToU64 fun first second => first < second

def uintLessThanEqual : List ExpandedParam → PredicateContext → Option Bool :=
  compareUints sliceToU64 fun first second => first ≤ second

-- The two on a difference by a constant subtract the other way round.
def differBy (difference : UInt64 → UInt64 → UInt64) (params : List ExpandedParam) (_ : PredicateContext) :
    Option Bool :=
  match params with
  | [first,second,constant] => do
    let first ← sliceToU64 first.data
    let second ← sliceToU64 second.data
    let constant ← sliceToU64 constant.data
    return difference first second == constant
  | _ => none

def uintGreaterThanBy : List ExpandedParam → PredicateContext → Option Bool :=
  differBy sliceToU64 fun first second => saturatingSub first second

def uintLessThanBy : List ExpandedParam → PredicateContext → Option Bool :=
  differBy sliceToU64 fun first second => saturatingSub second first

end

theorem saturatingSub_toNat (a b : UInt64) : (saturatingSub a b).toNat = a.toNat - b.toNat := by
  unfold saturatingSub
  split
  · rename_i less
    rw [UInt64.lt_iff_toNat_lt] at less
    rw [UInt64.toNat_zero]
    omega
  · rename_i above
    rw [UInt64.not_lt,UInt64.le_iff_toNat_le] at above
    exact UInt64.toNat_sub_of_le a b above

theorem saturated_eq {a b d : UInt64} : saturatingSub a b = d ↔ a.toNat = b.toNat + d.toNat ∨ d = 0 ∧ a < b := by
  rw [← UInt64.toNat_inj,saturatingSub_toNat,← UInt64.toNat_inj,UInt64.lt_iff_toNat_lt,UInt64.toNat_zero]
  omega

section
variable {sliceToU64 : Bytes → Option UInt64} {first second constant : ExpandedParam} {a b d : UInt64}

theorem differBy_answer (difference : UInt64 → UInt64 → UInt64) (context : PredicateContext)
    (readFirst : sliceToU64 first.data = some a) (readSecond : sliceToU64 second.data = some b)
    (readConstant : sliceToU64 constant.data = some d) :
    differBy sliceToU64 difference [first,second,constant] context = some (difference a b == d) := by
  simp only [differBy,readFirst,readSecond,readConstant]
  rfl

theorem compareUints_flip (test : UInt64 → UInt64 → Bool) (context : PredicateContext) :
    compareUints sliceToU64 test [first,second] context =
      compareUints sliceToU64 (fun a b => test b a) [second,first] context := by
  simp only [compareUints]
  cases sliceToU64 first.data with
  | none => cases sliceToU64 second.data <;> rfl
  | some a => cases sliceToU64 second.data <;> rfl

theorem greaterThan_lessThan (context : PredicateContext) :
    uintGreaterThan sliceToU64 [first,second] context = uintLessThan sliceToU64 [second,first] context ∧
    uintGreaterThanEqual sliceToU64 [first,second] context = uintLessThanEqual sliceToU64 [second,first] context :=
  ⟨compareUints_flip _ context,compareUints_flip _ context⟩

theorem differBy_accepts {difference : UInt64 → UInt64 → UInt64} {context : PredicateContext}
    (accepted : differBy sliceToU64 difference [first,second,constant] context = some true) :
    ∃ a b d, sliceToU64 first.data = some a ∧ sliceToU64 second.data = some b ∧ sliceToU64 constant.data = some d ∧
      difference a b = d := by
  obtain ⟨a,readFirst,later⟩ := Option.bind_eq_some_iff.mp accepted
  obtain ⟨b,readSecond,rest⟩ := Option.bind_eq_some_iff.mp later
  obtain ⟨d,readConstant,finished⟩ := Option.bind_eq_some_iff.mp rest
  exact ⟨a,b,d,readFirst,readSecond,readConstant,by simpa using finished⟩

theorem reversed_apart (reversed : d = 0 ∧ a < b) : a.toNat ≠ b.toNat + d.toNat := by
  rw [← UInt64.toNat_inj,UInt64.lt_iff_toNat_lt,UInt64.toNat_zero] at reversed
  omega

theorem exact_difference (a b d : UInt64) :
    (saturatingSub a b == d) = decide (a.toNat = b.toNat + d.toNat) ↔ ¬(d = 0 ∧ a < b) := by
  rw [beq_eq_decide,decide_eq_decide,saturated_eq]
  constructor
  · intro exactly reversed
    exact reversed_apart reversed (exactly.mp (.inr reversed))
  · intro upright
    exact or_iff_left upright

theorem pinned_iff (difference : saturatingSub a b = d) : a.toNat = b.toNat + d.toNat ↔ ¬(d = 0 ∧ a < b) := by
  constructor
  · intro exactly reversed
    exact reversed_apart reversed exactly
  · intro upright
    exact (saturated_eq.mp difference).resolve_right upright

theorem greaterThanBy_greaterThan {context : PredicateContext}
    (accepted : uintGreaterThanBy sliceToU64 [first,second,constant] context = some true)
    (nonzero : sliceToU64 constant.data ≠ some 0) : uintGreaterThan sliceToU64 [first,second] context = some true := by
  obtain ⟨a,b,d,readFirst,readSecond,readConstant,difference⟩ := differBy_accepts accepted
  have positive : d ≠ 0 := fun zero => nonzero (zero ▸ readConstant)
  have exactly := (pinned_iff difference).mpr fun reversed => positive reversed.1
  have above : b < a := by
    rw [UInt64.lt_iff_toNat_lt]
    rw [ne_eq,← UInt64.toNat_inj,UInt64.toNat_zero] at positive
    omega
  simp only [uintGreaterThan,compareUints,readFirst,readSecond]
  exact congrArg some (decide_eq_true above)

end

end Stdpred

open Stdpred

-- The expectations of the intent that `transfer` makes.
def transferExpectations (toVec : UInt64 → Bytes) (stdpred sender recipient : Address) (amount : UInt64) :
    PredicateTree :=
  .and (.id ⟨.accountRef stdpred "uint_less_than_by",[.proposalRef sender,.accountRef sender,.inline (toVec amount)]⟩)
    (.id ⟨.accountRef stdpred "uint_greater_than_equal",[.proposalRef recipient,.inline (toVec amount)]⟩)

section
variable {rt : Runtime} {sch : Scheduler} {tx : Transaction} {state cache : View} {diff : StateDiff}
  {sliceToU64 : Bytes → Option UInt64} {toVec : UInt64 → Bytes} {stdpred sender recipient : Address} {amount : UInt64}

-- The code at `stdpred` answers the first leaf of a transfer, if at all, as the library does.
def AnswersLessThanBy (rt : Runtime) (sliceToU64 : Bytes → Option UInt64) (amount : Bytes) (stdpred sender : Address)
    (tx : Transaction) (state cache : View) : Prop :=
  ∀ library context bytes change account answer, state stdpred = some library →
    predicateContext rt.toHashing state tx = .ok context → rt.encodeContext context = .ok bytes →
    context.proposals[sender]? = some change → state sender = some account →
    invoke rt bytes ⟨⟨library.state,"uint_less_than_by"⟩,
      [.proposalRef sender change,.accountRef sender account.state,.inline amount]⟩ cache = .ok answer →
    uintLessThanBy sliceToU64 [.proposalRef sender change,.accountRef sender account.state,.inline amount] context =
      some answer

theorem transfer_expands {context : PredicateContext} {calldata : Calldata} {tree : ExpandedTree}
    (expanded : expandPredicateTree state (transferExpectations toVec stdpred sender recipient amount) context calldata =
      .ok tree) :
    ∃ library change account rest, state stdpred = some library ∧ context.proposals[sender]? = some change ∧
      state sender = some account ∧ tree = .and (.id ⟨⟨library.state,"uint_less_than_by"⟩,
        [.proposalRef sender change,.accountRef sender account.state,.inline (toVec amount)]⟩) rest := by
  obtain ⟨left,right,first,_,rfl⟩ := expand_and expanded
  obtain ⟨library,values,installed,filled,rfl⟩ := expand_leaf first
  cases filled with
  | cons proposal filled => cases proposal with
    | proposalRef proposed => cases filled with
      | cons current filled => cases current with
        | accountRef held => cases filled with
          | cons constant filled =>
              cases constant
              cases filled
              exact ⟨library,_,_,right,installed,proposed,held,rfl⟩

-- An accepted transfer replaces the state of its sender by a balance whose
-- distance to the old one, cut off at zero, is the amount.
theorem transfer_balances {intent : Intent} (reads : sliceToU64 (toVec amount) = some amount)
    (empty : sliceToU64 [] = none)
    (library : AnswersLessThanBy rt sliceToU64 (toVec amount) stdpred sender tx state cache)
    (member : intent ∈ tx.intents)
    (expects : intent.expectations = transferExpectations toVec stdpred sender recipient amount)
    (accepted : execute rt sch tx state cache = .ok diff) :
    ∃ account before account' after, state sender = some account ∧ sliceToU64 account.state = some before ∧
      Patch.apply state diff.patch sender = some account' ∧ sliceToU64 account'.state = some after ∧
      saturatingSub before after = amount := by
  obtain ⟨written,context,accounts,intents,gathered,asked,expected,invoked⟩ := execute_ok.mp accepted
  obtain ⟨tree,expanded⟩ := mapM_each expected member
  have required := (gathered_required sch asked expected tree).mpr (.intent member expanded)
  rw [expects] at expanded
  obtain ⟨code,change,account,rest,installed,proposed,held,rfl⟩ := transfer_expands expanded
  obtain ⟨bytes,m,encoded,settled⟩ := invoked_settles invoked required
  have answered := library code context bytes change account true installed gathered encoded proposed held
    (settle_id (settle_and settled).1)
  obtain ⟨after,before,d,readAfter,readBefore,readAmount,difference⟩ := differBy_accepts answered
  cases reads.symm.trans readAmount
  have described := proposal_described written gathered proposed
  rw [held] at described
  cases change with
  | createAccount fresh => cases described.1
  | replaceState current proposed =>
      obtain ⟨_,_,_,applied⟩ := described
      exact ⟨account,before,_,after,held,readBefore,applied,readAfter,difference⟩
  | replacePredicates current proposed => cases empty.symm.trans readAfter
  | deleteAccount current => cases empty.symm.trans readAfter

end

-- The predicates give the exact difference but for zero, when the operands stand
-- the wrong way round; so does a transfer.
theorem differences_exact_iff (sliceToU64 : Bytes → Option UInt64) :
    (∀ (first second constant : ExpandedParam) (a b d : UInt64) (context : PredicateContext),
      sliceToU64 first.data = some a → sliceToU64 second.data = some b → sliceToU64 constant.data = some d →
      (uintGreaterThanBy sliceToU64 [first,second,constant] context = some (decide (a.toNat = b.toNat + d.toNat)) ↔
        ¬(d = 0 ∧ a < b)) ∧
      (uintLessThanBy sliceToU64 [first,second,constant] context = some (decide (b.toNat = a.toNat + d.toNat)) ↔
        ¬(d = 0 ∧ b < a)) ∧
      uintGreaterThanBy sliceToU64 [first,second,constant] context =
        uintLessThanBy sliceToU64 [second,first,constant] context) ∧
    ∀ (rt : Runtime) (sch : Scheduler) (tx : Transaction) (state cache : View) (diff : StateDiff)
      (toVec : UInt64 → Bytes) (stdpred sender recipient : Address) (amount : UInt64) (intent : Intent),
      sliceToU64 (toVec amount) = some amount → sliceToU64 [] = none →
      AnswersLessThanBy rt sliceToU64 (toVec amount) stdpred sender tx state cache → intent ∈ tx.intents →
      intent.expectations = transferExpectations toVec stdpred sender recipient amount →
      execute rt sch tx state cache = .ok diff →
      ∃ account before, state sender = some account ∧ sliceToU64 account.state = some before ∧
        ∀ view, Applied diff state view → ∃ account' after, view sender = some account' ∧
          sliceToU64 account'.state = some after ∧
          (before.toNat = after.toNat + amount.toNat ↔ ¬(amount = 0 ∧ before < after)) := by
  constructor
  · intro first second constant a b d context readFirst readSecond readConstant
    rw [uintGreaterThanBy,uintLessThanBy,differBy_answer _ context readFirst readSecond readConstant,
      differBy_answer _ context readFirst readSecond readConstant,
      differBy_answer _ context readSecond readFirst readConstant,Option.some.injEq,Option.some.injEq]
    exact ⟨exact_difference a b d,exact_difference b a d,rfl⟩
  · intro rt sch tx state cache diff toVec stdpred sender recipient amount intent reads empty library member expects
      accepted
    obtain ⟨account,before,account',after,held,readBefore,applied,readAfter,difference⟩ :=
      transfer_balances reads empty library member expects accepted
    refine ⟨account,before,held,readBefore,fun view patched => ⟨account',after,?_,readAfter,pinned_iff difference⟩⟩
    rw [applied_patch patched]
    exact applied

-- `__allocate` returns 0, the ingest functions their pointer and the predicates 1.
def comparisonWasm : Bytes :=
  [0x00,0x61,0x73,0x6d,0x01,0x00,0x00,0x00,
   0x01,0x0c,0x02,0x60,0x01,0x7f,0x01,0x7f,0x60,0x02,0x7f,0x7f,0x01,0x7f,
   0x03,0x06,0x05,0x00,0x01,0x01,0x01,0x01,
   0x07,0x61,0x05,
   0x0a,0x5f,0x5f,0x61,0x6c,0x6c,0x6f,0x63,0x61,0x74,0x65,0x00,0x00,
   0x10,0x5f,0x5f,0x69,0x6e,0x67,0x65,0x73,0x74,0x5f,0x63,0x6f,0x6e,0x74,0x65,0x78,0x74,0x00,0x01,
   0x0f,0x5f,0x5f,0x69,0x6e,0x67,0x65,0x73,0x74,0x5f,0x70,0x61,0x72,0x61,0x6d,0x73,0x00,0x02,
   0x11,0x75,0x69,0x6e,0x74,0x5f,0x6c,0x65,0x73,0x73,0x5f,0x74,0x68,0x61,0x6e,0x5f,0x62,0x79,0x00,0x03,
   0x17,0x75,0x69,0x6e,0x74,0x5f,0x67,0x72,0x65,0x61,0x74,0x65,0x72,0x5f,0x74,0x68,0x61,0x6e,0x5f,0x65,0x71,0x75,0x61,
   0x6c,0x00,0x04,
   0x0a,0x1a,0x05,0x04,0x00,0x41,0x00,0x0b,0x04,0x00,0x20,0x00,0x0b,0x04,0x00,0x20,0x00,0x0b,0x04,0x00,0x41,0x01,0x0b,
   0x04,0x00,0x41,0x01,0x0b]

def comparisonDigest : Bytes :=
  [0x0f,0x28,0xf8,0x0f,0x3f,0xe3,0x89,0x7f,0xf0,0xbe,0xce,0x1a,0x3d,0xb4,0x58,0xdf,
   0xcd,0xc0,0x0d,0xe0,0x8b,0x74,0xce,0xb5,0x37,0x8a,0xe3,0xf9,0x34,0x01,0x81,0xbd]

def comparisonExports : String → Option Entrypoint :=
  fun name => if name = "uint_less_than_by" ∨ name = "uint_greater_than_equal" then some fun _ _ => .ok 1 else none

namespace TransferExample
def uint (n : UInt64) : Bytes := MessagePack.uint n.toNat
def readUint : Bytes → Option UInt64 := TokenExample.format.uint
def alice : Address := TokenExample.alice
def bob : Address := TokenExample.bob

def expectations (amount : UInt64) : PredicateTree := transferExpectations uint stdaddr alice bob amount
def intent (amount : UInt64) : Intent := .new SignatureExample.recentBlockhash (expectations amount)

def intentDigest400 : Bytes :=
  [0x77,0x29,0x4c,0x7f,0xf2,0x53,0xa4,0xcf,0x99,0x08,0x89,0x9b,0x6b,0xb6,0xae,0xad,
   0xdc,0x20,0x96,0x5b,0x7c,0xe6,0xeb,0x1a,0xe7,0xed,0x25,0x02,0xe4,0x07,0x41,0x06]

def intentDigest0 : Bytes :=
  [0x12,0x51,0x7c,0x60,0x05,0xd6,0x93,0x54,0x52,0xdd,0xdf,0x73,0x61,0x94,0xf2,0x35,
   0x6c,0x4e,0x93,0x4d,0xf3,0x6e,0x76,0x49,0xd0,0x17,0xd7,0x00,0xce,0x7b,0x71,0xc2]

def sha3 (message : Bytes) : Bytes :=
  if message = comparisonWasm then comparisonDigest
  else if message = Wire.intent SignatureExample.recentBlockhash (expectations 400) ∅ then intentDigest400
  else if message = Wire.intent SignatureExample.recentBlockhash (expectations 0) ∅ then intentDigest0
  else List.replicate 32 0

theorem sha3_length (message : Bytes) : (sha3 message).length = 32 := by
  unfold sha3
  split
  · rfl
  · split
    · rfl
    · split <;> rfl

def host : Host where
  toHashing := Wire.hashing sha3 sha3_length
  encodeContext context := .ok (Wire.context context)
  encodeParams params := .ok (Wire.params params)
  modules code := if code = comparisonWasm then some comparisonExports else none

def wallet (addr : Address) (balance : UInt64) : Account :=
  ⟨uint balance,.id ⟨.accountRef stdaddr "uint_greater_than_equal",[.proposalRef addr,.inline (uint 0)]⟩⟩

def store : InMemoryStateStore :=
  ⟨.ofList [(stdaddr,⟨comparisonWasm,TokenExample.anyone⟩),(alice,wallet alice 1000)] compare⟩

def transfer (amount after : UInt64) : Transaction :=
  .new [intent amount] (.ofList [(alice,.replaceState (uint after)),(bob,.createAccount (wallet bob 400))] compare)

def transferred (after : UInt64) : StateDiff :=
  ((StateDiff.set default alice (wallet alice after)).1.set bob (wallet bob 400)).1

def run (amount after : UInt64) : Except Error StateDiff :=
  execute host.runtime .inOrder (transfer amount after) store.get fun _ => none

def context : PredicateContext := ⟨∅,∅⟩

theorem answers {amount after : UInt64} {seen : PredicateContext}
    (gathered : predicateContext host.toHashing store.get (transfer amount after) = .ok seen)
    (shown : seen.proposals[alice]? = some (.replaceState (uint 1000) (uint after)))
    (agrees : uintLessThanBy readUint [.proposalRef alice (.replaceState (uint 1000) (uint after)),
      .accountRef alice (uint 1000),.inline (uint amount)] seen = some true) :
    AnswersLessThanBy host.runtime readUint (uint amount) stdaddr alice (transfer amount after) store.get
      fun _ => none := by
  intro library other bytes change account answer installed collected _ proposed held ran
  have code : store.get stdaddr = some ⟨comparisonWasm,TokenExample.anyone⟩ := by decide
  have balance : store.get alice = some (wallet alice 1000) := by decide
  obtain rfl := Option.some.inj (code.symm.trans installed)
  obtain rfl := Option.some.inj (balance.symm.trans held)
  obtain rfl := Except.ok.inj (gathered.symm.trans collected)
  obtain rfl := Option.some.inj (shown.symm.trans proposed)
  have known : host.modules comparisonWasm = some comparisonExports := by simp [host]
  have accepts : invoke host.runtime bytes ⟨⟨comparisonWasm,"uint_less_than_by"⟩,
      [.proposalRef alice (.replaceState (uint 1000) (uint after)),.accountRef alice (uint 1000),.inline (uint amount)]⟩
      (fun _ => none) = .ok true := by
    rw [Host.invoke_runtime host known rfl rfl]
    rfl
  obtain rfl := Except.ok.inj (accepts.symm.trans ran)
  exact agrees
end TransferExample

theorem transfer_of_400 : uintGreaterThanBy TransferExample.readUint
      [.inline (TransferExample.uint 7),.inline (TransferExample.uint 5),.inline (TransferExample.uint 2)]
      TransferExample.context = some true ∧
    ∃ account after,
      (TransferExample.store.apply (TransferExample.transferred 600)).get TransferExample.alice = some account ∧
      TransferExample.readUint account.state = some after ∧ 1000 = after.toNat + 400 := by
  obtain ⟨exactly,pins⟩ := differences_exact_iff TransferExample.readUint
  constructor
  · obtain ⟨greater,_,_⟩ := exactly (.inline (TransferExample.uint 7)) (.inline (TransferExample.uint 5))
      (.inline (TransferExample.uint 2)) 7 5 2 TransferExample.context (by decide) (by decide) (by decide)
    exact greater.mpr (by decide)
  · obtain ⟨account,before,held,balance,applied⟩ := pins TransferExample.host.runtime .inOrder
      (TransferExample.transfer 400 600) TransferExample.store.get (fun _ => none) (TransferExample.transferred 600)
      TransferExample.uint stdaddr TransferExample.alice TransferExample.bob 400 (TransferExample.intent 400)
      (by decide) rfl (TransferExample.answers rfl (by decide) (by decide))
      (by simp [TransferExample.transfer,Transaction.new]) rfl (by decide +kernel)
    obtain ⟨account',after,now,read,pinned⟩ := applied _ (.store TransferExample.store)
    have start : TransferExample.store.get TransferExample.alice =
        some (TransferExample.wallet TransferExample.alice 1000) := by decide
    obtain rfl := Option.some.inj (start.symm.trans held)
    have thousand : TransferExample.readUint (TransferExample.wallet TransferExample.alice 1000).state = some 1000 := by
      decide
    obtain rfl := Option.some.inj (thousand.symm.trans balance)
    exact ⟨account',after,now,read,pinned.mpr fun given => absurd given.1 (by decide)⟩

-- Nothing is nothing more than anything larger, and a transfer of nothing doubles
-- the balance of its sender.
theorem zero_difference_reversed :
    ¬(uintGreaterThanBy TransferExample.readUint
        [.inline (TransferExample.uint 0),.inline (TransferExample.uint 1),.inline (TransferExample.uint 0)]
        TransferExample.context = some true ↔ (0 : UInt64).toNat = (1 : UInt64).toNat + (0 : UInt64).toNat) ∧
    AnswersLessThanBy TransferExample.host.runtime TransferExample.readUint (TransferExample.uint 0) stdaddr
      TransferExample.alice (TransferExample.transfer 0 2000) TransferExample.store.get (fun _ => none) ∧
    TransferExample.run 0 2000 = .ok (TransferExample.transferred 2000) ∧
    TransferExample.store.get TransferExample.alice = some (TransferExample.wallet TransferExample.alice 1000) ∧
    (TransferExample.store.apply (TransferExample.transferred 2000)).get TransferExample.alice =
      some (TransferExample.wallet TransferExample.alice 2000) := by
  refine ⟨by decide,?_,by decide +kernel,by decide +kernel,by decide +kernel⟩
  exact TransferExample.answers rfl (by decide) (by decide)

end AnomaAlpha
