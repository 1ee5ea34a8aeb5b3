import AnomaAlpha.Hierarchy
import AnomaAlpha.Signature

-- The token of the predicates SDK, in release mode, where `u64` addition wraps.
-- A predicate that panics has no answer.
namespace AnomaAlpha

structure TokenFormat (ed : Ed25519) where
  address : Bytes → Option Address
  publicKey : Bytes → Option ed.PublicKey
  uint : Bytes → Option UInt64

namespace Token
variable {ed : Ed25519} (format : TokenFormat ed)

-- The constructor parameters: the own address, the key of the mint authority and
-- the supply that the token account holds.
def readParams (params : List ExpandedParam) : Option (Address × ed.PublicKey × UInt64) :=
  match params with
  | [selfParam,mintParam,.accountRef addr state] => do
    let selfAddr ← format.address selfParam.data
    let mintAuth ← format.publicKey mintParam.data
    if selfAddr = addr then
      let currentTotalSupply ← format.uint state
      return (selfAddr,mintAuth,currentTotalSupply)
    else none
  | _ => none

def currentBalance : ExpandedAccountChange → Option UInt64
  | .replaceState current _ => format.uint current
  | .deleteAccount current => format.uint current.state
  | _ => some 0

def proposedBalance : ExpandedAccountChange → Option UInt64
  | .createAccount acc => format.uint acc.state
  | .replaceState _ proposed => format.uint proposed
  | _ => some 0

-- The proposals that `sum_balances` keeps by its filter.
def wallets (tokenAddr : Address) (context : PredicateContext) : List ExpandedAccountChange :=
  (context.proposals.toList.filter fun entry => tokenAddr.isParentOf entry.1).map Prod.snd

def foldBalances (balance : ExpandedAccountChange → Option UInt64) (changes : List ExpandedAccountChange) : Option UInt64 :=
  changes.foldlM (fun acc change => do return acc + (← balance change)) 0

def sumBalances (tokenAddr : Address) (context : PredicateContext) : Option (UInt64 × UInt64) := do
  let preSum ← foldBalances (currentBalance format) (wallets tokenAddr context)
  let postSum ← foldBalances (proposedBalance format) (wallets tokenAddr context)
  return (preSum,postSum)

def isSignedByMintAuth (ed : Ed25519) (mintAuth : ed.PublicKey) (context : PredicateContext) : Bool :=
  let calldataKey := ed.calldataKey mintAuth
  context.calldata.toList.any fun (hash,calldata) => match calldata[calldataKey]? with
    | some signature => match ed.signatureFromBytes signature with
      | some signature => ed.verify mintAuth hash.toBytes signature
      | none => false
    | none => false

def supplyUpdated (pre post expectedNewSupply : UInt64) (totalSupplyProposal : ExpandedAccountChange) : Option Bool :=
  if pre < post then match totalSupplyProposal with
    | .createAccount acc => do return (← format.uint acc.state) == expectedNewSupply
    | .replaceState _ proposed => do return (← format.uint proposed) == expectedNewSupply
    | .replacePredicates _ _ => some false
    | .deleteAccount _ => some false
  else match totalSupplyProposal with
    | .createAccount _ => some false
    | .replaceState _ proposed => do return (← format.uint proposed) == expectedNewSupply
    | .replacePredicates _ _ => some false
    | .deleteAccount _ => some (expectedNewSupply == 0)

def predicate (params : List ExpandedParam) (context : PredicateContext) : Option Bool := do
  let (selfAddr,mintAuth,currentTotalSupply) ← readParams format params
  let (pre,post) ← sumBalances format selfAddr context
  if pre = post then return true
  else if isSignedByMintAuth ed mintAuth context then
    match context.proposals[selfAddr]? with
    | none => return false
    | some totalSupplyProposal => supplyUpdated format pre post (currentTotalSupply + post - pre) totalSupplyProposal
  else return false

-- Some intent of the context holds a signature of its own hash.
def Signed (ed : Ed25519) (key : ed.PublicKey) (context : PredicateContext) : Prop :=
  ∃ (hash : Multihash) (calldata : Calldata) (bytes : Bytes) (signature : ed.Signature),
    context.calldata[hash]? = some calldata ∧ calldata[ed.calldataKey key]? = some bytes ∧
    ed.signatureFromBytes bytes = some signature ∧ ed.verify key hash.toBytes signature = true

theorem signed_iff (key : ed.PublicKey) (context : PredicateContext) :
    isSignedByMintAuth ed key context = true ↔ Signed ed key context := by
  unfold isSignedByMintAuth Signed
  rw [List.any_eq_true]
  constructor
  · intro given
    obtain ⟨⟨hash,calldata⟩,member,told⟩ := given
    have held := Std.ExtTreeMap.mem_toList_iff_getElem?_eq_some.mp member
    dsimp only at told
    split at told
    · rename_i bytes found
      split at told
      · rename_i signature parsed
        exact ⟨hash,calldata,bytes,signature,held,found,parsed,told⟩
      · cases told
    · cases told
  · intro given
    obtain ⟨hash,calldata,bytes,signature,held,found,parsed,verified⟩ := given
    refine ⟨(hash,calldata),Std.ExtTreeMap.mem_toList_iff_getElem?_eq_some.mpr held,?_⟩
    dsimp only
    rw [found]
    dsimp only
    rw [parsed]
    exact verified

-- The balances added up without a bound; what cannot be read counts nothing.
def total (balance : ExpandedAccountChange → Option UInt64) (changes : List ExpandedAccountChange) : Nat :=
  (changes.map fun change => ((balance change).getD 0).toNat).sum

def totalBefore (tokenAddr : Address) (context : PredicateContext) : Nat :=
  total (currentBalance format) (wallets tokenAddr context)

def totalAfter (tokenAddr : Address) (context : PredicateContext) : Nat :=
  total (proposedBalance format) (wallets tokenAddr context)

def Readable (tokenAddr : Address) (context : PredicateContext) : Prop :=
  ∀ change ∈ wallets tokenAddr context, currentBalance format change ≠ none ∧ proposedBalance format change ≠ none

theorem fold_some {balance : ExpandedAccountChange → Option UInt64} {changes : List ExpandedAccountChange}
    {start sum : UInt64} (folded : changes.foldlM (fun acc change => do return acc + (← balance change)) start = some sum) :
    (∀ change ∈ changes, balance change ≠ none) ∧ sum.toNat % 2^64 = (start.toNat + total balance changes) % 2^64 := by
  induction changes generalizing start with
  | nil =>
      cases folded
      exact ⟨by simp,rfl⟩
  | cons change changes ih =>
      rw [List.foldlM_cons] at folded
      cases read : balance change with
      | none =>
          rw [read] at folded
          cases folded
      | some value =>
          rw [read] at folded
          obtain ⟨each,added⟩ := ih folded
          refine ⟨List.forall_mem_cons.mpr ⟨by simp [read],each⟩,?_⟩
          rw [added,UInt64.toNat_add,total,total,List.map_cons,List.sum_cons,read,Option.getD_some,Nat.mod_add_mod,Nat.add_assoc]

theorem fold_total {balance : ExpandedAccountChange → Option UInt64} {changes : List ExpandedAccountChange}
    (each : ∀ change ∈ changes, balance change ≠ none) (start : UInt64) :
    ∃ sum, changes.foldlM (fun acc change => do return acc + (← balance change)) start = some sum := by
  induction changes generalizing start with
  | nil => exact ⟨start,rfl⟩
  | cons change changes ih =>
      obtain ⟨here,later⟩ := List.forall_mem_cons.mp each
      obtain ⟨value,read⟩ := Option.ne_none_iff_exists'.mp here
      rw [List.foldlM_cons,read]
      exact ih later (start+value)

theorem sum_some {tokenAddr : Address} {context : PredicateContext} {pre post : UInt64}
    (summed : sumBalances format tokenAddr context = some (pre,post)) : Readable format tokenAddr context ∧
      pre.toNat = totalBefore format tokenAddr context % 2^64 ∧ post.toNat = totalAfter format tokenAddr context % 2^64 := by
  obtain ⟨first,folded,rest⟩ := Option.bind_eq_some_iff.mp summed
  obtain ⟨second,folded',finished⟩ := Option.bind_eq_some_iff.mp rest
  cases finished
  obtain ⟨readable,before⟩ := fold_some folded
  obtain ⟨readable',after⟩ := fold_some folded'
  rw [UInt64.toNat_zero,Nat.zero_add] at before after
  refine ⟨fun change member => ⟨readable change member,readable' change member⟩,?_,?_⟩
  · rwa [Nat.mod_eq_of_lt pre.toNat_lt] at before
  · rwa [Nat.mod_eq_of_lt post.toNat_lt] at after

theorem sum_total {tokenAddr : Address} {context : PredicateContext} (readable : Readable format tokenAddr context) :
    ∃ pre post, sumBalances format tokenAddr context = some (pre,post) := by
  obtain ⟨pre,folded⟩ := fold_total (fun change member => (readable change member).1) 0
  obtain ⟨post,folded'⟩ := fold_total (fun change member => (readable change member).2) 0
  exact ⟨pre,post,Option.bind_eq_some_iff.mpr ⟨pre,folded,Option.bind_eq_some_iff.mpr ⟨post,folded',rfl⟩⟩⟩

theorem predicate_cases {params : List ExpandedParam} {context : PredicateContext}
    (accepted : predicate format params context = some true) :
    ∃ selfAddr mintAuth supply pre post, readParams format params = some (selfAddr,mintAuth,supply) ∧
      sumBalances format selfAddr context = some (pre,post) ∧
      (pre = post ∨ pre ≠ post ∧ isSignedByMintAuth ed mintAuth context = true ∧
        ∃ proposal, context.proposals[selfAddr]? = some proposal ∧
          supplyUpdated format pre post (supply + post - pre) proposal = some true) := by
  obtain ⟨⟨selfAddr,mintAuth,supply⟩,given,later⟩ := Option.bind_eq_some_iff.mp accepted
  obtain ⟨⟨pre,post⟩,summed,decided⟩ := Option.bind_eq_some_iff.mp later
  refine ⟨selfAddr,mintAuth,supply,pre,post,given,summed,?_⟩
  dsimp only at decided
  split at decided
  · rename_i balanced
    exact .inl balanced
  · rename_i imbalanced
    split at decided
    · rename_i signed
      cases found : context.proposals[selfAddr]? with
      | none =>
          rw [found] at decided
          cases decided
      | some proposal =>
          rw [found] at decided
          exact .inr ⟨imbalanced,signed,proposal,rfl,decided⟩
    · cases decided

theorem predicate_balanced {params : List ExpandedParam} {context : PredicateContext} {selfAddr : Address}
    {mintAuth : ed.PublicKey} {supply pre post : UInt64} (given : readParams format params = some (selfAddr,mintAuth,supply))
    (summed : sumBalances format selfAddr context = some (pre,post)) (balanced : pre = post) :
    predicate format params context = some true := by
  refine Option.bind_eq_some_iff.mpr ⟨_,given,Option.bind_eq_some_iff.mpr ⟨_,summed,?_⟩⟩
  exact if_pos balanced

end Token

namespace Token
variable {ed : Ed25519} (format : TokenFormat ed) (params : List ExpandedParam) (context : PredicateContext)

def Conserves : Prop :=
  ∀ selfAddr mintAuth supply, readParams format params = some (selfAddr,mintAuth,supply) →
    predicate format params context = some true → ¬Signed ed mintAuth context →
    totalBefore format selfAddr context = totalAfter format selfAddr context

variable {format params context}

theorem unsigned_accepted {selfAddr : Address} {mintAuth : ed.PublicKey} {supply : UInt64}
    (given : readParams format params = some (selfAddr,mintAuth,supply)) (unsigned : ¬Signed ed mintAuth context) :
    predicate format params context = some true ↔ Readable format selfAddr context ∧
      totalBefore format selfAddr context % 2^64 = totalAfter format selfAddr context % 2^64 := by
  constructor
  · intro accepted
    obtain ⟨selfAddr',mintAuth',supply',pre,post,given',summed,why⟩ := predicate_cases format accepted
    cases given.symm.trans given'
    obtain ⟨readable,before,after⟩ := sum_some format summed
    rcases why with rfl | ⟨_,signed,_⟩
    · exact ⟨readable,before.symm.trans after⟩
    · exact (unsigned ((signed_iff mintAuth context).mp signed)).elim
  · intro given
    obtain ⟨readable,same⟩ := given
    obtain ⟨pre,post,summed⟩ := sum_total format readable
    obtain ⟨_,before,after⟩ := sum_some format summed
    exact predicate_balanced format given summed (UInt64.toNat_inj.mp (before.trans (same.trans after.symm)))

-- What an unsigned transaction could gain or lose is a multiple of 2^64.
theorem supply_conserved_iff (format : TokenFormat ed) (params : List ExpandedParam) (context : PredicateContext) :
    Conserves format params context ↔
      ∀ selfAddr mintAuth supply, readParams format params = some (selfAddr,mintAuth,supply) →
        ¬Signed ed mintAuth context → Readable format selfAddr context →
        totalBefore format selfAddr context % 2^64 = totalAfter format selfAddr context % 2^64 →
        totalBefore format selfAddr context = totalAfter format selfAddr context := by
  constructor
  · intro conserves selfAddr mintAuth supply given unsigned readable same
    exact conserves selfAddr mintAuth supply given ((unsigned_accepted given unsigned).mpr ⟨readable,same⟩) unsigned
  · intro apart selfAddr mintAuth supply given accepted unsigned
    obtain ⟨readable,same⟩ := (unsigned_accepted given unsigned).mp accepted
    exact apart selfAddr mintAuth supply given unsigned readable same

end Token

open Token

namespace TokenExample
def usdx : Address := ⟨"/token/usdx",by decide⟩
def alice : Address := ⟨"/token/usdx/alice.eth",by decide⟩
def bob : Address := ⟨"/token/usdx/bob.eth",by decide⟩

def ed : Ed25519 := SignatureExample.ed
def mintKey : ed.PublicKey := SignatureExample.publicKey
instance : DecidableEq ed.PublicKey := inferInstanceAs (DecidableEq Bytes)

def packedKey : Bytes := 0xc4 :: 0x20 :: SignatureExample.publicKey

def format : TokenFormat ed where
  address := Wire.readAddress
  publicKey bytes := if bytes = packedKey then some mintKey else none
  uint bytes := (MessagePack.readUint bytes).map UInt64.ofNat

def amount (n : Nat) : Bytes := MessagePack.uint n
def anyone : PredicateTree := .id ⟨.inline [],[]⟩
def params (supply : Nat) : List ExpandedParam :=
  [.inline (Wire.address usdx),.inline packedKey,.accountRef usdx (amount supply)]

-- Two wallets of half the range each are opened, and nobody has signed.
def windfall : PredicateContext :=
  ⟨∅,((∅ : BTreeMap Address ExpandedAccountChange).insert alice (.createAccount ⟨amount (2^63),anyone⟩)).insert bob
    (.createAccount ⟨amount (2^63),anyone⟩)⟩
end TokenExample

theorem wrapped_sum_mints : ¬Conserves TokenExample.format (TokenExample.params 0) TokenExample.windfall := by
  intro conserves
  have unsigned : ¬Signed TokenExample.ed TokenExample.mintKey TokenExample.windfall := by
    rw [← signed_iff]
    decide
  have same := conserves TokenExample.usdx TokenExample.mintKey 0 (by decide) (by decide) unsigned
  revert same
  decide

end AnomaAlpha
