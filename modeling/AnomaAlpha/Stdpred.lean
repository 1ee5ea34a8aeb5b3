import AnomaAlpha.Transaction

namespace AnomaAlpha

-- What is taken from `ed25519_dalek` and `bs58`.
structure Ed25519 where
  Keypair : Type
  PublicKey : Type
  Signature : Type
  publicKey : Keypair → PublicKey
  sign : Keypair → Bytes → Signature
  asBytes : PublicKey → Bytes
  fromBytes : Bytes → Option PublicKey
  signatureToBytes : Signature → Bytes
  signatureFromBytes : Bytes → Option Signature
  verify : PublicKey → Bytes → Signature → Bool
  bs58 : Base58.Encoding

-- The predicates of the standard library. One that panics has no answer.
namespace Stdpred

def stdaddr : Address := ⟨"/stdpred/v1",by decide⟩

def constant (fromSlice : Bytes → Option Bool) (params : List ExpandedParam) (_ : PredicateContext) : Option Bool :=
  match params with
  | [param] => fromSlice param.data
  | _ => none

-- `immutable_state` and `immutable_predicates` differ in the change they match.
def immutable (forbidden : ExpandedAccountChange → Bool) (decode : Bytes → Option Address)
    (params : List ExpandedParam) (context : PredicateContext) : Option Bool :=
  match params with
  | [param] => match decode param.data with
    | some target => match context.proposals[target]? with
      | some change => if forbidden change then some false else some true
      | none => some true
    | none => none
  | _ => none

def immutableState : (Bytes → Option Address) → List ExpandedParam → PredicateContext → Option Bool :=
  immutable fun change => match change with
    | .replaceState _ _ => true
    | _ => false

def immutablePredicates : (Bytes → Option Address) → List ExpandedParam → PredicateContext → Option Bool :=
  immutable fun change => match change with
    | .replacePredicates _ _ => true
    | _ => false

theorem immutable_allows {forbidden : ExpandedAccountChange → Bool} {decode : Bytes → Option Address} {data : Bytes}
    {target : Address} {context : PredicateContext} {change : ExpandedAccountChange} (decodes : decode data = some target)
    (held : context.proposals[target]? = some change)
    (allowed : immutable forbidden decode [.inline data] context = some true) : forbidden change = false := by
  cases answer : forbidden change with
  | false => rfl
  | true => simp [immutable,ExpandedParam.data,decodes,held,answer] at allowed

-- The loop of `require_ed25519_signature`: the first entry that parses decides.
def searchSignature (ed : Ed25519) (pubkey : ed.PublicKey) (expectedCalldataKey : String) :
    List (Multihash × Calldata) → Bool
  | [] => false
  | (hash,calldata) :: rest => match calldata[expectedCalldataKey]? with
    | some signature => match ed.signatureFromBytes signature with
      | some signature => ed.verify pubkey hash.toBytes signature
      | none => searchSignature ed pubkey expectedCalldataKey rest
    | none => searchSignature ed pubkey expectedCalldataKey rest

def requireEd25519Signature (ed : Ed25519) (params : List ExpandedParam) (context : PredicateContext) : Option Bool :=
  match params with
  | [param] => match ed.fromBytes param.data with
    | some pubkey => some (searchSignature ed pubkey (ed.bs58.encode (ed.asBytes pubkey)) context.calldata.toList)
    | none => none
  | _ => none

section
variable (ed : Ed25519) (pubkey : ed.PublicKey) {key : String}

theorem search_silent {entries : List (Multihash × Calldata)} (silent : ∀ entry ∈ entries, entry.2[key]? = none)
    (rest : List (Multihash × Calldata)) :
    searchSignature ed pubkey key (entries ++ rest) = searchSignature ed pubkey key rest := by
  induction entries with
  | nil => rfl
  | cons entry entries ih =>
      have here := silent entry (by simp)
      rw [List.cons_append,searchSignature,here]
      exact ih fun other member => silent other (List.mem_cons_of_mem _ member)

theorem search_none {entries : List (Multihash × Calldata)} (silent : ∀ entry ∈ entries, entry.2[key]? = none) :
    searchSignature ed pubkey key entries = false := by
  have searched := search_silent ed pubkey silent []
  rwa [List.append_nil] at searched

theorem search_only {m : BTreeMap Multihash Calldata} {hash : Multihash}
    (only : ∀ other calldata, m[other]? = some calldata → calldata[key]? ≠ none → other = hash) :
    searchSignature ed pubkey key m.toList =
      match (m[hash]?.bind (·[key]?)).bind ed.signatureFromBytes with
      | some signature => ed.verify pubkey hash.toBytes signature
      | none => false := by
  have apart : ∀ entry ∈ m.toList, entry.1 ≠ hash → entry.2[key]? = none := by
    intro entry member other
    by_contra held
    exact other (only entry.1 entry.2 (Std.ExtTreeMap.mem_toList_iff_getElem?_eq_some.mp member) held)
  cases found : m[hash]? with
  | none =>
      have silent : ∀ entry ∈ m.toList, entry.2[key]? = none := by
        intro entry member
        apply apart entry member
        intro same
        subst same
        rw [Std.ExtTreeMap.mem_toList_iff_getElem?_eq_some.mp member] at found
        cases found
      exact search_none ed pubkey silent
  | some data =>
      obtain ⟨front,back,split⟩ :=
        List.append_of_mem (Std.ExtTreeMap.mem_toList_iff_getElem?_eq_some.mpr found)
      have distinct := OrderedMap.nodup_keys m
      rw [split] at apart distinct ⊢
      rw [List.map_append,List.map_cons,List.nodup_append,List.nodup_cons] at distinct
      have before : ∀ entry ∈ front, entry.2[key]? = none := fun entry member =>
        apart entry (by simp [member]) (distinct.2.2 _ (List.mem_map_of_mem member) _ (by simp))
      have after : ∀ entry ∈ back, entry.2[key]? = none := by
        intro entry member
        apply apart entry (by simp [member])
        intro same
        exact distinct.2.1.1 (List.mem_map.mpr ⟨entry,member,same⟩)
      have rest := search_none ed pubkey after
      rw [search_silent ed pubkey before,searchSignature,Option.bind_some]
      cases data[key]? with
      | none => exact rest
      | some bytes => cases parsed : ed.signatureFromBytes bytes <;> simp [parsed,rest]

end

end Stdpred
end AnomaAlpha
