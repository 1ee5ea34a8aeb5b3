import AnomaAlpha.Token

namespace AnomaAlpha
open Stdpred Token

section
variable {ed : Ed25519} {key : ed.PublicKey} {context : PredicateContext}

-- What an intent holds under the key: nothing that is a signature, or one that is
-- valid or not.
def verdict (key : ed.PublicKey) (hash : Multihash) (calldata : Calldata) : Option Bool :=
  (calldata[ed.calldataKey key]?.bind ed.signatureFromBytes).map fun signature => ed.verify key hash.toBytes signature

def Holds (key : ed.PublicKey) (context : PredicateContext) (valid : Bool) (hash : Multihash) : Prop :=
  ∃ calldata, context.calldata[hash]? = some calldata ∧ verdict key hash calldata = some valid

def Unmasked (key : ed.PublicKey) (context : PredicateContext) : Prop :=
  ∀ wrong, Holds key context false wrong → Signed ed key context →
    ∃ right, Holds key context true right ∧ compare right wrong = .lt

theorem signed_holds : Signed ed key context ↔ ∃ hash, Holds key context true hash := by
  constructor
  · intro given
    obtain ⟨hash,calldata,bytes,signature,held,found,parsed,verified⟩ := given
    exact ⟨hash,calldata,held,by simp [verdict,found,parsed,verified]⟩
  · intro given
    obtain ⟨hash,calldata,held,told⟩ := given
    obtain ⟨signature,taken,verified⟩ := Option.map_eq_some_iff.mp told
    obtain ⟨bytes,found,parsed⟩ := Option.bind_eq_some_iff.mp taken
    exact ⟨hash,calldata,bytes,signature,held,found,parsed,verified⟩

theorem search_first (key : ed.PublicKey) (entries : List (Multihash × Calldata)) :
    searchSignature ed key (ed.calldataKey key) entries =
      (entries.findSome? fun entry => verdict key entry.1 entry.2).getD false := by
  induction entries with
  | nil => rfl
  | cons entry entries ih =>
      obtain ⟨hash,calldata⟩ := entry
      rw [searchSignature,List.findSome?_cons,verdict]
      cases calldata[ed.calldataKey key]? with
      | none => exact ih
      | some bytes => cases parsed : ed.signatureFromBytes bytes <;> simp [parsed,ih]

theorem search_decided {valid : Bool} (decided : (context.calldata.toList.findSome? fun entry => verdict key entry.1 entry.2) =
      some valid) : ∃ hash, Holds key context valid hash ∧
        ∀ other said, Holds key context said other → other = hash ∨ compare hash other = .lt := by
  obtain ⟨front,⟨hash,calldata⟩,back,split,told,silent⟩ := List.findSome?_eq_some_iff.mp decided
  have entries := fun (h : Multihash) (c : Calldata) =>
    (Std.ExtTreeMap.mem_toList_iff_getElem?_eq_some (t:=context.calldata) (k:=h) (v:=c))
  refine ⟨hash,⟨calldata,(entries hash calldata).mp (by simp [split]),told⟩,?_⟩
  intro other said given
  obtain ⟨calldata',held,told'⟩ := given
  have member := (entries other calldata').mpr held
  have sorted := Std.ExtTreeMap.ordered_keys_toList (t:=context.calldata)
  rw [split] at member sorted
  rcases List.mem_append.mp member with early | late
  · cases (silent _ early).symm.trans told'
  · rcases List.mem_cons.mp late with same | behind
    · exact .inl (congrArg Prod.fst same)
    · exact .inr ((List.pairwise_cons.mp (List.pairwise_append.mp sorted).2.1).1 _ behind)

theorem search_silent_none (silent : (context.calldata.toList.findSome? fun entry => verdict key entry.1 entry.2) = none)
    {valid : Bool} {hash : Multihash} : ¬Holds key context valid hash := by
  intro given
  obtain ⟨calldata,held,told⟩ := given
  have member := Std.ExtTreeMap.mem_toList_iff_getElem?_eq_some.mpr held
  have nothing := List.findSome?_eq_none_iff.mp silent _ member
  cases nothing.symm.trans told

theorem holds_one {hash : Multihash} (right : Holds key context true hash) : ¬Holds key context false hash := by
  intro given
  obtain ⟨calldata,held,told⟩ := given
  obtain ⟨calldata',held',told'⟩ := right
  cases held.symm.trans held'
  cases told.symm.trans told'

theorem search_unmasked (key : ed.PublicKey) (context : PredicateContext) :
    (searchSignature ed key (ed.calldataKey key) context.calldata.toList = true ↔ Signed ed key context) ↔
      Unmasked key context := by
  rw [search_first]
  cases decided : context.calldata.toList.findSome? fun entry => verdict key entry.1 entry.2 with
  | none =>
      refine ⟨fun _ wrong held => (search_silent_none decided held).elim,fun _ => ?_⟩
      rw [signed_holds]
      exact ⟨nofun,fun ⟨_,held⟩ => (search_silent_none decided held).elim⟩
  | some valid =>
      obtain ⟨hash,held,first⟩ := search_decided decided
      cases valid with
      | true =>
          refine ⟨fun _ wrong said _ => ?_,fun _ => ⟨fun _ => signed_holds.mpr ⟨hash,held⟩,fun _ => rfl⟩⟩
          rcases first wrong false said with rfl | later
          · exact (holds_one held said).elim
          · exact ⟨hash,held,later⟩
      | false =>
          constructor
          · intro same wrong _ signed
            cases same.mpr signed
          · intro unmasked
            refine ⟨nofun,fun signed => ?_⟩
            obtain ⟨right,said,earlier⟩ := unmasked hash held signed
            rcases first right true said with rfl | later
            · exact (holds_one said held).elim
            · exact (Std.OrientedCmp.not_lt_of_lt earlier later).elim

end

theorem signature_found_iff (ed : Ed25519) (param : ExpandedParam) (pubkey : ed.PublicKey) (context : PredicateContext)
    (known : ed.fromBytes param.data = some pubkey) :
    ((requireEd25519Signature ed [param] context = some true ↔ Signed ed pubkey context) ∧
      requireEd25519Signature ed [param] context = some (isSignedByMintAuth ed pubkey context)) ↔
    Unmasked pubkey context := by
  have answered : requireEd25519Signature ed [param] context =
      some (searchSignature ed pubkey (ed.calldataKey pubkey) context.calldata.toList) := by
    simp only [requireEd25519Signature,known]
    rfl
  have token := signed_iff pubkey context
  rw [answered,Option.some_inj,Option.some_inj,search_unmasked]
  refine ⟨And.left,fun unmasked => ⟨unmasked,?_⟩⟩
  rw [Bool.eq_iff_iff,token]
  exact (search_unmasked pubkey context).mpr unmasked

namespace MaskingExample
def key : SignatureExample.ed.PublicKey := SignatureExample.publicKey
def hash : Multihash := ⟨sha3Code,SignatureExample.signingDigest⟩

def forged : Calldata := (∅ : Calldata).insert (Base58.encode SignatureExample.publicKey) (List.replicate 64 0)

-- Next to the signed intent there is one of somebody else, under a given digest.
def beside (digest : UInt8) : PredicateContext :=
  ⟨((∅ : BTreeMap Multihash Calldata).insert hash SignatureExample.signedCalldata).insert
    ⟨sha3Code,List.replicate 32 digest⟩ forged,∅⟩
end MaskingExample

theorem later_forgery_harmless : Unmasked MaskingExample.key (MaskingExample.beside 0xff) :=
  (signature_found_iff SignatureExample.ed (.inline SignatureExample.publicKey) MaskingExample.key
    (MaskingExample.beside 0xff) rfl).mp
    ⟨⟨fun _ => (signed_iff _ _).mp (by decide),fun _ => by decide⟩,by decide⟩

theorem earlier_forgery_masks :
    SignatureExample.ed.fromBytes (ExpandedParam.data (.inline SignatureExample.publicKey : ExpandedParam)) = some MaskingExample.key ∧
    Signed SignatureExample.ed MaskingExample.key (MaskingExample.beside 0) ∧
    requireEd25519Signature SignatureExample.ed [.inline SignatureExample.publicKey] (MaskingExample.beside 0) = some false ∧
    isSignedByMintAuth SignatureExample.ed MaskingExample.key (MaskingExample.beside 0) = true :=
  ⟨rfl,(signed_iff _ _).mp (by decide),by decide,by decide⟩

end AnomaAlpha
