import AnomaAlpha.Collect
import AnomaAlpha.Stdpred
import AnomaAlpha.Wire

namespace AnomaAlpha
open Collect Stdpred OrderedMap

def Ed25519.calldataKey (ed : Ed25519) (pubkey : ed.PublicKey) : String := ed.bs58.encode (ed.asBytes pubkey)

-- How the tests and the token sign an intent.
def Intent.sign (w : Hashing) (ed : Ed25519) (keypair : ed.Keypair) (i : Intent) : Intent :=
  let (hash,i) := i.signingHash w
  let signature := ed.signatureToBytes (ed.sign keypair hash.toBytes)
  {i with calldata := i.calldata.insert (ed.calldataKey (ed.publicKey keypair)) signature}

section
variable {w : Hashing} {state : View} {tx : Transaction} {context : PredicateContext}

def gather (w : Hashing) (intents : List Intent) : BTreeMap Multihash Calldata :=
  Std.ExtTreeMap.ofList (intents.map fun intent => ((intent.hash w).1,intent.calldata)) compare

theorem context_calldata (gathered : predicateContext w state tx = .ok context) :
    context.calldata = gather w tx.intents := by
  obtain ⟨proposals,_,finished⟩ := Fallible.bind_ok.mp gathered
  obtain rfl := Except.ok.inj finished
  rfl

theorem gather_append (first second : List Intent) (hash : Multihash) :
    (gather w (first ++ second))[hash]? = ((gather w second)[hash]?).or (gather w first)[hash]? := by
  rw [gather,List.map_append,get_ofList_append]
  rfl

theorem gather_singleton (i : Intent) (hash : Multihash) :
    (gather w [i])[hash]? = if (i.hash w).1 = hash then some i.calldata else none := by
  rw [gather,List.map_singleton,Std.ExtTreeMap.ofList_singleton,get_insert,Std.ExtTreeMap.getElem?_empty]

theorem gather_mem {intents : List Intent} {hash : Multihash} {calldata : Calldata}
    (found : (gather w intents)[hash]? = some calldata) :
    ∃ i ∈ intents, (i.hash w).1 = hash ∧ i.calldata = calldata := by
  obtain ⟨i,member,same⟩ := List.mem_map.mp (get_ofList_mem found)
  exact ⟨i,member,Prod.mk.inj same⟩

theorem gather_none {intents : List Intent} {hash : Multihash} (absent : (gather w intents)[hash]? = none) :
    ∀ i ∈ intents, (i.hash w).1 ≠ hash :=
  fun _ member => get_ofList_none absent _ (List.mem_map_of_mem member)

-- One intent holds a signature under the key: it is found under the hash of the
-- intent, unless a later intent has taken its place in the map.
theorem search_context {ed : Ed25519} (pubkey : ed.PublicKey) {key : String} {front back : List Intent} {i : Intent}
    {bytes : Bytes} {signature : ed.Signature} (gathered : predicateContext w state tx = .ok context)
    (split : tx.intents = front ++ i :: back) (unsigned : ∀ other ∈ front ++ back, other.calldata[key]? = none)
    (held : i.calldata[key]? = some bytes) (parsed : ed.signatureFromBytes bytes = some signature) :
    searchSignature ed pubkey key context.calldata.toList = true ↔
      ed.verify pubkey (i.hash w).1.toBytes signature = true ∧ ∀ other ∈ back, (other.hash w).1 ≠ (i.hash w).1 := by
  have lookup : ∀ hash, context.calldata[hash]? = (((gather w back)[hash]?).or
      (if (i.hash w).1 = hash then some i.calldata else none)).or (gather w front)[hash]? := by
    intro hash
    rw [context_calldata gathered,split,← List.singleton_append,gather_append,gather_append,gather_singleton]
  have only : ∀ hash calldata, context.calldata[hash]? = some calldata → calldata[key]? ≠ none →
      hash = (i.hash w).1 := by
    intro hash calldata found signed
    rw [context_calldata gathered] at found
    obtain ⟨other,member,rfl,rfl⟩ := gather_mem found
    rw [split,List.mem_append,List.mem_cons] at member
    rcases member with before | rfl | after
    · exact absurd (unsigned other (List.mem_append_left _ before)) signed
    · rfl
    · exact absurd (unsigned other (List.mem_append_right _ after)) signed
  rw [search_only ed pubkey only,lookup,if_pos rfl]
  cases taken : (gather w back)[(i.hash w).1]? with
  | some calldata =>
      obtain ⟨other,member,same,rfl⟩ := gather_mem taken
      have replaced : ¬ ∀ other ∈ back, (other.hash w).1 ≠ (i.hash w).1 := fun apart => apart other member same
      simp [unsigned other (List.mem_append_right _ member),replaced]
  | none =>
      rw [and_iff_left (gather_none taken)]
      simp [held,parsed]

end

theorem fresh_hash (w : Hashing) (i : Intent) :
    (i.fresh.hash w).1 = w.wrap (w.encodeIntent i.recentBlockhash i.expectations i.calldata) := rfl

theorem wrap_bytes (w : Hashing) {m n : Bytes} : (w.wrap m).toBytes = (w.wrap n).toBytes ↔ w.sha3 m = w.sha3 n := by
  simp [Multihash.toBytes_wrap]

theorem signed_fields (w : Hashing) (ed : Ed25519) (keypair : ed.Keypair) (i : Intent) :
    (i.sign w ed keypair).recentBlockhash = i.recentBlockhash ∧ (i.sign w ed keypair).expectations = i.expectations ∧
    (i.sign w ed keypair).calldata[ed.calldataKey (ed.publicKey keypair)]? =
      some (ed.signatureToBytes (ed.sign keypair (i.signingHash w).1.toBytes)) := by
  unfold Intent.sign Intent.signingHash Intent.getOrInit
  cases i.hashCache <;> simp

-- What is relied on: keys and signatures survive their byte form, and the
-- signature of a message is accepted for that message only.
structure Ed25519.Sound (ed : Ed25519) (keypair : ed.Keypair) (message : Bytes) : Prop where
  key : ed.fromBytes (ed.asBytes (ed.publicKey keypair)) = some (ed.publicKey keypair)
  signature : ed.signatureFromBytes (ed.signatureToBytes (ed.sign keypair message)) = some (ed.sign keypair message)
  verifies : ∀ other, ed.verify (ed.publicKey keypair) other (ed.sign keypair message) = true ↔ other = message

-- `signing_hash` fills the cache that `hash` reads, but the cache stays behind
-- when the transaction is sent. The validator looks for a signature of the hash
-- of the whole intent and finds one of the hash without calldata.
theorem signature_verifies_iff (w : Hashing) (ed : Ed25519) (encode : Transaction → Bytes)
    (decode : Bytes → Option Transaction) (keypair : ed.Keypair) (recentBlockhash : Multihash)
    (expectations : PredicateTree) (calldata : Calldata) (front back : List Intent)
    (proposals : BTreeMap Address AccountChange) (state : View) (param : ExpandedParam) (intent signed : Intent)
    (tx received : Transaction) (context : PredicateContext)
    (built : intent = .withCalldata recentBlockhash expectations calldata) (signing : signed = intent.sign w ed keypair)
    (sound : ed.Sound keypair (intent.signingHash w).1.toBytes) (put : tx = .new (front ++ signed :: back) proposals)
    (unsigned : ∀ other ∈ front ++ back, other.calldata[ed.calldataKey (ed.publicKey keypair)]? = none)
    (decodes : decode (encode tx) = some tx.fresh) (sent : decode (encode tx) = some received)
    (gathered : predicateContext w state received = .ok context)
    (asked : param.data = ed.asBytes (ed.publicKey keypair)) :
    requireEd25519Signature ed [param] context = some true ↔
      w.sha3 (w.encodeIntent recentBlockhash expectations signed.calldata) =
        w.sha3 (w.encodeHash recentBlockhash ++ w.encodeTree expectations) ∧
      ∀ other ∈ back, w.sha3 (w.encodeIntent other.recentBlockhash other.expectations other.calldata) ≠
        w.sha3 (w.encodeIntent recentBlockhash expectations signed.calldata) := by
  obtain rfl := Option.some.inj (decodes.symm.trans sent)
  obtain ⟨sameBlock,sameTree,held⟩ := signed_fields w ed keypair intent
  rw [← signing] at sameBlock sameTree held
  have split : tx.fresh.intents = front.map Intent.fresh ++ signed.fresh :: back.map Intent.fresh := by
    simp [put,Transaction.fresh,Transaction.new]
  have quiet : ∀ other ∈ front.map Intent.fresh ++ back.map Intent.fresh,
      other.calldata[ed.calldataKey (ed.publicKey keypair)]? = none := by
    rw [← List.map_append,List.forall_mem_map]
    exact unsigned
  have message : (intent.signingHash w).1 =
      w.wrap (w.encodeHash recentBlockhash ++ w.encodeTree expectations) := by
    rw [built]
    rfl
  have whole : (signed.fresh.hash w).1 = w.wrap (w.encodeIntent recentBlockhash expectations signed.calldata) := by
    rw [fresh_hash,sameBlock,sameTree,built]
    rfl
  have searched := search_context (ed.publicKey keypair) gathered split quiet held sound.signature
  simp only [requireEd25519Signature,asked,sound.key,Option.some.injEq]
  rw [← Ed25519.calldataKey,searched,sound.verifies,whole,message,wrap_bytes]
  simp [fresh_hash,Hashing.wrap]

namespace SignatureExample
def publicKey : Bytes :=
  [0xd7,0x5a,0x98,0x01,0x82,0xb1,0x0a,0xb7,0xd5,0x4b,0xfe,0xd3,0xc9,0x64,0x07,0x3a,
   0x0e,0xe1,0x72,0xf3,0xda,0xa6,0x23,0x25,0xaf,0x02,0x1a,0x68,0xf7,0x07,0x51,0x1a]

def recentBlockhash : Multihash := ⟨sha3Code,
  [0xa7,0xff,0xc6,0xf8,0xbf,0x1e,0xd7,0x66,0x51,0xc1,0x47,0x56,0xa0,0x61,0xd6,0x62,
   0xf5,0x80,0xff,0x4d,0xe4,0x3b,0x49,0xfa,0x82,0xd8,0x0a,0x4b,0x80,0xf8,0x43,0x4a]⟩

def expectations : PredicateTree := .id ⟨.accountRef stdaddr "require_ed25519_signature",[.inline publicKey]⟩

def signingDigest : Bytes :=
  [0x3a,0x70,0x72,0xdb,0xc5,0x99,0x55,0x38,0xda,0xfd,0x68,0x13,0x58,0x35,0xf3,0x3d,
   0xc1,0xd4,0x5d,0x5e,0x8b,0x2a,0x29,0x9e,0x60,0x86,0x02,0x9e,0xbe,0xae,0x17,0xba]

def message : Bytes := 0x16 :: 0x20 :: signingDigest

def signature : Bytes :=
  [0xc4,0xfe,0x5b,0xbb,0xca,0xe6,0xe8,0xfb,0xb4,0x02,0x90,0x23,0x51,0x70,0x53,0xba,
   0x21,0x1d,0x63,0x6d,0xad,0x38,0x4d,0xf0,0x13,0x1a,0xa0,0x8a,0x94,0xf4,0xf6,0xc5,
   0xc4,0x4b,0x40,0x8d,0x3b,0xe0,0x7d,0x9e,0x5e,0x0b,0xa6,0x86,0x20,0xfa,0x81,0xe7,
   0xbf,0xd0,0xe8,0xdb,0x99,0x5c,0xf2,0xd8,0xf8,0xcd,0x6e,0x74,0xe5,0x63,0xe0,0x04]

def signedDigest : Bytes :=
  [0x7d,0x87,0xf3,0x7a,0xc8,0x7f,0x8a,0x1e,0x1b,0x33,0x7d,0x9d,0x47,0x6e,0x49,0x88,
   0x5f,0xcc,0x7d,0x95,0x5f,0x13,0x93,0xed,0x02,0x6e,0xb3,0xee,0x06,0xf3,0x2d,0x9f]

def signedCalldata : Calldata := (∅ : Calldata).insert (Base58.encode publicKey) signature

def sha3 (text : Bytes) : Bytes :=
  if text = Wire.multihash recentBlockhash ++ Wire.tree expectations then signingDigest
  else if text = Wire.intent recentBlockhash expectations signedCalldata then signedDigest
  else List.replicate 32 0

def hashing : Hashing := Wire.hashing sha3 <| by
  intro text
  unfold sha3
  split
  · rfl
  · split <;> rfl

-- The key pair of the first test vector of the scheme, which signs `message`.
def ed : Ed25519 where
  Keypair := Unit
  PublicKey := Bytes
  Signature := Bytes
  publicKey _ := publicKey
  sign _ text := if text = message then signature else []
  asBytes key := key
  fromBytes key := if key = publicKey then some key else none
  signatureToBytes signed := signed
  signatureFromBytes signed := if signed.length = 64 then some signed else none
  verify key text signed := decide (key = publicKey ∧ text = message ∧ signed = signature)
  bs58 := Base58.bitcoin

def intent : Intent := .withCalldata recentBlockhash expectations ∅
def signed : Intent := intent.sign hashing ed ()
def tx : Transaction := .new [signed] ∅
def decode (bytes : Bytes) : Option Transaction := if bytes = Wire.transaction tx then some tx.fresh else none
def context : PredicateContext := ⟨gather hashing tx.fresh.intents,∅⟩

theorem message_signed : (intent.signingHash hashing).1.toBytes = message := by decide +kernel

theorem sound : ed.Sound () (intent.signingHash hashing).1.toBytes := by
  rw [message_signed]
  exact ⟨rfl,rfl,fun other => by simp [ed]⟩

end SignatureExample

theorem signed_digest_differs : requireEd25519Signature SignatureExample.ed [.inline SignatureExample.publicKey]
    SignatureExample.context ≠ some true := by
  intro accepted
  have exactly := signature_verifies_iff SignatureExample.hashing SignatureExample.ed Wire.transaction
    SignatureExample.decode () SignatureExample.recentBlockhash SignatureExample.expectations ∅ [] [] ∅
    (fun _ => none) (.inline SignatureExample.publicKey) SignatureExample.intent SignatureExample.signed
    SignatureExample.tx SignatureExample.tx.fresh SignatureExample.context rfl rfl SignatureExample.sound rfl (by simp)
    (if_pos rfl) (if_pos rfl) rfl rfl
  have collision := (exactly.mp accepted).1
  revert collision
  decide +kernel

theorem decoded_signature_refused :
    SignatureExample.ed.Sound () (SignatureExample.intent.signingHash SignatureExample.hashing).1.toBytes ∧
    SignatureExample.decode (Wire.transaction SignatureExample.tx) = some SignatureExample.tx.fresh ∧
    predicateContext SignatureExample.hashing (fun _ => none) SignatureExample.tx.fresh =
      .ok SignatureExample.context ∧
    requireEd25519Signature SignatureExample.ed [.inline SignatureExample.publicKey] SignatureExample.context =
      some false :=
  ⟨SignatureExample.sound,if_pos rfl,rfl,by decide +kernel⟩

end AnomaAlpha
