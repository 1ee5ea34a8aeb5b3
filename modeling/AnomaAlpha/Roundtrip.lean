import AnomaAlpha.Host
import AnomaAlpha.Signature

namespace AnomaAlpha
open Collect Execution

inductive Call where
  | hash
  | signingHash
  | insert (key : String) (value : Bytes)
  | clone

-- A clone takes the filled cell with it.
def Intent.call (w : Hashing) (i : Intent) : Call → Intent
  | .hash => (i.hash w).2
  | .signingHash => (i.signingHash w).2
  | .insert key value => {i with calldata := i.calldata.insert key value}
  | .clone => i

def Call.calldata (data : Calldata) : Call → Calldata
  | .insert key value => data.insert key value
  | _ => data

-- `Intent::new` is `Intent::with_calldata` on no calldata.
structure History where
  recentBlockhash : Multihash
  expectations : PredicateTree
  calldata : Calldata
  calls : List Call

inductive Hashed where
  | signing
  | whole (calldata : Calldata)

def firstHashed : Calldata → List Call → Option Hashed
  | _,[] => none
  | data,.hash :: _ => some (.whole data)
  | _,.signingHash :: _ => some .signing
  | data,.insert key value :: calls => firstHashed (data.insert key value) calls
  | data,.clone :: calls => firstHashed data calls

def stages : Calldata → List Call → List Calldata
  | data,[] => [data]
  | data,call :: calls => data :: stages (call.calldata data) calls

namespace History

def build (w : Hashing) (h : History) : Intent :=
  h.calls.foldl (Intent.call w) (.withCalldata h.recentBlockhash h.expectations h.calldata)

def final (h : History) : Calldata := h.calls.foldl Call.calldata h.calldata

def message (w : Hashing) (h : History) : Hashed → Bytes
  | .signing => w.encodeHash h.recentBlockhash ++ w.encodeTree h.expectations
  | .whole data => w.encodeIntent h.recentBlockhash h.expectations data

-- Nothing was hashed, or `hash` came first and the calldata is still the same.
def Settled (h : History) : Prop := ∀ first, firstHashed h.calldata h.calls = some first → first = .whole h.final

-- The hash tells the intent as it was sent from everything else that can have
-- been hashed on the way to it.
structure Distinct (w : Hashing) (h : History) : Prop where
  signing : w.sha3 (h.message w .signing) ≠ w.sha3 (h.message w (.whole h.final))
  calldata : ∀ data ∈ stages h.calldata h.calls,
    w.sha3 (h.message w (.whole data)) = w.sha3 (h.message w (.whole h.final)) → data = h.final

end History

theorem call_hashed (w : Hashing) {i : Intent} {cached : Multihash} (filled : i.hashCache = some cached) (call : Call) :
    i.call w call = {i with calldata := call.calldata i.calldata} := by
  obtain ⟨block,tree,data,cell⟩ := i
  cases filled
  cases call <;> rfl

theorem calls_hashed (w : Hashing) (i : Intent) {cached : Multihash} (filled : i.hashCache = some cached)
    (calls : List Call) : calls.foldl (Intent.call w) i = {i with calldata := calls.foldl Call.calldata i.calldata} := by
  induction calls generalizing i with
  | nil => rfl
  | cons call calls ih =>
      simp only [List.foldl_cons]
      rw [call_hashed w filled call]
      exact ih _ filled

-- The first call that hashes decides the cell; everything else only moves the
-- calldata.
theorem build_exact (w : Hashing) (h : History) : h.build w =
    ⟨h.recentBlockhash,h.expectations,h.final,
      (firstHashed h.calldata h.calls).map fun first => w.wrap (h.message w first)⟩ := by
  obtain ⟨block,tree,data,calls⟩ := h
  unfold History.build History.final
  induction calls generalizing data with
  | nil => rfl
  | cons call calls ih =>
      simp only [List.foldl_cons]
      cases call with
      | hash => exact calls_hashed w _ rfl calls
      | signingHash => exact calls_hashed w _ rfl calls
      | insert key value => exact ih _
      | clone => exact ih _

theorem firstHashed_stage {data stage : Calldata} {calls : List Call}
    (first : firstHashed data calls = some (.whole stage)) : stage ∈ stages data calls := by
  induction calls generalizing data with
  | nil => cases first
  | cons call calls ih =>
      cases call with
      | hash =>
          cases first
          exact List.mem_cons_self
      | signingHash => cases first
      | insert key value => exact List.mem_cons_of_mem _ (ih first)
      | clone => exact List.mem_cons_of_mem _ (ih first)

theorem built_hash (w : Hashing) (h : History) : ((h.build w).hash w).1 =
    w.wrap (h.message w ((firstHashed h.calldata h.calls).getD (.whole h.final))) := by
  rw [build_exact]
  unfold Intent.hash Intent.getOrInit
  cases firstHashed h.calldata h.calls <;> rfl

theorem built_fresh_hash (w : Hashing) (h : History) :
    ((h.build w).fresh.hash w).1 = w.wrap (h.message w (.whole h.final)) := by
  rw [fresh_hash,build_exact]
  rfl

theorem settled_hash {w : Hashing} {h : History} (distinct : h.Distinct w) :
    ((h.build w).hash w).1 = ((h.build w).fresh.hash w).1 ↔ h.Settled := by
  rw [built_hash,built_fresh_hash]
  unfold History.Settled
  cases hashed : firstHashed h.calldata h.calls with
  | none => simp
  | some first =>
      simp only [Option.getD_some,Option.some.injEq,forall_eq']
      constructor
      · intro same
        have digests : w.sha3 (h.message w first) = w.sha3 (h.message w (.whole h.final)) :=
          congrArg Multihash.digest same
        cases first with
        | signing => exact absurd digests distinct.signing
        | whole stage => rw [distinct.calldata stage (firstHashed_stage hashed) digests]
      · intro same
        rw [same]

-- Execution reads the cells of the intents only through `hash`.
theorem execute_fresh (rt : Runtime) (sch : Scheduler) {tx : Transaction} (state cache : View)
    (same : ∀ i ∈ tx.intents, (i.hash rt.toHashing).1 = (i.fresh.hash rt.toHashing).1) :
    execute rt sch tx state cache = execute rt sch tx.fresh state cache := by
  have calldata : (tx.intents.map fun i => ((i.hash rt.toHashing).1,i.calldata)) =
      tx.fresh.intents.map fun i => ((i.hash rt.toHashing).1,i.calldata) := by
    unfold Transaction.fresh
    rw [List.map_map]
    apply List.map_congr_left
    intro i member
    rw [same i member]
    rfl
  have context : predicateContext rt.toHashing state tx = predicateContext rt.toHashing state tx.fresh := by
    unfold predicateContext
    rw [calldata]
    rfl
  have intents : ∀ ctx, intentsPredicates state ctx tx = intentsPredicates state ctx tx.fresh := by
    intro ctx
    unfold intentsPredicates Transaction.fresh
    rw [List.mapM_map]
    rfl
  unfold execute
  simp only [context,intents]
  rfl

-- The cell of the hash stays behind when a transaction is sent, so the two sides
-- agree exactly as far as what filled the cell is what is sent.
theorem decoded_transaction_same_iff (rt : Runtime) (encode : Transaction → Bytes)
    (decode : Bytes → Option Transaction) (histories : List History) (proposals : BTreeMap Address AccountChange)
    (tx received : Transaction) (put : tx = .new (histories.map fun h => h.build rt.toHashing) proposals)
    (decodes : decode (encode tx) = some tx.fresh) (sent : decode (encode tx) = some received)
    (distinct : ∀ h ∈ histories, h.Distinct rt.toHashing) :
    ((∀ sch state cache,
        (execute rt sch tx state cache).toOption = (execute rt sch received state cache).toOption) ∧
      (tx.intents.map fun i => (i.hash rt.toHashing).1) = received.intents.map fun i => (i.hash rt.toHashing).1) ↔
    ∀ h ∈ histories, h.Settled := by
  obtain rfl := Option.some.inj (decodes.symm.trans sent)
  have hashes : ((tx.intents.map fun i => (i.hash rt.toHashing).1) =
      tx.fresh.intents.map fun i => (i.hash rt.toHashing).1) ↔ ∀ h ∈ histories, h.Settled := by
    unfold Transaction.fresh
    rw [put,List.map_map,List.map_inj_left]
    simp only [Transaction.new,List.forall_mem_map,Function.comp]
    exact forall₂_congr fun h member => settled_hash (distinct h member)
  rw [hashes,and_iff_right_iff_imp]
  intro settled sch state cache
  congr 1
  apply execute_fresh
  intro i member
  rw [put] at member
  obtain ⟨h,inside,rfl⟩ := List.mem_map.mp member
  exact (settled_hash (distinct h inside)).mpr (settled h inside)

namespace RoundtripExample
open SignatureExample

def runtime : Runtime := {acceptHost.runtime with toHashing := hashing}

def signer : History :=
  ⟨recentBlockhash,expectations,∅,[.signingHash,.insert (Base58.encode publicKey) signature]⟩

def finished : History := ⟨recentBlockhash,expectations,signedCalldata,[.hash,.clone]⟩

def tx (h : History) : Transaction := .new [h.build runtime.toHashing] ∅

def decode (h : History) (bytes : Bytes) : Option Transaction :=
  if bytes = Wire.transaction (tx h) then some (tx h).fresh else none

theorem finished_distinct : finished.Distinct runtime.toHashing where
  signing := by decide +kernel
  calldata data member _ := by simpa [stages,finished,Call.calldata,History.final] using member

end RoundtripExample

theorem hashed_last_survives : RoundtripExample.finished.Settled ∧
    (∀ sch state cache,
      (execute RoundtripExample.runtime sch (RoundtripExample.tx RoundtripExample.finished) state cache).toOption =
        (execute RoundtripExample.runtime sch (RoundtripExample.tx RoundtripExample.finished).fresh state
          cache).toOption) := by
  have settled : RoundtripExample.finished.Settled := by
    intro first hashed
    exact (Option.some.inj hashed).symm
  have exactly := decoded_transaction_same_iff RoundtripExample.runtime Wire.transaction
    (RoundtripExample.decode RoundtripExample.finished) [RoundtripExample.finished] ∅
    (RoundtripExample.tx RoundtripExample.finished) (RoundtripExample.tx RoundtripExample.finished).fresh rfl
    (if_pos rfl) (if_pos rfl) (by
      intro h member
      rw [List.mem_singleton.mp member]
      exact RoundtripExample.finished_distinct)
  refine ⟨settled,(exactly.mpr ?_).1⟩
  intro h member
  rw [List.mem_singleton.mp member]
  exact settled

theorem signed_hash_changes :
    RoundtripExample.decode RoundtripExample.signer (Wire.transaction (RoundtripExample.tx RoundtripExample.signer)) =
      some (RoundtripExample.tx RoundtripExample.signer).fresh ∧
    ((RoundtripExample.tx RoundtripExample.signer).intents.map fun i =>
      (i.hash RoundtripExample.runtime.toHashing).1) = [⟨sha3Code,SignatureExample.signingDigest⟩] ∧
    ((RoundtripExample.tx RoundtripExample.signer).fresh.intents.map fun i =>
      (i.hash RoundtripExample.runtime.toHashing).1) = [⟨sha3Code,SignatureExample.signedDigest⟩] ∧
    SignatureExample.signingDigest ≠ SignatureExample.signedDigest :=
  ⟨if_pos rfl,by decide +kernel,by decide +kernel,by decide⟩

end AnomaAlpha
