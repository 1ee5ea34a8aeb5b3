import AnomaAlpha.Signature

namespace AnomaAlpha.CallOrder

inductive IntentCall where
  | hash
  | signingHash
  | clone
  | setCalldata (calldata : Calldata)

namespace IntentCall

def run (w : Hashing) (i : Intent) : IntentCall → Option Multihash × Intent
  | .hash => (some (i.hash w).1,(i.hash w).2)
  | .signingHash => (some (i.signingHash w).1,(i.signingHash w).2)
  | .clone => (none,i)
  | .setCalldata calldata => (none,{i with calldata := calldata})

def message (w : Hashing) (i : Intent) : IntentCall → Option Bytes
  | .hash => some (w.encodeIntent i.recentBlockhash i.expectations i.calldata)
  | .signingHash => some (w.encodeHash i.recentBlockhash ++ w.encodeTree i.expectations)
  | .clone => none
  | .setCalldata _ => none

def settle {α : Type} (pool : List α) (index : Nat) (before after : α) : IntentCall → List α
  | .clone => pool ++ [before]
  | _ => pool.set index after

end IntentCall

structure IntentStep where
  index : Nat
  call : IntentCall

def intentAnswers (w : Hashing) : List Intent → List IntentStep → List (Intent × IntentCall × Option Multihash)
  | _,[] => []
  | pool,step :: steps => match pool[step.index]? with
    | none => intentAnswers w pool steps
    | some i =>
      let (answer,after) := step.call.run w i
      (i,step.call,answer) :: intentAnswers w (step.call.settle pool step.index i after) steps

-- What an intent has been through since it was made, its time as part of the one it
-- was cloned from included.
abbrev Lineage := List IntentCall

def lineages : List Lineage → List IntentStep → List (Lineage × IntentCall)
  | _,[] => []
  | pool,step :: steps => match pool[step.index]? with
    | none => lineages pool steps
    | some past =>
      (past,step.call) :: lineages (step.call.settle pool step.index past (past ++ [step.call])) steps

def replay (w : Hashing) (start : Intent) (past : Lineage) : Intent := past.foldl (fun i call => (call.run w i).2) start

def firstMessage (w : Hashing) : Intent → Lineage → Option Bytes
  | _,[] => none
  | i,call :: past => match call.message w i with
    | some message => some message
    | none => firstMessage w (call.run w i).2 past

section
variable {w : Hashing}

theorem run_filled {i : Intent} {cached : Multihash} (filled : i.hashCache = some cached) (call : IntentCall) :
    (call.run w i).2.hashCache = some cached := by
  cases call <;> simp [IntentCall.run,Intent.hash,Intent.signingHash,Intent.getOrInit,filled]

theorem replay_filled {i : Intent} {cached : Multihash} (filled : i.hashCache = some cached) (past : Lineage) :
    (replay w i past).hashCache = some cached := by
  induction past generalizing i with
  | nil => exact filled
  | cons call past ih => exact ih (run_filled filled call)

theorem run_fresh {i : Intent} (fresh : i.hashCache = none) (call : IntentCall) :
    (call.run w i).2.hashCache = (call.message w i).map w.wrap := by
  cases call <;> simp [IntentCall.run,IntentCall.message,Intent.hash,Intent.signingHash,Intent.getOrInit,fresh]

theorem replay_cache {i : Intent} (fresh : i.hashCache = none) (past : Lineage) :
    (replay w i past).hashCache = (firstMessage w i past).map w.wrap := by
  induction past generalizing i with
  | nil => exact fresh
  | cons call past ih =>
      have here := run_fresh (w:=w) fresh call
      rw [firstMessage]
      cases told : call.message w i with
      | none =>
          rw [told] at here
          exact ih here
      | some message =>
          rw [told] at here
          exact replay_filled here past

theorem run_answer (i : Intent) (call : IntentCall) :
    (call.run w i).1 = (call.message w i).map fun message => i.hashCache.getD (w.wrap message) := by
  cases call <;> cases cached : i.hashCache <;>
    simp [IntentCall.run,IntentCall.message,Intent.hash,Intent.signingHash,Intent.getOrInit,cached]

theorem settle_map {α β : Type} (f : α → β) (pool : List α) (index : Nat) (before after : α) (call : IntentCall) :
    (call.settle pool index before after).map f = call.settle (pool.map f) index (f before) (f after) := by
  cases call with
  | clone => exact List.map_append
  | _ => exact List.map_set

theorem replay_snoc (w : Hashing) (start : Intent) (past : Lineage) (call : IntentCall) :
    replay w start (past ++ [call]) = (call.run w (replay w start past)).2 := by
  rw [replay,List.foldl_append]
  rfl

theorem answers_lineages (w : Hashing) (start : Intent) (pool : List Lineage) (steps : List IntentStep) :
    intentAnswers w (pool.map (replay w start)) steps = (lineages pool steps).map fun event =>
      (replay w start event.1,event.2,(event.2.run w (replay w start event.1)).1) := by
  induction steps generalizing pool with
  | nil => rfl
  | cons step steps ih =>
      rw [intentAnswers,lineages,List.getElem?_map]
      cases pool[step.index]? with
      | none => exact ih pool
      | some past =>
          have rest := ih (step.call.settle pool step.index past (past ++ [step.call]))
          rw [settle_map,replay_snoc] at rest
          exact congrArg _ rest

theorem answer_right {start : Intent} (fresh : start.hashCache = none) (past : Lineage) (call : IntentCall) :
    (call.run w (replay w start past)).1 = (call.message w (replay w start past)).map w.wrap ↔
      ∀ message first, call.message w (replay w start past) = some message → firstMessage w start past = some first →
        w.sha3 first = w.sha3 message := by
  rw [run_answer,replay_cache fresh]
  cases call.message w (replay w start past) with
  | none => simp
  | some message => cases firstMessage w start past <;> simp [Hashing.wrap]

end

-- Every call finds the cell empty, or filled for the very bytes that it would hash.
def OneMessage (w : Hashing) (start : Intent) (steps : List IntentStep) : Prop :=
  ∀ event ∈ lineages [[]] steps, ∀ message first, event.2.message w (replay w start event.1) = some message →
    firstMessage w start event.1 = some first → first = message

def Collisionless (w : Hashing) (start : Intent) (steps : List IntentStep) : Prop :=
  ∀ event ∈ lineages [[]] steps, ∀ message first, event.2.message w (replay w start event.1) = some message →
    firstMessage w start event.1 = some first → w.sha3 first = w.sha3 message → first = message

-- What each call answers is the digest of the intent as it is then.
def AnswersRight (w : Hashing) (start : Intent) (steps : List IntentStep) : Prop :=
  ∀ answer ∈ intentAnswers w [start] steps, answer.2.2 = (answer.2.1.message w answer.1).map w.wrap

theorem intent_hashes_iff (w : Hashing) (recentBlockhash : Multihash) (expectations : PredicateTree) (calldata : Calldata)
    (steps : List IntentStep) :
    (OneMessage w (.withCalldata recentBlockhash expectations calldata) steps →
      AnswersRight w (.withCalldata recentBlockhash expectations calldata) steps) ∧
    (Collisionless w (.withCalldata recentBlockhash expectations calldata) steps →
      (AnswersRight w (.withCalldata recentBlockhash expectations calldata) steps ↔
        OneMessage w (.withCalldata recentBlockhash expectations calldata) steps)) := by
  have answers := answers_lineages w (.withCalldata recentBlockhash expectations calldata) [[]] steps
  rw [List.map_singleton] at answers
  change intentAnswers w [.withCalldata recentBlockhash expectations calldata] steps = _ at answers
  unfold AnswersRight
  rw [answers,List.forall_mem_map]
  have enough : OneMessage w (.withCalldata recentBlockhash expectations calldata) steps →
      ∀ event ∈ lineages [[]] steps, (event.2.run w (replay w (.withCalldata recentBlockhash expectations calldata) event.1)).1 =
        (event.2.message w (replay w (.withCalldata recentBlockhash expectations calldata) event.1)).map w.wrap := by
    intro one event member
    refine (answer_right rfl event.1 event.2).mpr fun message first told earlier => ?_
    rw [one event member message first told earlier]
  refine ⟨enough,fun collisionless => ⟨?_,enough⟩⟩
  intro right event member message first told earlier
  have same := (answer_right rfl event.1 event.2).mp (right event member) message first told earlier
  exact collisionless event member message first told earlier same

def signThenHash : List IntentStep :=
  [⟨0,.signingHash⟩,⟨0,.setCalldata SignatureExample.signedCalldata⟩,⟨0,.hash⟩]

theorem signed_intent_keeps_digest : ¬AnswersRight SignatureExample.hashing
    (.withCalldata SignatureExample.recentBlockhash SignatureExample.expectations ∅) signThenHash := by
  intro right
  have last := right (intentAnswers SignatureExample.hashing
    [.withCalldata SignatureExample.recentBlockhash SignatureExample.expectations ∅] signThenHash)[2] (by simp)
  revert last
  decide +kernel

end AnomaAlpha.CallOrder
