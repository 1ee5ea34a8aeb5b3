import AnomaAlpha.Substream

namespace AnomaAlpha
open PollLoop

namespace SubstreamHandler
variable {S : Type} {h : SubstreamHandler S} {lap : Lap (SubstreamHandler S) Note HandlerEvent}

def held (h : SubstreamHandler S) : List Message := match h.outboundStream with
  | some (.pendingWrite _ message) => [message]
  | _ => []

def asks (h : SubstreamHandler S) : Nat := match h.outboundStream with
  | some .substreamRequested => 1
  | _ => 0

def requests : Option (Poll HandlerEvent) → Nat
  | some (.ready (.outboundSubstreamRequest _)) => 1
  | _ => 0

-- What a round can do to the queue and to the message that is being written.
inductive Turn (h : SubstreamHandler S) : Lap (SubstreamHandler S) Note HandlerEvent → Prop where
  | took : h.outboundStream = some (.awaitingWrite substream) → h.outboundMessages = msg :: rest →
      Turn h ⟨{h with outboundStream := some (.pendingWrite substream msg), outboundMessages := rest},[.took msg],none⟩
  | sent : h.outboundStream = some (.pendingWrite substream msg) →
      Turn h ⟨{h with outboundStream := some (.pendingFlush substream)},[.settled .sent msg],none⟩
  | oversized : h.outboundStream = some (.pendingWrite substream msg) →
      Turn h ⟨{h with outboundStream := some (.awaitingWrite substream)},[.settled .oversized msg],none⟩
  | flushed : h.outboundStream = some (.pendingFlush substream) →
      Turn h ⟨{h with outboundStream := some (.awaitingWrite substream)},[],none⟩
  | failed : h.outboundStream = some (.pendingWrite substream msg) →
      Turn h ⟨{h with outboundStream := some (.closing substream)},[.settled .dropped msg],some (.ready (.close e))⟩
  | requested : h.outboundStream = none → Turn h ⟨{h with outboundStream := some .substreamRequested},[],
      some (.ready (.outboundSubstreamRequest h.listenProtocol))⟩
  | rested {h' : SubstreamHandler S} : h'.outboundMessages = h.outboundMessages → h'.held = h.held →
      h'.asks = h.asks → requests (some answer) = 0 → Turn h ⟨h',[],some answer⟩

theorem Turn.still {h' : SubstreamHandler S} (queue : h'.outboundMessages = h.outboundMessages)
    (same : h'.held = h.held ∧ h'.asks = h.asks) (silent : requests (some answer) = 0) : Turn h ⟨h',[],some answer⟩ :=
  .rested queue same.1 same.2 silent

theorem outboundRound_turns (found : Writing) (h : SubstreamHandler S) : Turn h (outboundRound found h) := by
  unfold outboundRound
  cases state : h.outboundStream with
  | none => exact .requested state
  | some outbound =>
      cases outbound with
      | substreamRequested => exact .still rfl (by simp [held,asks,state]) rfl
      | awaitingWrite substream =>
          dsimp only
          split
          · rename_i msg rest queued
            split at queued
            · exact .took state queued
            · cases queued
          · exact .still rfl (by simp [held,asks,state]) rfl
      | pendingWrite substream message =>
          dsimp only
          split
          · split
            · exact .sent state
            · exact .oversized state
            · exact .failed state
          · exact .failed state
          · exact .still rfl (by simp [held,asks,state]) rfl
      | pendingFlush substream =>
          dsimp only
          split
          · exact .flushed state
          · exact .still rfl (by simp [held,asks,state]) rfl
          · exact .still rfl (by simp [held,asks,state]) rfl
      | closing substream =>
          dsimp only
          split
          · split
            · exact .still rfl (by simp [held,asks,state]) rfl
            · exact .still rfl (by simp [held,asks,state]) rfl
          · exact .still rfl (by simp [held,asks,state]) rfl
          · exact .still rfl (by simp [held,asks,state]) rfl
      | poisoned => exact .still rfl (by simp [held,asks,state]) rfl

theorem turn_falls (turn : Turn h lap) (goesOn : lap.answer = none) : lap.after.outboundRank < h.outboundRank := by
  unfold outboundRank
  cases turn with
  | took state queue =>
      rw [state,queue,List.length_cons]
      dsimp only
      omega
  | sent state => rw [state]; dsimp only; omega
  | oversized state => rw [state]; dsimp only; omega
  | flushed state => rw [state]; dsimp only; omega
  | failed state => cases goesOn
  | requested state => cases goesOn
  | rested => cases goesOn

theorem outbound_answers (found : Nat → Writing) (h : SubstreamHandler S) :
    (h.processOutboundPoll found).answer.isSome = true :=
  loop_answers outboundRank (fun outcome h => turn_falls (outboundRound_turns outcome h)) (Nat.lt_succ_self _)

structure Apart (h : SubstreamHandler S) (lap : Lap (SubstreamHandler S) Note HandlerEvent) : Prop where
  outboundStream : lap.after.outboundStream = h.outboundStream
  outboundMessages : lap.after.outboundMessages = h.outboundMessages
  notes : lap.notes = []
  answer : requests lap.answer = 0

theorem inboundRound_apart (found : Reading) (h : SubstreamHandler S) : Apart h (inboundRound found h) := by
  unfold inboundRound
  cases h.inboundStream with
  | none => exact ⟨rfl,rfl,rfl,rfl⟩
  | some state =>
      cases state with
      | awaitingRead substream =>
          dsimp only
          split <;> exact ⟨rfl,rfl,rfl,rfl⟩
      | closing substream =>
          dsimp only
          split
          · split <;> exact ⟨rfl,rfl,rfl,rfl⟩
          · exact ⟨rfl,rfl,rfl,rfl⟩
      | poisoned => exact ⟨rfl,rfl,rfl,rfl⟩

theorem inboundRound_falls (found : Reading) (h : SubstreamHandler S) (goesOn : (inboundRound found h).answer = none) :
    (inboundRound found h).after.inboundRank < h.inboundRank := by
  unfold inboundRound at goesOn ⊢
  unfold inboundRank
  cases state : h.inboundStream with
  | none =>
      rw [state] at goesOn
      cases goesOn
  | some inbound =>
      rw [state] at goesOn
      cases inbound with
      | awaitingRead substream =>
          dsimp only at goesOn ⊢
          split at goesOn
          · cases goesOn
          · exact Nat.zero_lt_one
          · exact Nat.zero_lt_one
          · cases goesOn
      | closing substream =>
          dsimp only at goesOn
          split at goesOn <;> cases goesOn
      | poisoned => cases goesOn

theorem inbound_answers (found : Nat → Reading) (h : SubstreamHandler S) :
    (h.processInboundPoll found).answer.isSome = true :=
  loop_answers inboundRank inboundRound_falls (Nat.lt_succ_self _)

theorem poll_answers (found : Outcomes) (h : SubstreamHandler S) :
    (h.processInboundPoll found.inbound).answer.isSome = true ∧ (h.poll found).answer.isSome = true := by
  refine ⟨inbound_answers found.inbound h,?_⟩
  unfold poll
  dsimp only
  split
  · rename_i answered
    rw [answered]
    rfl
  · exact outbound_answers found.outbound _

-- The books of a poll: messages come from the queue, wait to be written and are
-- settled in this order, and only a poll that closes the connection drops one.
def taken (notes : List Note) : List Message := notes.filterMap fun note => match note with
  | .took message => some message
  | .settled _ _ => none

def settled (notes : List Note) : List (Fate × Message) := notes.filterMap fun note => match note with
  | .took _ => none
  | .settled fate message => some (fate,message)

def closes : Option (Poll HandlerEvent) → Prop
  | some (.ready (.close _)) => True
  | _ => False

structure Books (h : SubstreamHandler S) (lap : Lap (SubstreamHandler S) Note HandlerEvent) : Prop where
  queue : h.outboundMessages = taken lap.notes ++ lap.after.outboundMessages
  written : h.held ++ taken lap.notes = (settled lap.notes).map Prod.snd ++ lap.after.held
  dropped : ∀ message, .settled .dropped message ∈ lap.notes → closes lap.answer
  asked : lap.after.asks = h.asks + requests lap.answer

theorem Books.of_apart (apart : Apart h lap) : Books h lap := by
  obtain ⟨after,notes,answer⟩ := lap
  obtain ⟨stream,messages,quiet,silent⟩ := apart
  cases quiet
  have stream : after.outboundStream = h.outboundStream := stream
  refine ⟨messages.symm,?_,nofun,?_⟩
  · simp only [held,taken,settled,List.filterMap_nil,List.append_nil,List.map_nil,List.nil_append]
    rw [stream]
  · unfold asks
    rw [stream,silent,Nat.add_zero]

theorem turn_books (turn : Turn h lap) : Books h lap := by
  cases turn with
  | took state queue => exact ⟨queue,by simp [held,taken,settled,state],by simp,by simp [asks,requests,state]⟩
  | sent state => exact ⟨rfl,by simp [held,taken,settled,state],by simp,by simp [asks,requests,state]⟩
  | oversized state => exact ⟨rfl,by simp [held,taken,settled,state],by simp,by simp [asks,requests,state]⟩
  | flushed state => exact ⟨rfl,by simp [held,taken,settled,state],by simp,by simp [asks,requests,state]⟩
  | failed state => exact ⟨rfl,by simp [held,taken,settled,state],fun _ _ => trivial,by simp [asks,requests,state]⟩
  | requested state => exact ⟨rfl,by simp [held,taken,settled,state],by simp,by simp [asks,requests,state]⟩
  | rested messages held asks silent =>
      exact ⟨messages.symm,by simp [taken,settled,held],by simp,by rw [asks,silent,Nat.add_zero]⟩

theorem Books.idle (h : SubstreamHandler S) : Books h ⟨h,[],none⟩ :=
  ⟨rfl,by simp [taken,settled],nofun,rfl⟩

theorem Books.follow {first second : Lap (SubstreamHandler S) Note HandlerEvent} (books : Books h first)
    (later : Books first.after second) (stays : ¬closes first.answer) (silent : requests first.answer = 0) :
    Books h (first.follow second) := by
  refine ⟨?_,?_,?_,?_⟩
  · simp only [Lap.follow,taken,List.filterMap_append,List.append_assoc]
    rw [books.queue,later.queue]
    rfl
  · have here := books.written
    have there := later.written
    simp only [Lap.follow,taken,settled,List.filterMap_append,List.map_append,List.append_assoc] at here there ⊢
    rw [← there,← List.append_assoc,here,List.append_assoc]
  · intro message member
    rcases List.mem_append.mp member with early | late
    · exact (stays (books.dropped message early)).elim
    · exact later.dropped message late
  · exact later.asked.trans (by rw [books.asked,silent,Nat.add_zero]; rfl)

theorem outbound_books (found : Nat → Writing) (h : SubstreamHandler S) : Books h (h.processOutboundPoll found) := by
  refine loop_rule Books Books.idle (fun outcome h => turn_books (outboundRound_turns outcome h)) ?_ _ found h
  intro h first second books goesOn later
  exact books.follow later (by rw [goesOn]; exact id) (by rw [goesOn]; rfl)

theorem inbound_apart (found : Nat → Reading) (h : SubstreamHandler S) : Apart h (h.processInboundPoll found) := by
  refine loop_rule Apart (fun h => ⟨rfl,rfl,rfl,rfl⟩) inboundRound_apart ?_ _ found h
  intro h first second early goesOn late
  exact ⟨late.outboundStream.trans early.outboundStream,late.outboundMessages.trans early.outboundMessages,
    by rw [Lap.follow,early.notes,late.notes]; rfl,late.answer⟩

theorem poll_books (found : Outcomes) (h : SubstreamHandler S) : Books h (h.poll found) := by
  have apart := inbound_apart found.inbound h
  unfold poll
  dsimp only
  split
  · exact .of_apart apart
  · rename_i silent
    refine (Books.of_apart apart).follow (outbound_books found.outbound _) ?_ apart.answer
    intro closed
    unfold closes at closed
    split at closed
    · rename_i answered
      exact silent _ answered
    · exact closed

inductive Call (S : Type) where
  | injectEvent (event : Message)
  | injectFullyNegotiatedInbound (substream : S)
  | injectFullyNegotiatedOutbound (substream : S)
  | injectDialUpgradeError
  | poll (found : Outcomes)

structure Entry (S : Type) where
  call : Call S
  notes : List Note
  answer : Option (Poll HandlerEvent)

def perform (h : SubstreamHandler S) : Call S → Lap (SubstreamHandler S) Note HandlerEvent
  | .injectEvent event => ⟨h.injectEvent event,[],none⟩
  | .injectFullyNegotiatedInbound substream => ⟨h.injectFullyNegotiatedInbound substream,[],none⟩
  | .injectFullyNegotiatedOutbound substream => ⟨h.injectFullyNegotiatedOutbound substream,[],none⟩
  | .injectDialUpgradeError => ⟨h.injectDialUpgradeError,[],none⟩
  | .poll found => h.poll found

def run (h : SubstreamHandler S) : List (Call S) → List (Entry S) × SubstreamHandler S
  | [] => ([],h)
  | call :: calls =>
    let done := h.perform call
    let rest := run done.after calls
    (⟨call,done.notes,done.answer⟩ :: rest.1,rest.2)

def Call.injected : Call S → List Message
  | .injectEvent event => [event]
  | _ => []

def Call.replies : Call S → Nat
  | .injectFullyNegotiatedOutbound _ => 1
  | .injectDialUpgradeError => 1
  | _ => 0

-- The result of a negotiation comes in answer to a request, of which so many are
-- not answered yet.
def prompted (owed : Nat) : List (Entry S) → Bool
  | [] => true
  | entry :: entries => entry.call.replies ≤ owed && prompted (owed - entry.call.replies + requests entry.answer) entries

structure Accounts (h : SubstreamHandler S) (entries : List (Entry S)) (h' : SubstreamHandler S) : Prop where
  queue : h.outboundMessages ++ entries.flatMap (·.call.injected) =
    entries.flatMap (taken ·.notes) ++ h'.outboundMessages
  written : h.held ++ entries.flatMap (taken ·.notes) = (entries.flatMap (settled ·.notes)).map Prod.snd ++ h'.held
  dropped : ∀ entry ∈ entries, ∀ message, .settled .dropped message ∈ entry.notes → closes entry.answer
  asked : h'.asks + (entries.map (·.call.replies)).sum = h.asks + (entries.map (requests ·.answer)).sum

theorem asks_some (asked : 1 ≤ h.asks) : h.outboundStream = some .substreamRequested := by
  unfold asks at asked
  split at asked
  · assumption
  · cases asked

theorem Accounts.quiet {call : Call S} {h' : SubstreamHandler S}
    (queue : h'.outboundMessages = h.outboundMessages ++ call.injected) (held : h'.held = h.held)
    (asked : h'.asks + call.replies = h.asks) : Accounts h [⟨call,[],none⟩] h' := by
  refine ⟨?_,?_,by simp,?_⟩
  · simp [queue,taken]
  · simp [held,taken,settled]
  · simp [asked,requests]

theorem perform_accounts (call : Call S) (prompt : call.replies ≤ h.asks) :
    Accounts h [⟨call,(h.perform call).notes,(h.perform call).answer⟩] (h.perform call).after := by
  cases call with
  | injectEvent event => exact .quiet rfl rfl rfl
  | injectFullyNegotiatedInbound substream => exact .quiet (List.append_nil _).symm rfl rfl
  | injectFullyNegotiatedOutbound substream =>
      have state := asks_some prompt
      refine .quiet (List.append_nil _).symm ?_ ?_
      · simp [held,perform,injectFullyNegotiatedOutbound,state]
      · simp [asks,perform,injectFullyNegotiatedOutbound,state,Call.replies]
  | injectDialUpgradeError =>
      have state := asks_some prompt
      refine .quiet (List.append_nil _).symm ?_ ?_
      · simp [held,perform,injectDialUpgradeError,state]
      · simp [asks,perform,injectDialUpgradeError,state,Call.replies]
  | poll found =>
      obtain ⟨queue,written,dropped,asked⟩ := poll_books found h
      refine ⟨?_,?_,?_,?_⟩
      · simpa [Call.injected,perform] using queue
      · simpa [perform] using written
      · intro entry member message noted
        obtain rfl := List.mem_singleton.mp member
        exact dropped message noted
      · simpa [Call.replies,perform] using asked

theorem Accounts.append {first second : List (Entry S)} {h' h'' : SubstreamHandler S} (here : Accounts h first h')
    (there : Accounts h' second h'') : Accounts h (first ++ second) h'' := by
  refine ⟨?_,?_,?_,?_⟩
  · rw [List.flatMap_append,List.flatMap_append,← List.append_assoc,here.queue,List.append_assoc,there.queue,
      List.append_assoc]
  · rw [List.flatMap_append,List.flatMap_append,List.map_append,← List.append_assoc,here.written,List.append_assoc,
      there.written,List.append_assoc]
  · intro entry member
    exact (List.mem_append.mp member).elim (here.dropped entry) (there.dropped entry)
  · have before := here.asked
    have after := there.asked
    simp only [List.map_append,List.sum_append]
    omega

theorem run_accounts (calls : List (Call S)) (prompt : prompted h.asks (h.run calls).1 = true) :
    Accounts h (h.run calls).1 (h.run calls).2 := by
  induction calls generalizing h with
  | nil => exact ⟨by simp [run],by simp [run],nofun,rfl⟩
  | cons call calls ih =>
      unfold run at prompt ⊢
      unfold prompted at prompt
      obtain ⟨answers,later⟩ := Bool.and_eq_true_iff.mp prompt
      have here := perform_accounts call (of_decide_eq_true answers)
      have asked := here.asked
      simp only [List.map_cons,List.map_nil,List.sum_cons,List.sum_nil,Nat.add_zero] at asked
      have owed : (h.perform call).after.asks = h.asks - call.replies + requests (h.perform call).answer := by
        have due : call.replies ≤ h.asks := of_decide_eq_true answers
        omega
      refine here.append (ih ?_)
      rw [owed]
      exact later

theorem run_answers (calls : List (Call S)) :
    ∀ entry ∈ (h.run calls).1, ∀ found, entry.call = .poll found → entry.answer.isSome = true := by
  induction calls generalizing h with
  | nil => exact nofun
  | cons call calls ih =>
      intro entry member found polled
      rcases List.mem_cons.mp member with rfl | later
      · cases polled
        exact (poll_answers found h).2
      · exact ih entry later found polled

-- The fate of every message that was injected, whatever the calls and their outcomes.
structure Delivered (entries : List (Entry S)) (h : SubstreamHandler S) : Prop where
  answered : ∀ entry ∈ entries, ∀ found, entry.call = .poll found → entry.answer.isSome = true
  outstanding : (entries.map (requests ·.answer)).sum ≤ (entries.map (·.call.replies)).sum + 1
  queue : entries.flatMap (·.call.injected) = entries.flatMap (taken ·.notes) ++ h.outboundMessages
  fates : entries.flatMap (taken ·.notes) = (entries.flatMap (settled ·.notes)).map Prod.snd ++ h.held
  dropped : ∀ entry ∈ entries, ∀ message, .settled .dropped message ∈ entry.notes → closes entry.answer
  order : (((entries.flatMap (settled ·.notes)).filter (·.1 = .sent)).map Prod.snd).Sublist
    (entries.flatMap (·.call.injected))

theorem asks_le (h : SubstreamHandler S) : h.asks ≤ 1 := by
  unfold asks
  split
  · exact Nat.le_refl 1
  · exact Nat.zero_le 1

theorem outbound_exactly_once (config : NetworkConfig) (calls : List (Call S))
    (prompt : prompted 0 ((new config : SubstreamHandler S).run calls).1 = true) :
    Delivered ((new config : SubstreamHandler S).run calls).1 ((new config : SubstreamHandler S).run calls).2 := by
  obtain ⟨queue,written,dropped,asked⟩ := run_accounts (h:=new config) calls prompt
  refine ⟨run_answers calls,?_,queue,written,dropped,?_⟩
  · have one := asks_le ((new config : SubstreamHandler S).run calls).2
    have none : (new config : SubstreamHandler S).asks = 0 := rfl
    omega
  · change [] ++ _ = _ at queue
    rw [List.nil_append] at queue
    rw [queue]
    refine (List.filter_sublist.map Prod.snd).trans (List.Sublist.trans ?_ (List.sublist_append_left _ _))
    change [] ++ _ = _ at written
    rw [List.nil_append] at written
    rw [written]
    exact List.sublist_append_left _ _

-- Two messages are waiting when the negotiation ends; the second one is too long.
def twoMessages : List (Call Unit) :=
  [.injectEvent ⟨"topic",.gossip [1]⟩,
    .poll ⟨fun _ => ⟨.pending,.pending⟩,fun _ => ⟨true,.pending,.ok (),.pending,.pending⟩⟩,
    .injectEvent ⟨"topic",.gossip [2]⟩,.injectFullyNegotiatedOutbound (),
    .poll ⟨fun _ => ⟨.pending,.pending⟩,fun n => ⟨true,.ready (.ok ()),
      if n = 1 then .ok () else .error .maxTransmissionSizeExceeded,.ready (.ok ()),.pending⟩⟩]

theorem two_messages_settled :
    ((new TopicExample.config).run twoMessages).1.flatMap (settled ·.notes) =
      [(.sent,⟨"topic",.gossip [1]⟩),(.oversized,⟨"topic",.gossip [2]⟩)] ∧
    Delivered ((new TopicExample.config).run twoMessages).1 ((new TopicExample.config).run twoMessages).2 :=
  ⟨by decide,outbound_exactly_once TopicExample.config twoMessages (by decide)⟩

end SubstreamHandler
end AnomaAlpha
