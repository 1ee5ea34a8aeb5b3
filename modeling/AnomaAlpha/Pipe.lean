import AnomaAlpha.Outbound
import AnomaAlpha.Lib.Framing
import AnomaAlpha.Lib.Unpack

namespace AnomaAlpha
open PollLoop

-- `Framed<NegotiatedSubstream, Codec>` where it is read.
structure FramedRead (framing : Nat → Framing Framing.Refusal) (c : Codec) where
  state : (framing c.lengthPrefix).State
  buffer : Bytes

section
variable {framing : Nat → Framing Framing.Refusal}

def Codec.decode (fromSlice : Bytes → Except String Message) (c : Codec) (src : FramedRead framing c) :
    Except UpgradeError (Option Message) × FramedRead framing c :=
  match (framing c.lengthPrefix).decode src.state src.buffer with
  | (.error .permissionDenied,state,buffer) => (.error .maxTransmissionSizeExceeded,⟨state,buffer⟩)
  | (.error (.other _),state,buffer) => (.error (.io "varint"),⟨state,buffer⟩)
  | (.ok none,state,buffer) => (.ok none,⟨state,buffer⟩)
  | (.ok (some packet),state,buffer) => match fromSlice packet with
    | .ok message => (.ok (some message),⟨state,buffer⟩)
    | .error e => (.error (.deserialization e),⟨state,buffer⟩)

-- What `poll_next` of `asynchronous_codec` comes to, from what is decoded, after all
-- that has arrived is in the buffer; it gives the reader up only for a reason.
inductive Polls {c : Codec} (decoded : Except UpgradeError (Option Message) × FramedRead framing c) (fault : Option String)
    (ended : Bool) : Poll (Option (Except UpgradeError Message)) × FramedRead framing c → Prop where
  | message {next : Message} {src : FramedRead framing c} : decoded = (.ok (some next),src) →
      Polls decoded fault ended (.ready (some (.ok next)),src)
  | pending {src : FramedRead framing c} : decoded = (.ok none,src) → Polls decoded fault ended (.pending,src)
  | ends {answer : Option (Except UpgradeError Message)} {src : FramedRead framing c} :
      (∀ message, answer ≠ some (.ok message)) → ((∃ e, decoded.1 = .error e) ∨ fault ≠ none ∨ ended = true) →
      Polls decoded fault ended (.ready answer,src)

end

-- What the decoder takes from `unsigned_varint`, `rmp_serde` and `asynchronous_codec`,
-- beside the encoder: frames that a decoder of any limit knows, messages that are
-- read back as they were as long as their lengths fit 32 bits, and the polled stream.
structure StreamLibrary extends FrameLibrary where
  fromSlice : Bytes → Except String Message
  framing : Nat → Framing Framing.Refusal
  pollNext : (c : Codec) → FramedRead framing c → Option String → Bool →
    Poll (Option (Except UpgradeError Message)) × FramedRead framing c
  limits : ∀ max, (framing max).max = max
  wide : ∀ max, 2^32 ≤ (framing max).limit
  frames : ∀ max max' item dst out, encode max item dst = .ok out → item.length < 2^32 → out = dst ++ (framing max').frame item
  reads : ∀ message bytes, toVec message = .ok bytes → bytes.length < 2^32 → fromSlice bytes = .ok message
  polls : ∀ c src fault ended, Polls (c.decode fromSlice src) fault ended (pollNext c src fault ended)

-- One substream from a sender to a receiver: the bytes in the write buffer of the
-- one, on the way, and in the read buffer of the other.
structure Pipe (lib : StreamLibrary) (c : Codec) where
  sender : SubstreamHandler Unit
  buffered : Bytes
  wire : Bytes
  framed : FramedRead lib.framing c
  receiver : SubstreamHandler Unit

inductive PipeEvent where
  | injected (message : Message)
  | sent (message : Message)
  | delivered (message : Message)
  deriving DecidableEq

-- What can happen to a pipe; a round of either loop meets what the transport
-- does. The handlers can be told that a negotiation has failed.
inductive PipeMove where
  | inject (message : Message)
  | write (recv : Bool) (ready flush close : Poll (Except UpgradeError Unit))
  | transmit (bytes : Nat)
  | arrive (bytes : Nat)
  | read (fault : Option String) (ended : Bool) (close : Poll (Except UpgradeError Unit))
  | breakSender
  | breakReceiver

namespace Pipe
open SubstreamHandler
variable {lib : StreamLibrary} {c : Codec}

def negotiated (lib : StreamLibrary) (config config' : NetworkConfig) :
    Pipe lib (Codec.new config'.maxTransmitSize) :=
  ⟨(SubstreamHandler.new config).injectFullyNegotiatedOutbound (),[],[],
    ⟨(lib.framing config'.maxTransmitSize).start,[]⟩,(SubstreamHandler.new config').injectFullyNegotiatedInbound ()⟩

-- `start_send`, which writes into the buffer what is to be written.
def startSend (own : Codec) (l : Pipe lib c) : Except UpgradeError Unit × Bytes :=
  match l.sender.outboundStream with
  | some (.pendingWrite _ message) => match own.encode lib.toFrameLibrary message l.buffered with
    | .ok out => (.ok (),out)
    | .error e => (.error e,l.buffered)
  | _ => (.ok (),l.buffered)

def notedEvents (notes : List Note) : List PipeEvent := notes.filterMap fun note => match note with
  | .settled .sent message => some (.sent message)
  | _ => none

def answerEvents : Option (Poll HandlerEvent) → List PipeEvent
  | some (.ready (.custom message)) => [.delivered message]
  | _ => []

def step (own : Codec) (l : Pipe lib c) : PipeMove → Pipe lib c × List PipeEvent
  | .inject message => ({l with sender := l.sender.injectEvent message},[.injected message])
  | .write recv ready flush close =>
    let lap := outboundRound ⟨recv,ready,(l.startSend own).1,flush,close⟩ l.sender
    ({l with sender := lap.after, buffered := if ready = .ready (.ok ()) then (l.startSend own).2 else l.buffered},
      notedEvents lap.notes)
  | .transmit bytes => ({l with buffered := l.buffered.drop bytes, wire := l.wire ++ l.buffered.take bytes},[])
  | .arrive bytes =>
    ({l with wire := l.wire.drop bytes, framed := {l.framed with buffer := l.framed.buffer ++ l.wire.take bytes}},[])
  | .read fault ended close =>
    let (next,framed) := match l.receiver.inboundStream with
      | some (.awaitingRead _) => lib.pollNext c l.framed fault ended
      | _ => (.pending,l.framed)
    let lap := inboundRound ⟨next,close⟩ l.receiver
    ({l with receiver := lap.after, framed := framed},answerEvents lap.answer)
  | .breakSender => ({l with sender := l.sender.injectDialUpgradeError},[])
  | .breakReceiver => ({l with receiver := l.receiver.injectDialUpgradeError},[])

def run (own : Codec) (l : Pipe lib c) : List PipeMove → Pipe lib c × List PipeEvent
  | [] => (l,[])
  | move :: moves =>
    let first := l.step own move
    let rest := run own first.1 moves
    (rest.1,first.2 ++ rest.2)

def injected (log : List PipeEvent) : List Message := log.filterMap fun event => match event with
  | .injected message => some message
  | _ => none

def sent (log : List PipeEvent) : List Message := log.filterMap fun event => match event with
  | .sent message => some message
  | _ => none

def delivered (log : List PipeEvent) : List Message := log.filterMap fun event => match event with
  | .delivered message => some message
  | _ => none

section
variable {own : Codec} {l : Pipe lib c} {log : List PipeEvent}

@[simp] theorem injected_append (log more : List PipeEvent) : injected (log ++ more) = injected log ++ injected more :=
  List.filterMap_append

@[simp] theorem sent_append (log more : List PipeEvent) : sent (log ++ more) = sent log ++ sent more :=
  List.filterMap_append

@[simp] theorem delivered_append (log more : List PipeEvent) : delivered (log ++ more) = delivered log ++ delivered more :=
  List.filterMap_append

theorem noted_delivered (notes : List Note) : delivered (notedEvents notes) = [] ∧ injected (notedEvents notes) = [] := by
  constructor
  · refine List.filterMap_eq_nil_iff.mpr fun event member => ?_
    obtain ⟨note,_,made⟩ := List.mem_filterMap.mp member
    split at made
    · cases made
      rfl
    · cases made
  · refine List.filterMap_eq_nil_iff.mpr fun event member => ?_
    obtain ⟨note,_,made⟩ := List.mem_filterMap.mp member
    split at made
    · cases made
      rfl
    · cases made

theorem noted_sent (notes : List Note) : (sent (notedEvents notes)).Sublist ((settled notes).map Prod.snd) := by
  induction notes with
  | nil => exact .slnil
  | cons note notes ih =>
      cases note with
      | took message => exact ih
      | settled fate message => cases fate with
        | sent => exact ih.cons_cons message
        | oversized => exact ih.cons message
        | dropped => exact ih.cons message

theorem answer_events (answer : Option (Poll HandlerEvent)) :
    sent (answerEvents answer) = [] ∧ injected (answerEvents answer) = [] := by
  unfold answerEvents
  split <;> exact ⟨rfl,rfl⟩

theorem write_adds (own : Codec) (l : Pipe lib c) (recv : Bool) (ready flush close : Poll (Except UpgradeError Unit)) :
    (notedEvents (outboundRound ⟨recv,ready,(l.startSend own).1,flush,close⟩ l.sender).notes = [] ∧
      (if ready = .ready (.ok ()) then (l.startSend own).2 else l.buffered) = l.buffered) ∨
    ∃ message packet out, lib.toVec message = .ok packet ∧
      lib.toFrameLibrary.encode own.lengthPrefix packet l.buffered = .ok out ∧
      notedEvents (outboundRound ⟨recv,ready,(l.startSend own).1,flush,close⟩ l.sender).notes = [.sent message] ∧
      (if ready = .ready (.ok ()) then (l.startSend own).2 else l.buffered) = out := by
  unfold outboundRound startSend
  cases l.sender.outboundStream with
  | none => exact .inl ⟨rfl,ite_self _⟩
  | some state => cases state with
    | substreamRequested => exact .inl ⟨rfl,ite_self _⟩
    | awaitingWrite substream =>
        refine .inl ⟨?_,ite_self _⟩
        dsimp only
        split <;> rfl
    | pendingFlush substream =>
        refine .inl ⟨?_,ite_self _⟩
        dsimp only
        split <;> rfl
    | closing substream =>
        refine .inl ⟨?_,ite_self _⟩
        dsimp only
        split <;> rfl
    | poisoned => exact .inl ⟨rfl,ite_self _⟩
    | pendingWrite substream message => cases ready with
      | pending => exact .inl ⟨rfl,if_neg (by simp)⟩
      | ready answer => cases answer with
        | error e => exact .inl ⟨rfl,if_neg (by simp)⟩
        | ok done =>
            cases done
            dsimp only
            cases encoded : own.encode lib.toFrameLibrary message l.buffered with
            | error e => cases e <;> exact .inl ⟨rfl,if_pos rfl⟩
            | ok out =>
                obtain ⟨packet,made,written⟩ := Fallible.bind_ok.mp encoded
                rw [Fallible.mapError_ok] at made written
                exact .inr ⟨message,packet,out,made,written,rfl,if_pos rfl⟩

-- The undecoded bytes, wherever they are, are the frames of what is under way.
structure Streams (own : Codec) (l : Pipe lib c) (log : List PipeEvent) (waiting : List Message) (packets : List Bytes)
    (bytes : Bytes) : Prop where
  order : sent log = delivered log ++ waiting
  encoded : List.Forall₂ (fun message packet => lib.toVec message = .ok packet ∧ packet.length ≤ own.lengthPrefix)
    waiting packets
  holds : (lib.framing c.lengthPrefix).Holds l.framed.state l.framed.buffer bytes
  stream : bytes ++ (l.wire ++ l.buffered) = (lib.framing c.lengthPrefix).frames packets

-- As long as the receiver reads it is in step with the stream; whatever becomes of
-- it, what it has handed out is the beginning of what was sent.
structure Sound (own : Codec) (l : Pipe lib c) (log : List PipeEvent) : Prop where
  queue : (sent log ++ (l.sender.held ++ l.sender.outboundMessages)).Sublist (injected log)
  front : delivered log <+: sent log
  reading : ∀ substream, l.receiver.inboundStream = some (.awaitingRead substream) →
    ∃ waiting packets bytes, Streams own l log waiting packets bytes

theorem negotiated_sound (lib : StreamLibrary) (config config' : NetworkConfig) :
    Sound (Codec.new config.maxTransmitSize) (negotiated lib config config') [] := by
  refine ⟨.slnil,List.prefix_refl _,fun _ _ => ⟨[],[],[],rfl,.nil,(lib.framing _).begins,rfl⟩⟩

theorem write_queue (found : Writing) : (sent (notedEvents (outboundRound found l.sender).notes) ++
    ((outboundRound found l.sender).after.held ++ (outboundRound found l.sender).after.outboundMessages)).Sublist
      (l.sender.held ++ l.sender.outboundMessages) := by
  have books := turn_books (outboundRound_turns found l.sender)
  rw [books.queue,← List.append_assoc l.sender.held,books.written,List.append_assoc]
  exact (noted_sent _).append_right _

theorem write_sound (small : own.lengthPrefix < 2^32) (sound : Sound own l log)
    (recv : Bool) (ready flush close : Poll (Except UpgradeError Unit)) :
    Sound own (l.step own (.write recv ready flush close)).1 (log ++ (l.step own (.write recv ready flush close)).2) := by
  have quiet := noted_delivered (outboundRound ⟨recv,ready,(l.startSend own).1,flush,close⟩ l.sender).notes
  have same : delivered (log ++ (l.step own (.write recv ready flush close)).2) = delivered log := by
    rw [delivered_append,step,quiet.1,List.append_nil]
  refine ⟨?_,?_,?_⟩
  · rw [sent_append,injected_append,step,quiet.2,List.append_nil,List.append_assoc]
    exact ((write_queue _).append_left (sent log)).trans sound.queue
  · rw [same,sent_append]
    exact sound.front.trans (List.prefix_append _ _)
  · intro substream reads
    obtain ⟨waiting,packets,bytes,order,encoded,holds,stream⟩ := sound.reading substream reads
    rcases write_adds own l recv ready flush close with ⟨silent,kept⟩ | ⟨message,packet,out,made,written,noted,added⟩
    · refine ⟨waiting,packets,bytes,?_,encoded,holds,?_⟩
      · rw [same,sent_append,step,silent]
        exact (List.append_nil _).trans order
      · rw [step,kept]
        exact stream
    · have fits := (lib.encode_limit _ _ _).mp ⟨out,written⟩
      refine ⟨waiting ++ [message],packets ++ [packet],bytes,?_,List.rel_append encoded (.cons ⟨made,fits⟩ .nil),holds,?_⟩
      · rw [same,sent_append,step,noted,order,List.append_assoc]
        rfl
      · have frame := lib.frames _ c.lengthPrefix _ _ _ written (fits.trans_lt small)
        rw [step,added,frame,← List.append_assoc l.wire,← List.append_assoc,stream]
        simp [Framing.frames]

theorem transmit_sound (sound : Sound own l log) (n : Nat) :
    Sound own (l.step own (.transmit n)).1 (log ++ (l.step own (.transmit n)).2) := by
  rw [step,List.append_nil]
  refine ⟨sound.queue,sound.front,fun substream reads => ?_⟩
  obtain ⟨waiting,packets,bytes,order,encoded,holds,stream⟩ := sound.reading substream reads
  refine ⟨waiting,packets,bytes,order,encoded,holds,?_⟩
  rwa [List.append_assoc l.wire,List.take_append_drop]

theorem arrive_sound (sound : Sound own l log) (n : Nat) :
    Sound own (l.step own (.arrive n)).1 (log ++ (l.step own (.arrive n)).2) := by
  rw [step,List.append_nil]
  refine ⟨sound.queue,sound.front,fun substream reads => ?_⟩
  obtain ⟨waiting,packets,bytes,order,encoded,holds,stream⟩ := sound.reading substream reads
  refine ⟨waiting,packets,bytes ++ l.wire.take n,order,encoded,(lib.framing _).grows holds,?_⟩
  rwa [List.append_assoc,← List.append_assoc (l.wire.take n),List.take_append_drop]

inductive Finds (own : Codec) (l : Pipe lib c) (log : List PipeEvent) (waiting : List Message) :
    Except UpgradeError (Option Message) × FramedRead lib.framing c → Prop where
  | failed {e : UpgradeError} {src : FramedRead lib.framing c} : c.lengthPrefix < own.lengthPrefix →
      Finds own l log waiting (.error e,src)
  | nothing {src : FramedRead lib.framing c} {packets : List Bytes} {bytes : Bytes} :
      Streams own {l with framed := src} log waiting packets bytes → (l.wire ++ l.buffered = [] → waiting = []) →
      Finds own l log waiting (.ok none,src)
  | message {src : FramedRead lib.framing c} {next : Message} {later : List Message} {packets : List Bytes} {bytes : Bytes} :
      waiting = next :: later → Streams own {l with framed := src} (log ++ [.delivered next]) later packets bytes →
      Finds own l log waiting (.ok (some next),src)

theorem packet_size {max : Nat} {waiting : List Message} {packets : List Bytes}
    (encoded : List.Forall₂ (fun message packet => lib.toVec message = .ok packet ∧ packet.length ≤ max) waiting packets) :
    ∀ packet ∈ packets, packet.length ≤ max := by
  induction encoded with
  | nil => simp
  | cons made _ ih => simpa using ⟨made.2,ih⟩

theorem decode_finds (small : own.lengthPrefix < 2^32) {waiting : List Message}
    {packets : List Bytes} {bytes : Bytes} (streams : Streams own l log waiting packets bytes) :
    Finds own l log waiting (c.decode lib.fromSlice l.framed) := by
  obtain ⟨order,encoded,holds,stream⟩ := streams
  have sizes := packet_size encoded
  have wide := small.trans_le (lib.wide c.lengthPrefix)
  cases (lib.framing c.lengthPrefix).decode_next holds stream (fun packet member => (sizes packet member).trans_lt wide)
    (Nat.zero_lt_of_lt wide) with
  | @failed e packet refused member long =>
      rw [lib.limits] at long
      have less := long.trans_le (sizes packet member)
      unfold Codec.decode
      rcases decoded : (lib.framing c.lengthPrefix).decode l.framed.state l.framed.buffer with ⟨answer,state,buffer⟩
      rw [decoded] at refused
      subst refused
      cases e with
      | permissionDenied => exact .failed less
      | other fault => exact .failed less
  | waiting decoded held empties =>
      unfold Codec.decode
      rw [decoded]
      refine .nothing ⟨order,encoded,held,stream⟩ fun done => ?_
      rw [empties done] at encoded
      exact List.forall₂_nil_right_iff.mp encoded
  | @item next later _ _ _ whole decoded held rest _ =>
      subst whole
      obtain ⟨message,more,made,kept,rfl⟩ := List.forall₂_cons_right_iff.mp encoded
      unfold Codec.decode
      rw [decoded]
      dsimp only
      rw [lib.reads message next made.1 (made.2.trans_lt small)]
      refine .message rfl ⟨?_,kept,held,rest⟩
      rw [sent_append,delivered_append,order]
      exact (List.append_nil _).trans (List.append_assoc _ [message] more).symm

theorem read_message {next : Message} {src : FramedRead lib.framing c} {fault : Option String} {ended : Bool}
    (reads : l.receiver.inboundStream = some (.awaitingRead ())) (close : Poll (Except UpgradeError Unit))
    (polled : lib.pollNext c l.framed fault ended = (.ready (some (.ok next)),src)) :
    l.step own (.read fault ended close) = ({l with framed := src},[.delivered next]) := by
  simp only [step,reads,polled,inboundRound,answerEvents]
  rw [← reads]

theorem read_pending {src : FramedRead lib.framing c} {fault : Option String} {ended : Bool}
    (reads : l.receiver.inboundStream = some (.awaitingRead ())) (close : Poll (Except UpgradeError Unit))
    (polled : lib.pollNext c l.framed fault ended = (.pending,src)) :
    l.step own (.read fault ended close) = ({l with framed := src},[]) := by
  simp only [step,reads,polled,inboundRound,answerEvents]
  rw [← reads]

theorem read_ends (own : Codec) {answer : Option (Except UpgradeError Message)} {src : FramedRead lib.framing c} {fault : Option String} {ended : Bool}
    (reads : l.receiver.inboundStream = some (.awaitingRead ())) (close : Poll (Except UpgradeError Unit))
    (polled : lib.pollNext c l.framed fault ended = (.ready answer,src)) (none_left : ∀ message, answer ≠ some (.ok message)) :
    (l.step own (.read fault ended close)).2 = [] ∧ (l.step own (.read fault ended close)).1.sender = l.sender ∧
      (l.step own (.read fault ended close)).1.receiver.inboundStream ≠ some (.awaitingRead ()) := by
  simp only [step,reads,polled,inboundRound]
  cases answer with
  | none => simp [answerEvents]
  | some answer => cases answer with
    | ok message => exact absurd rfl (none_left message)
    | error e => simp [answerEvents]

theorem read_idle (own : Codec) (idle : l.receiver.inboundStream ≠ some (.awaitingRead ())) (fault : Option String) (ended : Bool)
    (close : Poll (Except UpgradeError Unit)) :
    (l.step own (.read fault ended close)).2 = [] ∧ (l.step own (.read fault ended close)).1.sender = l.sender ∧
      (l.step own (.read fault ended close)).1.receiver.inboundStream ≠ some (.awaitingRead ()) := by
  cases state : l.receiver.inboundStream with
  | none => simp [step,inboundRound,state,answerEvents]
  | some state' => cases state' with
    | awaitingRead substream => exact absurd state idle
    | poisoned => simp [step,inboundRound,state,answerEvents]
    | closing substream => cases close with
      | pending => simp [step,inboundRound,state,answerEvents]
      | ready done =>
          simp only [step,inboundRound,state]
          split <;> simp [answerEvents]

theorem read_sound (small : own.lengthPrefix < 2^32) (sound : Sound own l log)
    (fault : Option String) (ended : Bool) (close : Poll (Except UpgradeError Unit)) :
    Sound own (l.step own (.read fault ended close)).1 (log ++ (l.step own (.read fault ended close)).2) := by
  by_cases reads : l.receiver.inboundStream = some (.awaitingRead ())
  · obtain ⟨waiting,packets,bytes,streams⟩ := sound.reading () reads
    have finds := decode_finds small streams
    have polls := lib.polls c l.framed fault ended
    generalize polled : lib.pollNext c l.framed fault ended = found at polls
    cases polls with
    | @message next src decoded =>
        rw [read_message reads close polled]
        rw [decoded] at finds
        cases finds with
        | message whole streams =>
            refine ⟨?_,⟨_,streams.order.symm⟩,fun _ _ => ⟨_,_,_,streams⟩⟩
            rw [sent_append,injected_append]
            simpa [sent,injected] using sound.queue
    | @pending src decoded =>
        rw [read_pending reads close polled,List.append_nil]
        rw [decoded] at finds
        cases finds with
        | nothing streams _ => exact ⟨sound.queue,sound.front,fun _ _ => ⟨_,_,_,streams⟩⟩
    | ends none_left _ =>
        obtain ⟨silent,same,idle⟩ := read_ends own reads close polled none_left
        rw [silent,List.append_nil]
        refine ⟨?_,sound.front,fun _ again => absurd again idle⟩
        rw [same]
        exact sound.queue
  · obtain ⟨silent,same,idle⟩ := read_idle own reads fault ended close
    rw [silent,List.append_nil]
    refine ⟨?_,sound.front,fun _ again => absurd again idle⟩
    rw [same]
    exact sound.queue

theorem broken_sound (sound : Sound own l log) : Sound own (l.step own .breakSender).1 (log ++ (l.step own .breakSender).2) := by
  rw [step,List.append_nil]
  refine ⟨List.Sublist.trans ?_ sound.queue,sound.front,fun substream reads => ?_⟩
  · exact (List.sublist_append_right _ _).append_left _
  · obtain ⟨waiting,packets,bytes,streams⟩ := sound.reading substream reads
    exact ⟨waiting,packets,bytes,streams.order,streams.encoded,streams.holds,streams.stream⟩

theorem step_sound (small : own.lengthPrefix < 2^32) (sound : Sound own l log)
    (move : PipeMove) : Sound own (l.step own move).1 (log ++ (l.step own move).2) := by
  cases move with
  | inject message =>
      refine ⟨?_,?_,fun substream reads => ?_⟩
      · rw [sent_append,injected_append]
        have grown := sound.queue.append_right [message]
        simpa [step,sent,injected,SubstreamHandler.injectEvent,held] using grown
      · rw [sent_append,delivered_append]
        simpa [step,sent,delivered] using sound.front
      · obtain ⟨waiting,packets,bytes,streams⟩ := sound.reading substream reads
        refine ⟨waiting,packets,bytes,?_,streams.encoded,streams.holds,streams.stream⟩
        rw [sent_append,delivered_append]
        simpa [step,sent,delivered] using streams.order
  | write recv ready flush close => exact write_sound small sound recv ready flush close
  | transmit bytes => exact transmit_sound sound bytes
  | arrive bytes => exact arrive_sound sound bytes
  | read fault ended close => exact read_sound small sound fault ended close
  | breakSender => exact broken_sound sound
  | breakReceiver =>
      rw [step,List.append_nil]
      exact ⟨sound.queue,sound.front,fun _ again => by simp [SubstreamHandler.injectDialUpgradeError] at again⟩

theorem run_sound (small : own.lengthPrefix < 2^32) (moves : List PipeMove)
    (sound : Sound own l log) : Sound own (run own l moves).1 (log ++ (run own l moves).2) := by
  induction moves generalizing l log with
  | nil => simpa [run] using sound
  | cons move moves ih =>
      have later := ih (step_sound small sound move)
      rwa [List.append_assoc] at later

-- Nothing goes wrong where the pipe is read.
def Calm : PipeMove → Prop
  | .read fault ended _ => fault = none ∧ ended = false
  | .breakReceiver => False
  | _ => True

theorem calm_polls (small : own.lengthPrefix < 2^32) (room : own.lengthPrefix ≤ c.lengthPrefix)
    (sound : Sound own l log) (reads : l.receiver.inboundStream = some (.awaitingRead ())) :
    (∃ next src, lib.pollNext c l.framed none false = (.ready (some (.ok next)),src)) ∨
    ∃ src, lib.pollNext c l.framed none false = (.pending,src) ∧ (l.wire ++ l.buffered = [] → sent log = delivered log) := by
  obtain ⟨waiting,packets,bytes,streams⟩ := sound.reading () reads
  have finds := decode_finds small streams
  have polls := lib.polls c l.framed none false
  generalize lib.pollNext c l.framed none false = found at polls ⊢
  cases polls with
  | message _ => exact .inl ⟨_,_,rfl⟩
  | pending decoded =>
      rw [decoded] at finds
      cases finds with
      | nothing _ empties =>
          refine .inr ⟨_,rfl,fun arrived => ?_⟩
          rw [streams.order,empties arrived,List.append_nil]
  | ends _ reason =>
      rcases reason with ⟨e,failed⟩ | faulty | ended
      · generalize c.decode lib.fromSlice l.framed = decoded at finds failed
        cases finds with
        | failed less => exact absurd room (Nat.not_le.mpr less)
        | nothing _ _ => cases failed
        | message _ _ => cases failed
      · exact absurd rfl faulty
      · cases ended

theorem calm_reads (small : own.lengthPrefix < 2^32) (room : own.lengthPrefix ≤ c.lengthPrefix)
    (sound : Sound own l log) (reads : l.receiver.inboundStream = some (.awaitingRead ())) (move : PipeMove)
    (calm : Calm move) : (l.step own move).1.receiver.inboundStream = some (.awaitingRead ()) := by
  cases move with
  | breakReceiver => exact calm.elim
  | read fault ended close =>
      obtain ⟨rfl,rfl⟩ := calm
      rcases calm_polls small room sound reads with ⟨next,src,polled⟩ | ⟨src,polled,_⟩
      · rw [read_message reads close polled]
        exact reads
      · rw [read_pending reads close polled]
        exact reads
  | _ => exact reads

theorem calm_run (small : own.lengthPrefix < 2^32) (room : own.lengthPrefix ≤ c.lengthPrefix)
    (moves : List PipeMove) (calm : ∀ move ∈ moves, Calm move) (sound : Sound own l log)
    (reads : l.receiver.inboundStream = some (.awaitingRead ())) :
    (run own l moves).1.receiver.inboundStream = some (.awaitingRead ()) := by
  induction moves generalizing l log with
  | nil => exact reads
  | cons move moves ih =>
      exact ih (fun later member => calm later (by simp [member])) (step_sound small sound move)
        (calm_reads small room sound reads move (calm move (by simp)))

theorem reads_deliver (small : own.lengthPrefix < 2^32) (room : own.lengthPrefix ≤ c.lengthPrefix)
    (close : Poll (Except UpgradeError Unit)) (n : Nat) (arrived : l.wire ++ l.buffered = []) (sound : Sound own l log)
    (reads : l.receiver.inboundStream = some (.awaitingRead ())) :
    delivered (log ++ (run own l (List.replicate n (.read none false close))).2) =
      (sent log).take ((delivered log).length + n) := by
  induction n generalizing l log with
  | zero =>
      rw [List.replicate_zero,run,List.append_nil,Nat.add_zero]
      exact List.prefix_iff_eq_take.mp sound.front
  | succ n ih =>
      have kept := read_sound small sound none false close
      rw [List.replicate_succ,run]
      rcases calm_polls small room sound reads with ⟨next,src,polled⟩ | ⟨src,polled,empties⟩
      · rw [read_message reads close polled] at kept ⊢
        have later := ih (l:={l with framed := src}) arrived kept reads
        rw [List.append_assoc] at later
        refine later.trans ?_
        rw [sent_append,delivered_append,List.length_append,Nat.add_assoc,Nat.add_comm n]
        simp [sent,delivered]
      · rw [read_pending reads close polled] at kept ⊢
        rw [List.append_nil] at kept
        refine (ih (l:={l with framed := src}) arrived kept reads).trans ?_
        rw [empties arrived,List.take_of_length_le (Nat.le_add_right ..),List.take_of_length_le (Nat.le_add_right ..)]

theorem run_append (l : Pipe lib c) (moves more : List PipeMove) :
    run own l (moves ++ more) = ((run own (run own l moves).1 more).1,(run own l moves).2 ++ (run own (run own l moves).1 more).2) := by
  induction moves generalizing l with
  | nil => rfl
  | cons move moves ih => simp [run,ih]

def drain (l : Pipe lib c) (n : Nat) (close : Poll (Except UpgradeError Unit)) : List PipeMove :=
  .transmit l.buffered.length :: .arrive (l.wire ++ l.buffered).length :: List.replicate n (.read none false close)

theorem drain_delivers (small : own.lengthPrefix < 2^32)
    (room : own.lengthPrefix ≤ c.lengthPrefix) (close : Poll (Except UpgradeError Unit)) (n : Nat) (sound : Sound own l log)
    (reads : l.receiver.inboundStream = some (.awaitingRead ())) :
    delivered (log ++ (run own l (l.drain n close)).2) = (sent log).take ((delivered log).length + n) := by
  have moved := transmit_sound sound l.buffered.length
  have arrived := arrive_sound moved (l.wire ++ l.buffered).length
  have read := reads_deliver small room close n (by simp [step]) arrived reads
  simpa [step,run,drain] using read

end

-- One substream, over all the bytes that it writes, carries and reads: what comes
-- out is the beginning of what was sent, which is what was put in less what was too
-- large or was given up. Nothing is out of order, doubled or made up, and where the
-- receiver takes messages of the sender's size every read brings the next one.
theorem pipe_fifo (lib : StreamLibrary) (config config' : NetworkConfig) (moves : List PipeMove)
    (small : config.maxTransmitSize < 2^32) :
    let own := Codec.new config.maxTransmitSize
    let final := run own (negotiated lib config config') moves
    delivered final.2 <+: sent final.2 ∧ (sent final.2).Sublist (injected final.2) ∧
      (config.maxTransmitSize ≤ config'.maxTransmitSize → (∀ move ∈ moves, Calm move) → ∀ n close,
        delivered (final.2 ++ (run own final.1 (final.1.drain n close)).2) =
          (sent final.2).take ((delivered final.2).length + n)) := by
  intro own final
  have sound : Sound own final.1 final.2 := run_sound small moves (negotiated_sound lib config config')
  refine ⟨sound.front,(List.sublist_append_left _ _).trans sound.queue,fun room calm n close => ?_⟩
  exact drain_delivers small room close n sound (calm_run small room moves calm (negotiated_sound lib config config') rfl)

end Pipe

namespace PipeExample
open MessagePack

def readGossip (bytes : Bytes) : Option Message := do
  let (fields,rest) ← takeArrayLen bytes
  let (topic,rest) ← takeStr rest
  let (entries,rest) ← takeMapLen rest
  let (name,rest) ← takeStr rest
  let (data,rest) ← takeContent takeBinLen rest
  if fields = 2 ∧ entries = 1 ∧ name = "Gossip" ∧ rest = [] then some ⟨topic,.gossip data⟩ else none

theorem read_gossip (topic : String) (data : Bytes) (small : (Wire.gossip topic data).length < 2^32) :
    readGossip (Wire.gossip topic data) = some ⟨topic,.gossip data⟩ := by
  rw [gossip_size] at small
  unfold frameSize at small
  have fits : (Wire.utf8 topic).length < 2^32 := by omega
  have text : Wire.text topic = str topic := by
    rw [Wire.text,Nat.mod_eq_of_lt fits]
    rfl
  have bin : Wire.bin data = binLen data.length ++ data := by
    rw [Wire.bin,Nat.mod_eq_of_lt (by omega)]
  have topic_small : (str topic).length < 2^32 := by
    rw [← text,Wire.text,List.length_append,strLen_length,Nat.mod_eq_of_lt fits]
    rw [Nat.mod_eq_of_lt fits] at small
    omega
  have bytes : Wire.gossip topic data = arrayLen 2 ++ (str topic ++ (mapLen 1 ++ (str "Gossip" ++ (binLen data.length ++ data ++ [])))) := by
    rw [← text,← bin]
    simp [Wire.gossip,Wire.variant,array,map]
  have name := takeStr_str "Gossip" (binLen data.length ++ data ++ []) (by decide)
  have content := takeContent_sized takeBinLen_binLen data [] (by omega)
  rw [bytes,readGossip,takeArrayLen_arrayLen _ (by omega)]
  simp only [Option.bind_eq_bind,Option.bind_some,takeStr_str _ _ topic_small,takeMapLen_mapLen _ (show 1 < 2^32 by omega)]
  rw [name]
  dsimp only [Option.bind_some]
  rw [content]
  rfl

def fromSlice (bytes : Bytes) : Except String Message := match readGossip bytes with
  | some message => .ok message
  | none => .error "unused"

def pollNext (c : Codec) (framed : FramedRead Framing.uvi c) (fault : Option String) (ended : Bool) :
    Poll (Option (Except UpgradeError Message)) × FramedRead Framing.uvi c :=
  match c.decode fromSlice framed with
  | (.ok (some message),framed) => (.ready (some (.ok message)),framed)
  | (.error e,framed) => (.ready (some (.error e)),framed)
  | (.ok none,framed) => match fault with
    | some e => (.ready (some (.error (.io e))),framed)
    | none =>
      if ended then if framed.buffer.isEmpty then (.ready none,framed)
        else (.ready (some (.error (.io "bytes remaining in stream"))),framed)
      else (.pending,framed)

theorem poll_polls (c : Codec) (src : FramedRead Framing.uvi c) (fault : Option String) (ended : Bool) :
    Polls (c.decode fromSlice src) fault ended (pollNext c src fault ended) := by
  unfold pollNext
  rcases c.decode fromSlice src with ⟨answer,src'⟩
  cases answer with
  | error e => exact .ends (by simp) (.inl ⟨e,rfl⟩)
  | ok found => cases found with
    | some next => exact .message rfl
    | none => cases fault with
      | some e => exact .ends (by simp) (.inr (.inl (by simp)))
      | none => cases ended with
        | false => exact .pending rfl
        | true =>
            dsimp only
            rw [if_pos rfl]
            split_ifs with empty
            · exact .ends (by simp) (.inr (.inr rfl))
            · exact .ends (by simp) (.inr (.inr rfl))

def library : StreamLibrary where
  toVec := CodecExample.library.toVec
  encode max item dst := if item.length ≤ max then .ok (dst ++ Framing.uviFrame item) else .error "len > max"
  toVec_gossip _ _ := rfl
  encode_limit max item dst := by
    by_cases fits : item.length ≤ max <;> simp [fits]
  fromSlice := fromSlice
  framing := Framing.uvi
  pollNext := pollNext
  polls := poll_polls
  limits _ := rfl
  wide _ := Nat.pow_le_pow_right (by decide) (by decide)
  frames max max' item dst out written _ := by
    split_ifs at written
    · cases written
      rfl
  reads message bytes made small := by
    cases message with
    | mk topic action => cases action with
      | gossip data =>
          cases made
          rw [fromSlice,read_gossip topic data small]
      | _ => cases made

def config (max : Nat) : NetworkConfig := ⟨3,2,2,4,max,10,none,30⟩
def hello : Message := ⟨"topic",.gossip [104,105]⟩
def large : Message := ⟨"topic",.gossip (List.replicate 100 0)⟩

def pump : PipeMove := .write true (.ready (.ok ())) (.ready (.ok ())) .pending

def moves : List PipeMove := [.inject hello,.inject large,.inject hello] ++ List.replicate 8 pump ++
  [.transmit 5,.arrive 3,.read none false .pending,.transmit 2,.arrive 1,.read none false .pending]

end PipeExample

open Pipe PipeExample in
theorem hello_arrives_twice :
    let own := Codec.new 64
    let final := run own (negotiated library (config 64) (config 64)) moves
    delivered (final.2 ++ (run own final.1 (final.1.drain 2 .pending)).2) = [hello,hello] := by
  intro own final
  have sent : sent final.2 = [hello,hello] := by decide +kernel
  have early : delivered final.2 = [] := by decide +kernel
  have read : delivered (final.2 ++ (run own final.1 (final.1.drain 2 .pending)).2) =
      (Pipe.sent final.2).take ((delivered final.2).length + 2) :=
    (pipe_fifo library (config 64) (config 64) moves (by decide)).2.2 (Nat.le_refl _) (by simp [moves,pump,Calm]) 2 .pending
  rwa [sent,early] at read

end AnomaAlpha
