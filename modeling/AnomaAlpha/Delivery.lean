import AnomaAlpha.Stack

-- What a connection brings as long as nothing of it fails.
namespace AnomaAlpha
open PollLoop SubstreamHandler

namespace Pipe
variable {lib : StreamLibrary} {c : Codec}

def fits (lib : StreamLibrary) (own : Codec) (message : Message) : Bool := match lib.toVec message with
  | .ok packet => packet.length ≤ own.lengthPrefix
  | .error _ => false

def Plain (lib : StreamLibrary) (message : Message) : Prop := ∃ packet, lib.toVec message = .ok packet

def Smooth (lib : StreamLibrary) : PipeMove → Prop
  | .inject message => Plain lib message
  | .write _ ready flush _ => (∀ e, ready ≠ .ready (.error e)) ∧ ∀ e, flush ≠ .ready (.error e)
  | .breakSender => False
  | _ => True

def pump (close : Poll (Except UpgradeError Unit)) : PipeMove := .write true (.ready (.ok ())) (.ready (.ok ())) close

def Writes (h : SubstreamHandler Unit) : Prop := match h.outboundStream with
  | some (.awaitingWrite _) | some (.pendingWrite _ _) | some (.pendingFlush _) => True
  | _ => False

def due (h : SubstreamHandler Unit) : List Message := h.held ++ h.outboundMessages

section
variable {own : Codec} {l : Pipe lib c} {log : List PipeEvent}

theorem encode_fits (own : Codec) {message : Message} (plain : Plain lib message) (buffered : Bytes) :
    (fits lib own message = true ∧ ∃ out, own.encode lib.toFrameLibrary message buffered = .ok out) ∨
    (fits lib own message = false ∧ own.encode lib.toFrameLibrary message buffered = .error .maxTransmissionSizeExceeded) := by
  obtain ⟨packet,made⟩ := plain
  have limit := lib.encode_limit own.lengthPrefix packet buffered
  unfold fits Codec.encode
  rw [made]
  cases written : lib.encode own.lengthPrefix packet buffered with
  | ok out =>
      have short := limit.mp ⟨out,written⟩
      refine .inl ⟨by simpa using short,out,?_⟩
      simp only [Except.mapError,bind,Except.bind,written]
  | error e =>
      have long : ¬packet.length ≤ own.lengthPrefix := by
        intro short
        obtain ⟨out,good⟩ := limit.mpr short
        rw [written] at good
        cases good
      refine .inr ⟨by simpa using long,?_⟩
      simp only [Except.mapError,bind,Except.bind,written]

-- A round of a sender that can write: it still can, and what it has to write is
-- sent or kept, but for what is too large.
structure Goes (lib : StreamLibrary) (own : Codec) (h : SubstreamHandler Unit)
    (lap : Lap (SubstreamHandler Unit) Note HandlerEvent) : Prop where
  writes : Writes lap.after
  books : sent (notedEvents lap.notes) ++ (due lap.after).filter (fits lib own) = (due h).filter (fits lib own)

theorem smooth_goes (writes : Writes l.sender) (plain : ∀ message ∈ due l.sender, Plain lib message) (recv : Bool)
    (ready flush close : Poll (Except UpgradeError Unit)) (smooth : Smooth lib (.write recv ready flush close)) :
    Goes lib own l.sender (outboundRound ⟨recv,ready,(l.startSend own).1,flush,close⟩ l.sender) := by
  obtain ⟨steady,flushes⟩ := smooth
  unfold Writes at writes
  unfold due held at plain
  unfold outboundRound startSend
  cases state : l.sender.outboundStream with
  | none => exact (state ▸ writes).elim
  | some outbound => cases outbound with
    | substreamRequested | closing | poisoned => exact (state ▸ writes).elim
    | awaitingWrite substream =>
        cases recv with
        | false => exact ⟨trivial,by simp [due,held,state,notedEvents,sent]⟩
        | true => cases queue : l.sender.outboundMessages with
          | nil => exact ⟨trivial,by simp [due,held,state,notedEvents,sent,queue]⟩
          | cons message rest => exact ⟨trivial,by simp [due,held,state,notedEvents,sent,queue]⟩
    | pendingWrite substream message =>
        rw [state] at plain
        cases ready with
        | pending => exact ⟨trivial,by simp [due,held,state,notedEvents,sent]⟩
        | ready answer => cases answer with
          | error e => exact (steady e rfl).elim
          | ok done =>
              cases done
              dsimp only
              rcases encode_fits own (plain message (by simp)) l.buffered with ⟨fit,out,made⟩ | ⟨large,refused⟩
              · rw [made]
                exact ⟨trivial,by simp [due,held,state,notedEvents,sent,fit]⟩
              · rw [refused]
                exact ⟨trivial,by simp [due,held,state,notedEvents,sent,large]⟩
    | pendingFlush substream =>
        cases flush with
        | pending => exact ⟨trivial,by simp [due,held,state,notedEvents,sent]⟩
        | ready answer => cases answer with
          | error e => exact (flushes e rfl).elim
          | ok done => exact ⟨trivial,by simp [due,held,state,notedEvents,sent]⟩

-- As long as nothing fails, what was put in and fits is sent or still to be.
structure Going (own : Codec) (l : Pipe lib c) (log : List PipeEvent) : Prop where
  writes : Writes l.sender
  plain : ∀ message ∈ due l.sender, Plain lib message
  books : sent log ++ (due l.sender).filter (fits lib own) = (injected log).filter (fits lib own)

theorem step_going (going : Going own l log) (move : PipeMove) (smooth : Smooth lib move) :
    Going own (l.step own move).1 (log ++ (l.step own move).2) := by
  cases move with
  | inject message =>
      refine ⟨going.writes,?_,?_⟩
      · intro other member
        rw [step,due,injectEvent,← List.append_assoc] at member
        rcases List.mem_append.mp member with old | new
        · exact going.plain other old
        · exact List.mem_singleton.mp new ▸ smooth
      · have books := going.books
        unfold due at books ⊢
        rw [sent_append,injected_append]
        simp only [List.filter_append] at books ⊢
        rw [← books]
        simp [step,sent,injected,injectEvent,held]
  | write recv ready flush close =>
      have goes : Goes lib own l.sender (outboundRound ⟨recv,ready,(l.startSend own).1,flush,close⟩ l.sender) :=
        smooth_goes going.writes going.plain recv ready flush close smooth
      have quiet := noted_delivered (outboundRound ⟨recv,ready,(l.startSend own).1,flush,close⟩ l.sender).notes
      refine ⟨goes.writes,fun message member => going.plain message ?_,?_⟩
      · exact (write_queue _).subset (List.mem_append_right _ member)
      · rw [step,sent_append,injected_append,quiet.2,List.append_nil,← going.books,List.append_assoc,goes.books]
  | read fault ended close =>
      have silent : sent (l.step own (.read fault ended close)).2 = [] ∧ injected (l.step own (.read fault ended close)).2 = [] :=
        answer_events _
      refine ⟨going.writes,going.plain,?_⟩
      rw [sent_append,injected_append,silent.1,silent.2,List.append_nil,List.append_nil]
      exact going.books
  | transmit bytes | arrive bytes | breakReceiver =>
      rw [step,List.append_nil]
      exact ⟨going.writes,going.plain,going.books⟩
  | breakSender => exact smooth.elim

theorem run_going (moves : List PipeMove) (smooth : ∀ move ∈ moves, Smooth lib move) (going : Going own l log) :
    Going own (run own l moves).1 (log ++ (run own l moves).2) := by
  induction moves generalizing l log with
  | nil => simpa [run] using going
  | cons move moves ih =>
      have later := ih (fun later member => smooth later (by simp [member])) (step_going going move (smooth move (by simp)))
      rwa [List.append_assoc] at later

theorem negotiated_going (lib : StreamLibrary) (config config' : NetworkConfig) (own : Codec) :
    Going own (negotiated lib config config') [] :=
  ⟨trivial,nofun,rfl⟩

theorem pump_falls (going : Going own l log) (close : Poll (Except UpgradeError Unit)) :
    (l.step own (pump close)).1.sender.outboundRank ≤ l.sender.outboundRank - 1 := by
  have turns := outboundRound_turns ⟨true,.ready (.ok ()),(l.startSend own).1,.ready (.ok ()),close⟩ l.sender
  have goes_or_rests : (outboundRound ⟨true,.ready (.ok ()),(l.startSend own).1,.ready (.ok ()),close⟩ l.sender).answer = none ∨
      (outboundRound ⟨true,.ready (.ok ()),(l.startSend own).1,.ready (.ok ()),close⟩ l.sender).after.outboundRank = 0 := by
    have writes := going.writes
    have plain := going.plain
    unfold Writes at writes
    unfold due held at plain
    unfold outboundRound startSend
    cases state : l.sender.outboundStream with
    | none => exact (state ▸ writes).elim
    | some outbound => cases outbound with
      | substreamRequested | closing | poisoned => exact (state ▸ writes).elim
      | awaitingWrite substream => cases queue : l.sender.outboundMessages with
        | nil => exact .inr (by simp [outboundRank])
        | cons message rest => exact .inl rfl
      | pendingWrite substream message =>
          rw [state] at plain
          dsimp only
          rcases encode_fits own (plain message (by simp)) l.buffered with ⟨_,out,made⟩ | ⟨_,refused⟩
          · rw [made]
            exact .inl rfl
          · rw [refused]
            exact .inl rfl
      | pendingFlush substream => exact .inl rfl
  rcases goes_or_rests with goes | rests
  · have falls := turn_falls turns goes
    exact Nat.le_sub_one_of_lt falls
  · exact rests ▸ Nat.zero_le _

theorem pumps_rest (close : Poll (Except UpgradeError Unit)) (n : Nat) (enough : l.sender.outboundRank ≤ n)
    (going : Going own l log) : (run own l (List.replicate n (pump close))).1.sender.outboundRank = 0 := by
  induction n generalizing l log with
  | zero => exact Nat.le_zero.mp enough
  | succ n ih =>
      have falls := pump_falls going close
      exact ih (by omega) (step_going going (pump close) ⟨nofun,nofun⟩)

theorem rest_due (rest : l.sender.outboundRank = 0) : due l.sender = [] := by
  obtain ⟨queue,state⟩ := Nat.add_eq_zero_iff.mp rest
  have empty : l.sender.outboundMessages = [] := List.length_eq_zero_iff.mp (by omega)
  unfold due held
  rw [empty]
  cases stream : l.sender.outboundStream with
  | none => rfl
  | some outbound => cases outbound with
    | pendingWrite substream message =>
        rw [stream] at state
        cases state
    | _ => rfl

-- A pipe that nothing has failed on is emptied: the sender's rounds go on until it
-- has nothing left, then everything arrives and is read.
def empty (own : Codec) (l : Pipe lib c) (n : Nat) (close : Poll (Except UpgradeError Unit)) : List PipeMove :=
  let pumps := List.replicate l.sender.outboundRank (pump close)
  pumps ++ (run own l pumps).1.drain n close

theorem outside_run_injects (l : Pipe lib c) (moves : List PipeMove) (outside : ∀ move ∈ moves, move.outside = true) :
    injected (run own l moves).2 = [] := by
  induction moves generalizing l with
  | nil => rfl
  | cons move moves ih =>
      rw [run,injected_append,Stack.outside_injects l move (outside move (by simp)),
        ih _ fun later member => outside later (by simp [member])]
      rfl

theorem empty_easy (own : Codec) (l : Pipe lib c) (n : Nat) (close : Poll (Except UpgradeError Unit)) :
    ∀ move ∈ l.empty own n close, move.outside = true ∧ Calm move ∧ Smooth lib move := by
  intro move member
  rcases List.mem_append.mp member with pumping | draining
  · obtain ⟨_,rfl⟩ := List.mem_replicate.mp pumping
    exact ⟨rfl,trivial,nofun,nofun⟩
  · unfold drain at draining
    rcases List.mem_cons.mp draining with rfl | draining
    · exact ⟨rfl,trivial,trivial⟩
    · rcases List.mem_cons.mp draining with rfl | draining
      · exact ⟨rfl,trivial,trivial⟩
      · obtain ⟨_,rfl⟩ := List.mem_replicate.mp draining
        exact ⟨rfl,⟨rfl,rfl⟩,trivial⟩

theorem empty_delivers (small : own.lengthPrefix < 2^32) (room : own.lengthPrefix ≤ c.lengthPrefix)
    (close : Poll (Except UpgradeError Unit)) (n : Nat) (enough : (injected log).length ≤ n) (sound : Sound own l log)
    (going : Going own l log) (reads : l.receiver.inboundStream = some (.awaitingRead ())) :
    delivered (log ++ (run own l (l.empty own n close)).2) = (injected log).filter (fits lib own) := by
  have pumping : ∀ move ∈ List.replicate l.sender.outboundRank (pump close),
      move.outside = true ∧ Calm move ∧ Smooth lib move :=
    fun move member => empty_easy own l n close move (List.mem_append_left _ member)
  have silent : injected (run own l (List.replicate l.sender.outboundRank (pump close))).2 = [] :=
    outside_run_injects l _ fun move member => (pumping move member).1
  have pumped := run_sound small (List.replicate l.sender.outboundRank (pump close)) sound
  have gone := run_going _ (fun move member => (pumping move member).2.2) going
  have still := calm_run small room _ (fun move member => (pumping move member).2.1) sound reads
  have books := gone.books
  rw [rest_due (pumps_rest close _ (Nat.le_refl _) going),List.filter_nil,List.append_nil,injected_append,silent,List.append_nil] at books
  have drained := drain_delivers small room close n pumped still
  rw [List.append_assoc] at drained
  rw [empty,run_append,drained,books,List.take_of_length_le]
  exact (List.length_filter_le _ _).trans (enough.trans (Nat.le_add_left _ _))

end
end Pipe

def Behaviour.waiting (b : Behaviour) : Nat := b.events.length + b.disconnects.length + b.outmsgs.length

theorem Behaviour.poll_falls (b : Behaviour) : b.poll.2.waiting ≤ b.waiting - 1 := by
  have polls := Behaviour.polls b
  generalize b.poll = found at polls ⊢
  unfold waiting
  cases polls with
  | event queued =>
      rw [queued,List.length_cons]
      dsimp only
      omega
  | closing calm queued =>
      rw [queued,List.length_cons]
      dsimp only
      omega
  | message calm together queued =>
      rw [queued,List.length_cons]
      dsimp only
      omega
  | idle calm together quiet =>
      rw [calm,together,quiet]
      exact Nat.le_refl _

theorem Behaviour.rested {b : Behaviour} (rest : b.waiting = 0) : b.events = [] ∧ b.outmsgs = [] := by
  unfold waiting at rest
  exact ⟨List.length_eq_zero_iff.mp (by omega),List.length_eq_zero_iff.mp (by omega)⟩

namespace Stack
variable {lib : StreamLibrary} {c : Codec} {ends : Ends} {swarm : Swarm ends}

-- Nobody closes the connection and nothing of it fails.
def Peaceful (lib : StreamLibrary) (ends : Ends) : StackMove → Prop
  | .near call => ends.closes call = false ∧ call.parts ≠ some (ends.peer,ends.connection) ∧
    ∀ message ∈ asked (ends.asks call), Pipe.Plain lib message
  | .pipe move => Pipe.Calm move ∧ Pipe.Smooth lib move
  | .pollNear | .far _ | .pollFar => True

structure Lasting (s : Stack lib c swarm) : Prop where
  whole : s.shut = false
  stays : (ends.peer,ends.connection) ∉ s.near.disconnects
  plain : ∀ message ∈ ends.queued s.near, Pipe.Plain lib message

section
variable {own : Codec} {s : Stack lib c swarm}

theorem start_lasting (lib : StreamLibrary) (swarm : Swarm ends) (config config' : NetworkConfig) :
    Lasting (start lib swarm config config') := by
  refine ⟨?_,nofun,nofun⟩
  rw [shut,start,swarm.opens]
  rfl

theorem step_lasting (own : Codec) (lasting : Lasting s) (move : StackMove) (peaceful : Peaceful lib ends move) :
    Lasting (s.step own move).1 ∧ ∀ piped ∈ s.piped move, Pipe.Calm piped ∧ Pipe.Smooth lib piped := by
  obtain ⟨whole,stays,plain⟩ := lasting
  cases move with
  | near call =>
      obtain ⟨opened,kept,writable⟩ := peaceful
      refine ⟨⟨?_,?_,?_⟩,List.forall_mem_nil _⟩
      · rw [step,shut,swarm.told_other _ _ opened]
        exact whole
      · rw [step,Behaviour.call_disconnects]
        simpa [stays] using fun parts => kept (by simpa using parts)
      · rw [step]
        dsimp only
        rw [queued_call]
        intro message member
        exact (List.mem_append.mp member).elim (plain message) (writable message)
  | pollNear =>
      have polled := pollNear_comes own s
      generalize s.step own .pollNear = done, s.piped .pollNear = moves at polled ⊢
      cases polled with
      | event | idle => exact ⟨⟨whole,stays,plain⟩,List.forall_mem_nil _⟩
      | @closing peer connection disconnects queued =>
          rw [queued,List.mem_cons,not_or] at stays
          have other : ends.here peer connection ≠ true := by
            intro here
            obtain ⟨rfl,rfl⟩ := here_iff.mp here
            exact stays.1 rfl
          exact ⟨⟨by rwa [shut,swarm.closing_other _ _ _ (Bool.eq_false_iff.mpr other)],stays.2,plain⟩,List.forall_mem_nil _⟩
      | handed together queued here opened =>
          rw [queued_first ends queued,here,if_pos rfl] at plain
          refine ⟨⟨whole,stays,fun message member => plain message (List.mem_append_right _ member)⟩,fun move member => ?_⟩
          rw [List.mem_singleton.mp member]
          exact ⟨trivial,plain _ (by simp)⟩
      | passed queued other =>
          rw [queued_first ends queued] at plain
          exact ⟨⟨whole,stays,fun message member => plain message (List.mem_append_right _ member)⟩,List.forall_mem_nil _⟩
  | pipe move =>
      unfold step piped
      dsimp only
      split
      · exact ⟨⟨whole,stays,plain⟩,fun piped member => List.mem_singleton.mp member ▸ peaceful⟩
      · exact ⟨⟨whole,stays,plain⟩,List.forall_mem_nil _⟩
  | far call =>
      refine ⟨?_,List.forall_mem_nil _⟩
      unfold step
      dsimp only
      split <;> exact ⟨whole,stays,plain⟩
  | pollFar =>
      refine ⟨?_,List.forall_mem_nil _⟩
      have polled := pollFar_comes own s
      generalize s.step own .pollFar = done at polled ⊢
      cases polled with
      | received | silent => exact ⟨whole,stays,plain⟩

theorem run_lasting (moves : List StackMove) (peaceful : ∀ move ∈ moves, Peaceful lib ends move) (lasting : Lasting s) :
    Lasting (run own s moves).1 ∧ ∀ piped ∈ pipedRun own s moves, Pipe.Calm piped ∧ Pipe.Smooth lib piped := by
  induction moves generalizing s with
  | nil => exact ⟨lasting,List.forall_mem_nil _⟩
  | cons move moves ih =>
      obtain ⟨still,first⟩ : Lasting (s.step own move).1 ∧
        ∀ piped ∈ s.piped move, Pipe.Calm piped ∧ Pipe.Smooth lib piped :=
        step_lasting own lasting move (peaceful move (by simp))
      obtain ⟨final,rest⟩ := ih (fun later member => peaceful later (by simp [member])) still
      exact ⟨final,fun piped member => (List.mem_append.mp member).elim (first piped) (rest piped)⟩

theorem pipedRun_append (s : Stack lib c swarm) (moves more : List StackMove) :
    pipedRun own s (moves ++ more) = pipedRun own s moves ++ pipedRun own (run own s moves).1 more := by
  induction moves generalizing s with
  | nil => rfl
  | cons move moves ih => simp [pipedRun,run,ih]

theorem pollNear_near (s : Stack lib c swarm) : (s.step own .pollNear).1.near = s.near.poll.2 := by
  have polls := Behaviour.polls s.near
  unfold step
  dsimp only
  generalize s.near.poll = found at polls ⊢
  cases polls with
  | event | closing | idle => rfl
  | message =>
      dsimp only
      split <;> rfl

theorem pollFar_far (s : Stack lib c swarm) : (s.step own .pollFar).1.far = s.far.poll.2 := by
  have polls := Behaviour.polls s.far
  unfold step
  dsimp only
  generalize s.far.poll = found at polls ⊢
  cases polls with
  | event | closing | message | idle => rfl

def Idle : StackMove → Prop
  | .near _ | .far _ => False
  | .pollNear | .pipe _ | .pollFar => True

theorem idle_asks (own : Codec) (s : Stack lib c swarm) (move : StackMove) (idle : Idle move) : asked (s.step own move).2 = [] := by
  cases move with
  | near call | far call => exact idle.elim
  | pollNear =>
      have polled := pollNear_comes own s
      generalize s.step own .pollNear = done, s.piped .pollNear = moves at polled ⊢
      cases polled with
      | event | closing | handed | passed | idle => rfl
  | pipe move =>
      cases outside : move.outside with
      | true =>
          rw [pipe_raises s move outside]
          exact (raises_only _).1
      | false =>
          unfold step
          dsimp only
          rw [if_neg (by simp [outside])]
          rfl
  | pollFar =>
      have polled := pollFar_comes own s
      generalize s.step own .pollFar = done at polled ⊢
      cases polled with
      | received | silent => rfl

theorem idle_run_asks (s : Stack lib c swarm) (moves : List StackMove) (idle : ∀ move ∈ moves, Idle move) :
    asked (run own s moves).2 = [] := by
  induction moves generalizing s with
  | nil => rfl
  | cons move moves ih =>
      rw [run,asked_append,idle_asks own s move (idle move (by simp)),ih _ fun later member => idle later (by simp [member])]
      rfl

theorem pollsNear_rest (n : Nat) (s : Stack lib c swarm) (enough : s.near.waiting ≤ n) :
    (run own s (List.replicate n .pollNear)).1.near.waiting = 0 := by
  induction n generalizing s with
  | zero => exact Nat.le_zero.mp enough
  | succ n ih =>
      have falls := Behaviour.poll_falls s.near
      refine ih _ ?_
      rw [pollNear_near]
      omega

theorem pollsFar_rest (n : Nat) (s : Stack lib c swarm) (enough : s.far.waiting ≤ n) :
    (run own s (List.replicate n .pollFar)).1.far.waiting = 0 := by
  induction n generalizing s with
  | zero => exact Nat.le_zero.mp enough
  | succ n ih =>
      have falls := Behaviour.poll_falls s.far
      refine ih _ ?_
      rw [pollFar_far]
      omega

theorem piped_pipe (s : Stack lib c swarm) (moves : List PipeMove) (outside : ∀ move ∈ moves, move.outside = true) :
    pipedRun own s (moves.map .pipe) = moves := by
  induction moves generalizing s with
  | nil => rfl
  | cons move moves ih =>
      have alone : s.piped (.pipe move) = [move] := if_pos (outside move (by simp))
      rw [List.map_cons,pipedRun,alone,ih _ fun later member => outside later (by simp [member])]
      rfl

theorem piped_pollFar (s : Stack lib c swarm) (n : Nat) : pipedRun own s (List.replicate n .pollFar) = [] := by
  induction n generalizing s with
  | zero => rfl
  | succ n ih => exact ih _

def unload (s : Stack lib c swarm) : List StackMove := List.replicate s.near.waiting .pollNear

-- The near behaviour, the pipe within and the far behaviour are emptied in turn.
def settle (own : Codec) (n : Nat) (s : Stack lib c swarm) : List StackMove :=
  let rested := (run own s s.unload).1
  let pipe := (rested.pipe.empty own n .pending).map .pipe
  s.unload ++ (pipe ++ List.replicate (run own rested pipe).1.far.waiting .pollFar)

theorem unload_easy (s : Stack lib c swarm) : ∀ move ∈ s.unload, Idle move ∧ Peaceful lib ends move := by
  intro move member
  obtain ⟨_,rfl⟩ := List.mem_replicate.mp member
  exact ⟨trivial,trivial⟩

theorem settle_easy (own : Codec) (n : Nat) (s : Stack lib c swarm) :
    ∀ move ∈ s.settle own n, Idle move ∧ Peaceful lib ends move := by
  intro move member
  rcases List.mem_append.mp member with near | later
  · exact unload_easy s move near
  · rcases List.mem_append.mp later with pipe | far
    · obtain ⟨piped,inside,rfl⟩ := List.mem_map.mp pipe
      exact ⟨trivial,(Pipe.empty_easy own _ n .pending piped inside).2⟩
    · obtain ⟨_,rfl⟩ := List.mem_replicate.mp far
      exact ⟨trivial,trivial⟩

theorem unload_queued (s : Stack lib c swarm) : ends.queued (run own s s.unload).1.near = [] := by
  rw [Ends.queued,unload,(Behaviour.rested (pollsNear_rest _ _ (Nat.le_refl _))).2]
  rfl

theorem settle_told (n : Nat) (s : Stack lib c swarm) : (run own s (s.settle own n)).1.far.events = [] := by
  have silent : ∀ t : Stack lib c swarm, (run own t (List.replicate t.far.waiting .pollFar)).1.far.events = [] :=
    fun t => (Behaviour.rested (pollsFar_rest t.far.waiting t (Nat.le_refl _))).1
  simp only [settle,run_append]
  exact silent _

theorem settle_piped (n : Nat) (s : Stack lib c swarm) : pipedRun own s (s.settle own n) =
    pipedRun own s s.unload ++ (run own s s.unload).1.pipe.empty own n .pending := by
  unfold settle
  dsimp only
  rw [pipedRun_append,pipedRun_append,piped_pollFar,List.append_nil,piped_pipe]
  exact fun move member => (Pipe.empty_easy own _ n .pending move member).1

end

section
variable {config config' : NetworkConfig} {moves : List StackMove}

theorem unload_peaceful {s : Stack lib c swarm} (peaceful : ∀ move ∈ moves, Peaceful lib ends move) :
    ∀ move ∈ moves ++ s.unload, Peaceful lib ends move :=
  fun move member => (List.mem_append.mp member).elim (peaceful move) fun polled => (unload_easy s move polled).2

theorem unload_hands (own : Codec) (peaceful : ∀ move ∈ moves, Peaceful lib ends move) :
    let final := run own (start lib swarm config config') moves
    handed (run own (start lib swarm config config') (moves ++ final.1.unload)).2 = asked final.2 := by
  intro final
  have joined : run own (start lib swarm config config') (moves ++ final.1.unload) =
      ((run own final.1 final.1.unload).1,final.2 ++ (run own final.1 final.1.unload).2) := run_append _ _ _
  have carried : Carried (run own (start lib swarm config config') (moves ++ final.1.unload)).1
      (run own (start lib swarm config config') (moves ++ final.1.unload)).2 :=
    run_carried _ (start_carried lib swarm config config')
  have lasting : Lasting (run own (start lib swarm config config') (moves ++ final.1.unload)).1 :=
    (run_lasting _ (unload_peaceful peaceful) (start_lasting lib swarm config config')).1
  have silent : asked (run own final.1 final.1.unload).2 = [] :=
    idle_run_asks _ _ fun move polled => (unload_easy final.1 move polled).1
  have whole := carried.whole lasting.whole
  rw [joined,asked_append,silent,unload_queued,List.append_nil,List.append_nil] at whole
  rw [joined]
  exact whole.symm

theorem settle_receives (own : Codec) (n : Nat) :
    let final := run own (start lib swarm config config') moves
    raised (run own (start lib swarm config config') (moves ++ final.1.settle own n)).2 =
      received (run own (start lib swarm config config') (moves ++ final.1.settle own n)).2 := by
  intro final
  have carried : Carried (run own (start lib swarm config config') (moves ++ final.1.settle own n)).1
      (run own (start lib swarm config config') (moves ++ final.1.settle own n)).2 :=
    run_carried _ (start_carried lib swarm config config')
  have events := carried.events
  rw [run_append] at events ⊢
  rw [settle_told,List.append_nil] at events
  exact events

theorem peaceful_delivers (small : config.maxTransmitSize < 2^32) (room : config.maxTransmitSize ≤ config'.maxTransmitSize)
    (peaceful : ∀ move ∈ moves, Peaceful lib ends move) (n : Nat) :
    let own := Codec.new config.maxTransmitSize
    let final := run own (start lib swarm config config') moves
    (handed final.2).length ≤ n →
      Pipe.delivered (Pipe.run own (start lib swarm config config').pipe
        (pipedRun own (start lib swarm config config') moves ++ final.1.pipe.empty own n .pending)).2 =
        (handed final.2).filter (Pipe.fits lib own) := by
  intro own final enough
  have easy : ∀ piped ∈ pipedRun own (start lib swarm config config') moves, Pipe.Calm piped ∧ Pipe.Smooth lib piped :=
    (run_lasting moves peaceful (start_lasting lib swarm config config')).2
  have shown : Shows (Pipe.run own (start lib swarm config config').pipe (pipedRun own (start lib swarm config config') moves)) final :=
    run_shows _ moves
  have sound := Pipe.run_sound small (pipedRun own (start lib swarm config config') moves) (Pipe.negotiated_sound lib config config')
  have going := Pipe.run_going _ (fun move member => (easy move member).2) (Pipe.negotiated_going lib config config' own)
  have reads := Pipe.calm_run small room _ (fun move member => (easy move member).1) (Pipe.negotiated_sound lib config config') rfl
  have delivers := Pipe.empty_delivers small room .pending n (shown.injected ▸ enough) sound going reads
  rw [Pipe.run_append,← shown.pipe,← shown.injected]
  exact delivers

end

-- As long as nobody closes the connection and nothing of it fails, it can go on
-- without a further call, and without a failure, until everything that was sent and
-- is not too large has been received, once and in order, and nothing else.
theorem stack_delivers (lib : StreamLibrary) {ends : Ends} (swarm : Swarm ends) (config config' : NetworkConfig) (moves : List StackMove)
    (small : config.maxTransmitSize < 2^32) (room : config.maxTransmitSize ≤ config'.maxTransmitSize)
    (peaceful : ∀ move ∈ moves, Peaceful lib ends move) :
    let own := Codec.new config.maxTransmitSize
    let final := run own (start lib swarm config config') moves
    ∃ more, (∀ move ∈ more, Idle move ∧ Peaceful lib ends move) ∧
      ends.messages (received (run own (start lib swarm config config') (moves ++ more)).2) =
        (asked final.2).filter (Pipe.fits lib own) := by
  intro own final
  let more := final.1.settle own (asked final.2).length
  refine ⟨more,settle_easy own _ _,?_⟩
  have hands : handed (run own (start lib swarm config config') (moves ++ final.1.unload)).2 = asked final.2 :=
    unload_hands own peaceful
  have brought := peaceful_delivers small room (unload_peaceful peaceful) (asked final.2).length
    (le_of_eq (congrArg List.length hands))
  have shown : Shows (Pipe.run own (start lib swarm config config').pipe (pipedRun own (start lib swarm config config') (moves ++ more)))
      (run own (start lib swarm config config') (moves ++ more)) := run_shows _ _
  have told : raised (run own (start lib swarm config config') (moves ++ more)).2 =
      received (run own (start lib swarm config config') (moves ++ more)).2 := settle_receives own _
  have within : pipedRun own (start lib swarm config config') (moves ++ more) =
      pipedRun own (start lib swarm config config') (moves ++ final.1.unload) ++
        (run own (start lib swarm config config') (moves ++ final.1.unload)).1.pipe.empty own (asked final.2).length .pending := by
    rw [pipedRun_append,settle_piped,pipedRun_append,run_append,List.append_assoc]
  rw [hands] at brought
  rw [← told,← shown.delivered,within]
  exact brought

end Stack

namespace StackExample
open PipeExample

def sends : List StackMove := [send,.near (.command (.sendMessage peer 7 large)),.pollNear,send]

end StackExample

open Stack PipeExample StackExample in
theorem large_left_out : ∃ more, (∀ move ∈ more, Idle move ∧ Peaceful library ends move) ∧
    ends.messages (received (Stack.run (Codec.new 64) (Stack.start library StackExample.swarm (config 64) (config 64)) (sends ++ more)).2) =
      [hello,hello] := by
  have fit : (asked (Stack.run (Codec.new 64) (Stack.start library StackExample.swarm (config 64) (config 64)) sends).2).filter
      (Pipe.fits library (Codec.new 64)) = [hello,hello] := by decide +kernel
  obtain ⟨more,easy,came⟩ := stack_delivers library StackExample.swarm (config 64) (config 64) sends (by decide) (Nat.le_refl _) (by
    intro move member
    simp only [sends,List.mem_cons,List.not_mem_nil,or_false] at member
    rcases member with rfl | rfl | rfl | rfl
    · exact ⟨rfl,nofun,fun message asks => List.mem_singleton.mp asks ▸ ⟨_,rfl⟩⟩
    · exact ⟨rfl,nofun,fun message asks => List.mem_singleton.mp asks ▸ ⟨_,rfl⟩⟩
    · exact trivial
    · exact ⟨rfl,nofun,fun message asks => List.mem_singleton.mp asks ▸ ⟨_,rfl⟩⟩)
  exact ⟨more,easy,came.trans fit⟩

end AnomaAlpha
