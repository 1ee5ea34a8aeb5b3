import AnomaAlpha.Behaviour

-- One connection through everything below two networks: their behaviours, the handlers
-- and the bytes between them.
namespace AnomaAlpha
open PollLoop

structure Ends where
  peer : PeerId
  connection : ConnectionId
  origin : PeerId
  remote : ConnectionId

inductive StackMove where
  | near (call : BehaviourCall)
  | pollNear
  | pipe (move : PipeMove)
  | far (call : BehaviourCall)
  | pollFar

inductive StackEvent where
  | asked (message : Message)
  | handed (message : Message)
  | raised (event : SwarmEvent)
  | received (event : SwarmEvent)

namespace Ends
variable (ends : Ends)

def here (peer : PeerId) (connection : ConnectionId) : Bool := peer == ends.peer && connection == ends.connection

def asks (call : BehaviourCall) : List StackEvent :=
  match call.sends with
  | some (peer,connection,msg) => if ends.here peer connection then [.asked msg] else []
  | none => []

-- A swarm shuts all connections of a peer that it bans.
def closes : BehaviourCall → Bool
  | .closed peer connection => ends.here peer connection
  | .command (.banPeer peer) => peer == ends.peer
  | _ => false

-- Messages of the connection come from its handler and from nowhere else.
def forges : BehaviourCall → Bool
  | .event peer connection _ => peer == ends.origin && connection == ends.remote
  | _ => false

def queued (b : Behaviour) : List Message :=
  b.outmsgs.filterMap fun entry => if ends.here entry.1 entry.2.1 then some entry.2.2 else none

def messages (events : List SwarmEvent) : List Message := events.filterMap fun event => match event with
  | .messageReceived peer connection msg => if peer = ends.origin ∧ connection = ends.remote then some msg else none
  | _ => none

end Ends

-- What the stack takes from the swarm under the near network: which messages for a
-- handler it hands to that of the connection, as long as it keeps the connection open.
structure Swarm (ends : Ends) where
  State : Type
  connected : State
  told : State → BehaviourCall → State
  closing : State → PeerId → ConnectionId → State
  notifies : State → PeerId → ConnectionId → Bool
  own : ∀ state peer connection, notifies state peer connection = true → ends.here peer connection = true
  opens : notifies connected ends.peer ends.connection = true
  told_other : ∀ state call, ends.closes call = false →
    notifies (told state call) ends.peer ends.connection = notifies state ends.peer ends.connection
  told_shut : ∀ state call, notifies state ends.peer ends.connection = false →
    notifies (told state call) ends.peer ends.connection = false
  closing_other : ∀ state peer connection, ends.here peer connection = false →
    notifies (closing state peer connection) ends.peer ends.connection = notifies state ends.peer ends.connection
  closing_here : ∀ state, notifies (closing state ends.peer ends.connection) ends.peer ends.connection = false

structure Stack (lib : StreamLibrary) (c : Codec) {ends : Ends} (swarm : Swarm ends) where
  near : Behaviour
  state : swarm.State
  pipe : Pipe lib c
  far : Behaviour

def PipeMove.outside : PipeMove → Bool
  | .inject _ => false
  | _ => true

namespace Stack
variable {lib : StreamLibrary} {c : Codec} {ends : Ends} {swarm : Swarm ends}

def start (lib : StreamLibrary) (swarm : Swarm ends) (config config' : NetworkConfig) :
    Stack lib (Codec.new config'.maxTransmitSize) swarm :=
  ⟨.new config,swarm.connected,.negotiated lib config config',.new config'⟩

-- The handlers of the connection are those that the behaviours make.
theorem start_handlers (lib : StreamLibrary) (swarm : Swarm ends) (config config' : NetworkConfig) :
    (start lib swarm config config').pipe.sender = (Behaviour.new config).newHandler.injectFullyNegotiatedOutbound () ∧
      (start lib swarm config config').pipe.receiver = (Behaviour.new config').newHandler.injectFullyNegotiatedInbound () :=
  ⟨rfl,rfl⟩

def shut (s : Stack lib c swarm) : Bool := !swarm.notifies s.state ends.peer ends.connection

def step (own : Codec) (s : Stack lib c swarm) : StackMove → Stack lib c swarm × List StackEvent
  | .near call => ({s with near := s.near.call call, state := swarm.told s.state call},ends.asks call)
  | .pollNear => match s.near.poll with
    | (.ready (.closeConnection peer connection),near) =>
      ({s with near := near, state := swarm.closing s.state peer connection},[])
    | (.ready (.notifyHandler peer connection msg),near) =>
      if swarm.notifies s.state peer connection then
        ({s with near := near, pipe := (s.pipe.step own (.inject msg)).1},[.handed msg])
      else ({s with near := near},[])
    | (_,near) => ({s with near := near},[])
  | .pipe move =>
    if move.outside then
      let moved := s.pipe.step own move
      let out := Pipe.delivered moved.2
      ({s with pipe := moved.1, far := out.foldl (fun b m => b.injectEvent ends.origin ends.remote m) s.far},
        out.map fun m => .raised (.messageReceived ends.origin ends.remote m))
    else (s,[])
  | .far call =>
    if ends.forges call then (s,[]) else ({s with far := s.far.call call},call.raises.toList.map .raised)
  | .pollFar => match s.far.poll with
    | (.ready (.generateEvent event),far) => ({s with far := far},[.received event])
    | (_,far) => ({s with far := far},[])

def run (own : Codec) (s : Stack lib c swarm) : List StackMove → Stack lib c swarm × List StackEvent
  | [] => (s,[])
  | move :: moves =>
    let first := s.step own move
    let rest := run own first.1 moves
    (rest.1,first.2 ++ rest.2)

def piped (s : Stack lib c swarm) : StackMove → List PipeMove
  | .pollNear => match s.near.poll with
    | (.ready (.notifyHandler peer connection msg),_) => if swarm.notifies s.state peer connection then [.inject msg] else []
    | _ => []
  | .pipe move => if move.outside then [move] else []
  | _ => []

def pipedRun (own : Codec) (s : Stack lib c swarm) : List StackMove → List PipeMove
  | [] => []
  | move :: moves => s.piped move ++ pipedRun own (s.step own move).1 moves

def asked (log : List StackEvent) : List Message := log.filterMap fun event => match event with
  | .asked message => some message
  | _ => none

def handed (log : List StackEvent) : List Message := log.filterMap fun event => match event with
  | .handed message => some message
  | _ => none

def raised (log : List StackEvent) : List SwarmEvent := log.filterMap fun event => match event with
  | .raised event => some event
  | _ => none

def received (log : List StackEvent) : List SwarmEvent := log.filterMap fun event => match event with
  | .received event => some event
  | _ => none

section
variable {own : Codec} {s : Stack lib c swarm} {log : List StackEvent}

@[simp] theorem asked_append (log more : List StackEvent) : asked (log ++ more) = asked log ++ asked more :=
  List.filterMap_append

@[simp] theorem handed_append (log more : List StackEvent) : handed (log ++ more) = handed log ++ handed more :=
  List.filterMap_append

@[simp] theorem raised_append (log more : List StackEvent) : raised (log ++ more) = raised log ++ raised more :=
  List.filterMap_append

@[simp] theorem received_append (log more : List StackEvent) : received (log ++ more) = received log ++ received more :=
  List.filterMap_append

theorem raised_map (events : List SwarmEvent) : raised (events.map .raised) = events := by
  rw [raised,List.filterMap_map]
  exact List.filterMap_some

theorem here_iff {peer : PeerId} {connection : ConnectionId} :
    ends.here peer connection = true ↔ peer = ends.peer ∧ connection = ends.connection := by
  rw [Ends.here,Bool.and_eq_true,beq_iff_eq,beq_iff_eq]

theorem shut_of_notified {peer : PeerId} {connection : ConnectionId} (given : swarm.notifies s.state peer connection = true)
    (here : ends.here peer connection = true) : s.shut = false := by
  obtain ⟨rfl,rfl⟩ := here_iff.mp here
  rw [shut,given]
  rfl

theorem notified_of_open {peer : PeerId} {connection : ConnectionId} (opened : s.shut = false)
    (here : ends.here peer connection = true) : swarm.notifies s.state peer connection = true := by
  obtain ⟨rfl,rfl⟩ := here_iff.mp here
  simpa [shut] using opened

theorem closing_shut (near : Behaviour) (peer : PeerId) (connection : ConnectionId) (gone : s.shut = true) :
    shut {s with near := near, state := swarm.closing s.state peer connection} = true := by
  cases here : ends.here peer connection with
  | true =>
      obtain ⟨rfl,rfl⟩ := here_iff.mp here
      rw [shut,swarm.closing_here]
      rfl
  | false =>
      rw [shut,swarm.closing_other _ _ _ here]
      exact gone

theorem told_shut (near : Behaviour) (call : BehaviourCall) (gone : s.shut = true) :
    shut {s with near := near, state := swarm.told s.state call} = true := by
  rw [shut,swarm.told_shut _ _ (by simpa [shut] using gone)]
  rfl

inductive PolledNear (own : Codec) (s : Stack lib c swarm) : Stack lib c swarm × List StackEvent → List PipeMove → Prop where
  | event {event : SwarmEvent} {events : List SwarmEvent} : s.near.events = event :: events →
      PolledNear own s ({s with near := {s.near with events := events}},[]) []
  | closing {peer : PeerId} {connection : ConnectionId} {disconnects : List (PeerId × ConnectionId)} :
      s.near.disconnects = (peer,connection) :: disconnects →
      PolledNear own s
        ({s with near := {s.near with disconnects := disconnects}, state := swarm.closing s.state peer connection},[]) []
  | handed {peer : PeerId} {connection : ConnectionId} {msg : Message} {outmsgs : List (PeerId × ConnectionId × Message)} :
      s.near.disconnects = [] → s.near.outmsgs = (peer,connection,msg) :: outmsgs → ends.here peer connection = true →
      s.shut = false → PolledNear own s
        ({s with near := {s.near with outmsgs := outmsgs}, pipe := (s.pipe.step own (.inject msg)).1},[.handed msg]) [.inject msg]
  | passed {peer : PeerId} {connection : ConnectionId} {msg : Message} {outmsgs : List (PeerId × ConnectionId × Message)} :
      s.near.outmsgs = (peer,connection,msg) :: outmsgs → (s.shut = false → ends.here peer connection = false) →
      PolledNear own s ({s with near := {s.near with outmsgs := outmsgs}},[]) []
  | idle : PolledNear own s (s,[]) []

theorem pollNear_comes (own : Codec) (s : Stack lib c swarm) :
    PolledNear own s (s.step own .pollNear) (s.piped .pollNear) := by
  have polls := Behaviour.polls s.near
  unfold step piped
  dsimp only
  generalize s.near.poll = found at polls ⊢
  cases polls with
  | event queued => exact .event queued
  | closing _ queued => exact .closing queued
  | idle => exact .idle
  | @message peer connection msg outmsgs _ together queued =>
      dsimp only
      by_cases given : swarm.notifies s.state peer connection = true
      · rw [if_pos given,if_pos given]
        have here := swarm.own _ _ _ given
        exact .handed together queued here (shut_of_notified given here)
      · rw [if_neg given,if_neg given]
        exact .passed queued fun opened => Bool.eq_false_iff.mpr fun here => given (notified_of_open opened here)

inductive PolledFar (own : Codec) (s : Stack lib c swarm) : Stack lib c swarm × List StackEvent → Prop where
  | received {event : SwarmEvent} {events : List SwarmEvent} : s.far.events = event :: events →
      PolledFar own s ({s with far := {s.far with events := events}},[.received event])
  | silent {far : Behaviour} : far.events = s.far.events → PolledFar own s ({s with far := far},[])

theorem pollFar_comes (own : Codec) (s : Stack lib c swarm) : PolledFar own s (s.step own .pollFar) := by
  have polls := Behaviour.polls s.far
  unfold step
  dsimp only
  generalize s.far.poll = found at polls ⊢
  cases polls with
  | event queued => exact .received queued
  | closing | message | idle => exact .silent rfl

-- What is between a network and the handlers: messages wait at the near behaviour
-- and events at the far one.
structure Carried (s : Stack lib c swarm) (log : List StackEvent) : Prop where
  queue : (handed log ++ ends.queued s.near).Sublist (asked log)
  whole : s.shut = false → asked log = handed log ++ ends.queued s.near
  events : raised log = received log ++ s.far.events

theorem start_carried (lib : StreamLibrary) (swarm : Swarm ends) (config config' : NetworkConfig) :
    Carried (start lib swarm config config') [] :=
  ⟨.slnil,fun _ => rfl,rfl⟩

theorem queued_call (b : Behaviour) (call : BehaviourCall) :
    ends.queued (b.call call) = ends.queued b ++ asked (ends.asks call) := by
  unfold Ends.queued
  rw [Behaviour.call_outmsgs,List.filterMap_append]
  congr 1
  unfold Ends.asks
  cases call.sends with
  | none => rfl
  | some entry =>
      obtain ⟨peer,connection,msg⟩ := entry
      dsimp only
      cases here : ends.here peer connection <;> simp [asked,here]

theorem queued_first (ends : Ends) {b : Behaviour} {peer : PeerId} {connection : ConnectionId} {msg : Message}
    {outmsgs : List (PeerId × ConnectionId × Message)} (first : b.outmsgs = (peer,connection,msg) :: outmsgs) :
    ends.queued b = (if ends.here peer connection then [msg] else []) ++ ends.queued {b with outmsgs := outmsgs} := by
  unfold Ends.queued
  rw [first,List.filterMap_cons]
  dsimp only
  cases ends.here peer connection <;> rfl

theorem asks_only (call : BehaviourCall) : handed (ends.asks call) = [] ∧ raised (ends.asks call) = [] ∧
    received (ends.asks call) = [] := by
  unfold Ends.asks
  cases call.sends with
  | none => exact ⟨rfl,rfl,rfl⟩
  | some entry =>
      dsimp only
      split <;> exact ⟨rfl,rfl,rfl⟩

theorem near_carried (call : BehaviourCall) (carried : Carried s log) :
    Carried (s.step own (.near call)).1 (log ++ (s.step own (.near call)).2) := by
  obtain ⟨nothing_handed,nothing_raised,nothing_received⟩ :
      handed (ends.asks call) = [] ∧ raised (ends.asks call) = [] ∧ received (ends.asks call) = [] := asks_only call
  refine ⟨?_,?_,?_⟩
  · rw [step,handed_append,nothing_handed,List.append_nil,asked_append,queued_call,← List.append_assoc]
    exact carried.queue.append_right _
  · intro shut
    rw [step,handed_append,nothing_handed,List.append_nil,asked_append,queued_call,← List.append_assoc]
    rw [carried.whole (Bool.eq_false_iff.mpr fun gone => Bool.eq_false_iff.mp shut (told_shut _ call gone))]
  · rw [step,raised_append,received_append,nothing_raised,nothing_received,List.append_nil,List.append_nil]
    exact carried.events

theorem Carried.spared {near : Behaviour} {state : swarm.State} (carried : Carried s log)
    (same : ends.queued near = ends.queued s.near) (stays : shut {s with near := near, state := state} = false → s.shut = false) :
    Carried {s with near := near, state := state} log :=
  ⟨same ▸ carried.queue,fun opened => (carried.whole (stays opened)).trans (by rw [same]),carried.events⟩

theorem pollNear_carried (carried : Carried s log) :
    Carried (s.step own .pollNear).1 (log ++ (s.step own .pollNear).2) := by
  have polled := pollNear_comes own s
  generalize s.step own .pollNear = done, s.piped .pollNear = moves at polled ⊢
  cases polled with
  | event | idle =>
      rw [List.append_nil]
      exact carried.spared rfl id
  | closing queued =>
      rw [List.append_nil]
      exact carried.spared rfl fun opened =>
        Bool.eq_false_iff.mpr fun gone => Bool.eq_false_iff.mp opened (closing_shut _ _ _ gone)
  | handed together queued here opened =>
      have all := carried.whole opened
      rw [queued_first ends queued,here,if_pos rfl,← List.append_assoc] at all
      refine ⟨?_,fun _ => ?_,?_⟩
      · rw [handed_append,asked_append]
        exact (List.append_nil (asked log)).symm ▸ all.symm ▸ List.Sublist.refl _
      · rw [handed_append,asked_append]
        exact (List.append_nil (asked log)).trans all
      · rw [raised_append,received_append]
        simpa [raised,received] using carried.events
  | @passed peer connection msg outmsgs queued other =>
      have first := queued_first ends queued
      have all := carried.queue
      rw [first] at all
      rw [List.append_nil]
      refine ⟨((List.sublist_append_right _ _).append_left _).trans all,fun opened => ?_,carried.events⟩
      have whole := carried.whole opened
      rw [first,other opened] at whole
      exact whole

theorem outside_injects (l : Pipe lib c) (move : PipeMove) (outside : move.outside = true) :
    Pipe.injected (l.step own move).2 = [] := by
  cases move with
  | inject message => cases outside
  | write recv ready flush close => exact (Pipe.noted_delivered _).2
  | read fault ended close => exact (Pipe.answer_events _).2
  | transmit bytes | arrive bytes | breakSender | breakReceiver => rfl

theorem injected_events (b : Behaviour) (out : List Message) (peer : PeerId) (connection : ConnectionId) :
    (out.foldl (fun b m => b.injectEvent peer connection m) b).events =
      b.events ++ out.map fun m => .messageReceived peer connection m := by
  induction out generalizing b with
  | nil => exact (List.append_nil _).symm
  | cons m out ih =>
      rw [List.foldl_cons,ih,List.map_cons]
      exact List.append_assoc _ [_] _

theorem messages_received (ends : Ends) (out : List Message) :
    ends.messages (out.map fun m => .messageReceived ends.origin ends.remote m) = out := by
  rw [Ends.messages,List.filterMap_map]
  simp

theorem raises_only (events : List SwarmEvent) : asked (events.map .raised) = [] ∧ handed (events.map .raised) = [] ∧
    received (events.map .raised) = [] := by
  induction events with
  | nil => exact ⟨rfl,rfl,rfl⟩
  | cons event events ih => exact ih

theorem Carried.raise {pipe : Pipe lib c} {far : Behaviour} (events : List SwarmEvent) (carried : Carried s log)
    (told : far.events = s.far.events ++ events) :
    Carried {s with pipe := pipe, far := far} (log ++ events.map .raised) := by
  obtain ⟨nothing_asked,nothing_handed,nothing_received⟩ := raises_only events
  refine ⟨?_,fun shut => ?_,?_⟩
  · rw [handed_append,nothing_handed,asked_append,nothing_asked,List.append_nil,List.append_nil]
    exact carried.queue
  · rw [handed_append,nothing_handed,asked_append,nothing_asked,List.append_nil,List.append_nil]
    exact carried.whole shut
  · rw [raised_append,raised_map,received_append,nothing_received,List.append_nil,carried.events,told,List.append_assoc]

theorem pipe_raises (s : Stack lib c swarm) (move : PipeMove) (outside : move.outside = true) :
    (s.step own (.pipe move)).2 = ((Pipe.delivered (s.pipe.step own move).2).map fun m =>
      .messageReceived ends.origin ends.remote m).map .raised := by
  unfold step
  dsimp only
  rw [if_pos outside,List.map_map]
  rfl

theorem pipe_carried (move : PipeMove) (carried : Carried s log) :
    Carried (s.step own (.pipe move)).1 (log ++ (s.step own (.pipe move)).2) := by
  cases outside : move.outside with
  | true =>
      rw [pipe_raises s move outside,step]
      dsimp only
      rw [if_pos outside]
      exact carried.raise _ (injected_events _ _ _ _)
  | false =>
      unfold step
      dsimp only
      rw [if_neg (by simp [outside]),List.append_nil]
      exact carried

theorem far_carried (call : BehaviourCall) (carried : Carried s log) :
    Carried (s.step own (.far call)).1 (log ++ (s.step own (.far call)).2) := by
  unfold step
  dsimp only
  split
  · rw [List.append_nil]
    exact carried
  · exact carried.raise _ (Behaviour.call_events call)

theorem pollFar_carried (carried : Carried s log) :
    Carried (s.step own .pollFar).1 (log ++ (s.step own .pollFar).2) := by
  have polled := pollFar_comes own s
  generalize s.step own .pollFar = done at polled ⊢
  cases polled with
  | received queued =>
      have told := carried.events
      rw [queued] at told
      refine ⟨?_,fun shut => ?_,?_⟩
      · simpa [handed,asked] using carried.queue
      · simpa [handed,asked] using carried.whole shut
      · simpa [raised,received] using told
  | silent same =>
      rw [List.append_nil]
      exact ⟨carried.queue,carried.whole,same ▸ carried.events⟩

theorem step_carried (own : Codec) (carried : Carried s log) (move : StackMove) :
    Carried (s.step own move).1 (log ++ (s.step own move).2) := by
  cases move with
  | near call => exact near_carried call carried
  | pollNear => exact pollNear_carried carried
  | pipe move => exact pipe_carried move carried
  | far call => exact far_carried call carried
  | pollFar => exact pollFar_carried carried

theorem run_carried (moves : List StackMove) (carried : Carried s log) :
    Carried (run own s moves).1 (log ++ (run own s moves).2) := by
  induction moves generalizing s log with
  | nil => exact (List.append_nil log).symm ▸ carried
  | cons move moves ih =>
      have later := ih (step_carried own carried move)
      rwa [List.append_assoc] at later

theorem quiet_call (call : BehaviourCall) (honest : ends.forges call = false) : ends.messages call.raises.toList = [] := by
  cases call with
  | command | established | closed => rfl
  | event peer connection message =>
      have apart : ¬(peer = ends.origin ∧ connection = ends.remote) := by
        rintro ⟨rfl,rfl⟩
        simp [Ends.forges] at honest
      simp [BehaviourCall.raises,Ends.messages,apart]
  | listens addr =>
      unfold BehaviourCall.raises
      dsimp only
      split <;> rfl

-- What a step of the stack does to the pipe, and what it shows of it.
structure Shows (ran : Pipe lib c × List PipeEvent) (done : Stack lib c swarm × List StackEvent) : Prop where
  pipe : ran.1 = done.1.pipe
  injected : Pipe.injected ran.2 = handed done.2
  delivered : Pipe.delivered ran.2 = ends.messages (raised done.2)

theorem step_shows (s : Stack lib c swarm) (move : StackMove) :
    Shows (Pipe.run own s.pipe (s.piped move)) (s.step own move) := by
  cases move with
  | near call =>
      obtain ⟨nothing_handed,nothing_raised,_⟩ :
        handed (ends.asks call) = [] ∧ raised (ends.asks call) = [] ∧ received (ends.asks call) = [] := asks_only call
      refine ⟨rfl,nothing_handed.symm,?_⟩
      rw [step,nothing_raised]
      rfl
  | pollNear =>
      have polled := pollNear_comes own s
      generalize s.step own .pollNear = done, s.piped .pollNear = moves at polled ⊢
      cases polled with
      | event | closing | handed | passed | idle => exact ⟨rfl,rfl,rfl⟩
  | pipe move =>
      cases outside : move.outside with
      | true =>
          have alone : Pipe.run own s.pipe (s.piped (.pipe move)) = s.pipe.step own move := by
            unfold piped
            dsimp only
            rw [if_pos outside,Pipe.run,Pipe.run,List.append_nil]
          rw [alone]
          refine ⟨?_,?_,?_⟩
          · unfold step
            dsimp only
            rw [if_pos outside]
          · rw [pipe_raises s move outside,(raises_only _).2.1]
            exact outside_injects s.pipe move outside
          · rw [pipe_raises s move outside,raised_map,messages_received]
      | false =>
          unfold step piped
          dsimp only
          rw [if_neg (by simp [outside]),if_neg (by simp [outside])]
          exact ⟨rfl,rfl,rfl⟩
  | far call =>
      unfold step
      dsimp only
      cases forged : ends.forges call with
      | true => exact ⟨rfl,rfl,rfl⟩
      | false =>
          refine ⟨rfl,(raises_only _).2.1.symm,?_⟩
          exact (quiet_call call forged).symm.trans (congrArg _ (raised_map _).symm)
  | pollFar =>
      have polled := pollFar_comes own s
      generalize s.step own .pollFar = done at polled ⊢
      cases polled with
      | received | silent => exact ⟨rfl,rfl,rfl⟩

theorem run_shows (s : Stack lib c swarm) (moves : List StackMove) :
    Shows (Pipe.run own s.pipe (pipedRun own s moves)) (run own s moves) := by
  induction moves generalizing s with
  | nil => exact ⟨rfl,rfl,rfl⟩
  | cons move moves ih =>
      have first : Shows (Pipe.run own s.pipe (s.piped move)) (s.step own move) := step_shows s move
      have rest := ih (s.step own move).1
      rw [pipedRun,Pipe.run_append,run,first.pipe]
      refine ⟨rest.pipe,?_,?_⟩
      · rw [Pipe.injected_append,handed_append,first.injected,rest.injected]
      · rw [Pipe.delivered_append,raised_append,first.delivered,rest.delivered]
        exact List.filterMap_append.symm

theorem run_append (s : Stack lib c swarm) (moves more : List StackMove) :
    run own s (moves ++ more) =
      ((run own (run own s moves).1 more).1,(run own s moves).2 ++ (run own (run own s moves).1 more).2) := by
  induction moves generalizing s with
  | nil => rfl
  | cons move moves ih => simp [run,ih]

-- The connection has been shut, or will be before anything is handed to it.
def Parting (s : Stack lib c swarm) : Prop :=
  s.shut = true ∨ (ends.peer,ends.connection) ∈ s.near.disconnects

theorem step_parting (parting : Parting s) (move : StackMove) :
    Parting (s.step own move).1 ∧ handed (s.step own move).2 = [] := by
  cases move with
  | near call =>
      refine ⟨?_,(asks_only call).1⟩
      refine parting.imp (fun shut => ?_) fun waits => ?_
      · exact told_shut _ call shut
      · rw [step,Behaviour.call_disconnects]
        exact List.mem_append_left _ waits
  | pollNear =>
      have polled := pollNear_comes own s
      generalize s.step own .pollNear = done, s.piped .pollNear = moves at polled ⊢
      cases polled with
      | event | passed | idle => exact ⟨parting,rfl⟩
      | closing queued =>
          refine ⟨?_,rfl⟩
          rcases parting with shut | waits
          · exact .inl (closing_shut _ _ _ shut)
          · rw [queued] at waits
            rcases List.mem_cons.mp waits with same | later
            · cases same
              exact .inl (by rw [shut,swarm.closing_here]; rfl)
            · exact .inr later
      | handed together queued here opened =>
          rcases parting with shut | waits
          · exact Bool.noConfusion (opened.symm.trans shut)
          · rw [together] at waits
            exact absurd waits List.not_mem_nil
  | pipe move =>
      unfold step
      dsimp only
      split
      · refine ⟨parting,?_⟩
        refine List.filterMap_eq_nil_iff.mpr fun event member => ?_
        obtain ⟨message,_,rfl⟩ := List.mem_map.mp member
        rfl
      · exact ⟨parting,rfl⟩
  | far call =>
      unfold step
      dsimp only
      split
      · exact ⟨parting,rfl⟩
      · exact ⟨parting,(raises_only _).2.1⟩
  | pollFar =>
      have polled := pollFar_comes own s
      generalize s.step own .pollFar = done at polled ⊢
      cases polled with
      | received | silent => exact ⟨parting,rfl⟩

theorem run_parting (parting : Parting s) (moves : List StackMove) : handed (run own s moves).2 = [] := by
  induction moves generalizing s with
  | nil => rfl
  | cons move moves ih =>
      obtain ⟨still,nothing⟩ : Parting (s.step own move).1 ∧ handed (s.step own move).2 = [] :=
        step_parting parting move
      rw [run,handed_append,nothing,ih still]
      rfl

end

-- One connection under two networks, whatever else their swarms and their other
-- connections do: the messages that the far network receives from it are among
-- those that the near one has sent on it, in their order, each once; until it is
-- shut none has been lost on the way to its handler; and what a disconnect has
-- overtaken is never received.
theorem stack_carries (lib : StreamLibrary) {ends : Ends} (swarm : Swarm ends) (config config' : NetworkConfig) (moves : List StackMove)
    (small : config.maxTransmitSize < 2^32) :
    let own := Codec.new config.maxTransmitSize
    let final := run own (start lib swarm config config') moves
    (ends.messages (received final.2)).Sublist (asked final.2) ∧
      (final.1.shut = false → asked final.2 = handed final.2 ++ ends.queued final.1.near) ∧
      raised final.2 = received final.2 ++ final.1.far.events ∧
      ∀ before after, moves = before ++ .near (.command (.disconnect ends.peer ends.connection)) :: after →
        (ends.messages (received final.2)).Sublist (handed (run own (start lib swarm config config') before).2) := by
  intro own final
  have carried : Carried final.1 final.2 := run_carried moves (start_carried lib swarm config config')
  have passed : (ends.messages (received final.2)).Sublist (handed final.2) := by
    have shows_pipe : Shows (Pipe.run own (start lib swarm config config').pipe (pipedRun own (start lib swarm config config') moves)) final :=
      run_shows _ moves
    have sound := Pipe.run_sound small (pipedRun own (start lib swarm config config') moves)
      (Pipe.negotiated_sound lib config config')
    have among : (ends.messages (received final.2)).Sublist (ends.messages (raised final.2)) := by
      rw [carried.events]
      exact (List.sublist_append_left _ _).filterMap _
    rw [← shows_pipe.injected]
    exact ((shows_pipe.delivered ▸ among).trans sound.front.sublist).trans ((List.sublist_append_left _ _).trans sound.queue)
  refine ⟨passed.trans ((List.sublist_append_left _ _).trans carried.queue),carried.whole,carried.events,?_⟩
  intro before after split
  have later : handed final.2 = handed (run own (start lib swarm config config') before).2 := by
    have parting : Parting
        ((run own (start lib swarm config config') before).1.step own (.near (.command (.disconnect ends.peer ends.connection)))).1 :=
      .inr (by simp [step,BehaviourCall.parts])
    have rest : handed (run own ((run own (start lib swarm config config') before).1.step own
        (.near (.command (.disconnect ends.peer ends.connection)))).1 after).2 = [] := run_parting parting after
    have whole : final = run own (start lib swarm config config') (before ++ _ :: after) := congrArg _ split
    rw [whole,run_append,handed_append,run,handed_append,rest]
    exact List.append_nil _
  exact later ▸ passed

end Stack

namespace StackExample
open PipeExample

def peer : PeerId := ⟨0,[2]⟩
def ends : Ends := ⟨peer,7,⟨0,[1]⟩,9⟩

def swarm : Swarm ends where
  State := Bool
  connected := false
  told shut call := shut || ends.closes call
  closing shut peer connection := shut || ends.here peer connection
  notifies shut peer connection := ends.here peer connection && !shut
  own _ _ _ given := (Bool.and_eq_true_iff.mp given).1
  opens := rfl
  told_other _ _ other := by rw [other,Bool.or_false]
  told_shut shut call gone := by cases shut <;> simp_all [Ends.here]
  closing_other _ _ _ other := by rw [other,Bool.or_false]
  closing_here shut := by simp [Ends.here]

def send : StackMove := .near (.command (.sendMessage peer 7 hello))

def sendOne : List StackMove := [send,.pollNear,send]

-- The second message still waits when the connection is to be closed.
def moves : List StackMove := sendOne ++ .near (.command (.disconnect peer 7)) ::
  ([.pollNear,.pollNear] ++ List.replicate 3 (.pipe pump) ++
    [.pipe (.transmit 100),.pipe (.arrive 100),.pipe (.read none false .pending),.pollFar])

end StackExample

open Stack PipeExample StackExample in
theorem disconnect_overtakes :
    let own := Codec.new 64
    let final := Stack.run own (Stack.start library StackExample.swarm (config 64) (config 64)) StackExample.moves
    asked final.2 = [hello,hello] ∧ ends.messages (received final.2) = [hello] := by
  intro own final
  have handed_one : handed (Stack.run own (Stack.start library StackExample.swarm (config 64) (config 64)) sendOne).2 = [hello] := by
    decide
  have came : (ends.messages (received final.2)).length = 1 := by decide
  have among : (ends.messages (received final.2)).Sublist (handed (Stack.run own (Stack.start library StackExample.swarm (config 64) (config 64)) sendOne).2) :=
    (stack_carries library StackExample.swarm (config 64) (config 64) StackExample.moves (by decide)).2.2.2 sendOne _ rfl
  rw [handed_one] at among
  exact ⟨by decide,among.eq_of_length came⟩

end AnomaAlpha
