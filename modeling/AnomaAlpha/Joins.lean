import AnomaAlpha.Emissions
import AnomaAlpha.Gossip

namespace AnomaAlpha
open Fallible OrderedMap

structure TopicStep where
  before : TopicInner
  env : Env
  event : TopicEvent
  after : TopicInner

namespace TopicStep

def Handled (step : TopicStep) : Prop := step.before.injectEvent step.env step.event = .ok step.after

def sent (step : TopicStep) : List Command := step.after.cmdtx.drop step.before.cmdtx.length

theorem sent_written {step : TopicStep} (written : step.after.cmdtx = step.before.cmdtx ++ given) : step.sent = given := by
  unfold sent
  rw [written,List.drop_left]

end TopicStep

namespace TopicInner
variable {s s' : TopicInner} {env : Env} {sender p : PeerId} {connection : ConnectionId} {peer : AddressablePeer}
  {step : TopicStep}

def trace (s : TopicInner) : List (Env × TopicEvent) → List TopicStep
  | [] => []
  | (env,event) :: events => match s.injectEvent env event with
    | .ok s' => ⟨s,env,event,s'⟩ :: trace s' events
    | .error _ => []

theorem trace_handled (member : step ∈ s.trace events) : step.Handled := by
  induction events generalizing s with
  | nil => cases member
  | cons entry events ih =>
      obtain ⟨env,event⟩ := entry
      unfold trace at member
      split at member
      · rename_i s' handled
        rcases List.mem_cons.mp member with rfl | member
        · exact handled
        · exact ih member
      · cases member

def onBehalf (p : PeerId) : Command → Bool
  | .sendMessage _ _ ⟨_,.forwardJoin flood⟩ => flood.node.peerId = p
  | _ => false

def joinsAs (p : PeerId) : TopicEvent → Bool
  | .messageReceived sender ⟨_,.join _⟩ _ => sender = p
  | _ => false

-- A JOIN is heeded when it is about its sender, when that one is not linked, and
-- when somebody else is.
def heedsJoin (s : TopicInner) (p : PeerId) : TopicEvent → Bool
  | .messageReceived sender ⟨_,.join join⟩ _ =>
      sender = p && join.node.peerId = p && !s.isActive p && !s.activePeers.isEmpty
  | _ => false

theorem activeLinks_isEmpty : (s.activeLinks env).isEmpty = s.activePeers.isEmpty := by
  rw [activeLinks_perm.isEmpty_eq]
  unfold links
  rw [List.isEmpty_map,Std.ExtTreeMap.isEmpty_toList]

theorem any_onBehalf {links : List (PeerId × ConnectionId)} {flood : ForwardJoin} :
    (links.map fun link => Command.sendMessage link.1 link.2 ⟨topic,.forwardJoin flood⟩).any (onBehalf p) =
      (decide (flood.node.peerId = p) && !links.isEmpty) := by
  cases links with
  | nil => simp
  | cons link links =>
      rw [List.map_cons,List.any_cons]
      unfold onBehalf
      simp

def Silent (p : PeerId) (command : Command) : Prop := onBehalf p command = false

theorem silent_routine (p : PeerId) (topic : String) : Routine (Silent p) topic := ⟨fun _ => rfl,fun _ _ => rfl⟩

theorem any_absent {tells : Command → Bool} {commands : List Command}
    (absent : ∀ command ∈ commands, tells command = false) : commands.any tells = false := by
  rw [List.any_eq_false]
  intro command member
  rw [absent command member]
  exact Bool.false_ne_true

theorem consumeJoin_floods {msg : Join} (consumed : s.consumeJoin env p msg connection = .ok s') :
    ∃ sent, s'.cmdtx = s.cmdtx ++ sent ∧ sent.any (onBehalf p) =
      (decide (msg.node.peerId = p) && !s.isActive p && !s.activePeers.isEmpty) := by
  unfold consumeJoin at consumed
  split at consumed
  · rename_i foreign
    cases consumed
    refine ⟨[.banPeer p],rfl,?_⟩
    rw [decide_eq_false fun own => foreign own.symm]
    rfl
  · rename_i own
    have own : p = msg.node.peerId := Decidable.not_not.mp own
    split at consumed
    · rename_i active
      cases consumed
      exact ⟨[],(List.append_nil _).symm,by rw [active,Bool.not_true,Bool.and_false,Bool.false_and]; rfl⟩
    · rename_i inactive
      let told := (s.activeLinks env).foldl (fun s link => s.sendMessage link.1 link.2 (.forwardJoin ⟨1,msg.node⟩)) s
      have routine : Routine (Silent p) told.topicConfig.name := silent_routine p _
      have cut : Quiet (Silent p) told (told.disconnect env p connection) := disconnect_quiet routine p
      have rest : Quiet (Silent p) told s' := by
        dsimp only at consumed
        split at consumed
        · exact cut.trans (addToPassiveView_quiet consumed)
        · exact (cut.trans (tryNeighbouringWith_quiet (cut.topicConfig ▸ routine) msg.node)).trans
            (addToPassiveView_quiet consumed)
      obtain ⟨more,written,silent⟩ := rest.sends
      refine ⟨_,by rw [written,sendAll_cmdtx,List.append_assoc],?_⟩
      rw [List.any_append,any_onBehalf,any_absent silent,activeLinks_isEmpty,Bool.or_false,
        Bool.eq_false_of_not_eq_true inactive,Bool.not_false,Bool.and_true]

def TopicStep.floods (p : PeerId) (step : TopicStep) : Bool := joinsAs p step.event && step.sent.any (onBehalf p)

theorem handled_floods (handled : step.Handled) : TopicStep.floods p step = step.before.heedsJoin p step.event := by
  obtain ⟨s,env,event,s'⟩ := step
  unfold TopicStep.Handled injectEvent at handled
  unfold TopicStep.floods joinsAs heedsJoin
  cases event with
  | messageReceived sender msg connection =>
      obtain ⟨topic,action⟩ := msg
      cases action with
      | join join =>
          dsimp only at handled ⊢
          unfold handleMessageReceived at handled
          by_cases same : sender = p
          · subst same
            split at handled
            · cases handled
            · obtain ⟨sent,written,floods⟩ := consumeJoin_floods handled
              rw [TopicStep.sent_written written,floods,decide_eq_true rfl,Bool.true_and,Bool.true_and]
          · rw [decide_eq_false same,Bool.false_and,Bool.false_and,Bool.false_and,Bool.false_and]
      | _ => rfl
  | _ => rfl

-- Nothing but the views is asked whether a JOIN is heeded.
theorem one_flood_iff (p : PeerId) (s : TopicInner) (events : List (Env × TopicEvent)) :
    (s.trace events).countP (TopicStep.floods p) ≤ 1 ↔
      (s.trace events).countP (fun step => step.before.heedsJoin p step.event) ≤ 1 := by
  have same : (s.trace events).countP (TopicStep.floods p) =
      (s.trace events).countP fun step => step.before.heedsJoin p step.event := by
    refine List.countP_congr ?_
    intro step member
    rw [handled_floods (trace_handled member)]
  rw [same]

def twoJoins : List (Env × TopicEvent) :=
  [TopicExample.receives 1 (.neighbour ⟨TopicExample.peer 1,true⟩),TopicExample.receives 2 (.join ⟨TopicExample.peer 2⟩),
    (⟨1000,.first⟩,.messageReceived (TopicExample.peer 2).peerId
      ⟨"topic",.join ⟨⟨(TopicExample.peer 2).peerId,(TopicExample.peer 3).addresses⟩⟩⟩ 3)]

theorem two_floods : (∀ entry ∈ twoJoins, entry.1.now ≤ TopicExample.config.pendingTimeout) ∧
    ¬(TopicExample.topic.trace twoJoins).countP (TopicStep.floods (TopicExample.peer 2).peerId) ≤ 1 := by
  decide

-- JOINs that this node sends.

def asksToJoin (env : Env) (s : TopicInner) (peer : AddressablePeer) : Bool :=
  !s.activeViewFull && s.isPendingDial env peer && !s.pendingJoins.contains env.now peer.peerId &&
    !s.pendingNeighbours.contains env.now peer.peerId && !s.pendingShuffleReplies.containsKey env.now peer.peerId

def joinTo (p : PeerId) : Command → Bool
  | .sendMessage q _ ⟨_,.join _⟩ => q = p
  | _ => false

def Joinless (p : PeerId) (command : Command) : Prop := joinTo p command = false

theorem joinless_routine (p : PeerId) (topic : String) : Routine (Joinless p) topic := ⟨fun _ => rfl,fun _ _ => rfl⟩

theorem handlePeerConnected_joins (env : Env) (s : TopicInner) (peer : AddressablePeer) (connection : ConnectionId) :
    ∃ sent, (s.handlePeerConnected env peer connection).cmdtx = s.cmdtx ++ sent ∧
      sent.any (joinTo peer.peerId) = s.asksToJoin env peer := by
  let asking := s.handleNonPendingConnects env peer connection
  have answered : Emits (Joinless peer.peerId) asking (s.handlePeerConnected env peer connection) :=
    ((handlePendingNeighbours_emits env fun _ => rfl).trans
      (handlePendingShuffleReplies_quiet env (joinless_routine _ _) fun _ => rfl).toEmits).trans
      (forgetDials_quiet _ peer.addresses).toEmits
  obtain ⟨more,written,joinless⟩ := answered.sends
  have first : asking = if s.asksToJoin env peer then
      {s.sendMessage peer.peerId connection (.join ⟨s.thisNode⟩) with
        pendingJoins := (s.pendingJoins.insert env.now peer.peerId).2} else s := rfl
  split at first
  · rename_i asks
    rw [first] at written
    refine ⟨_,written.trans (List.append_assoc ..),?_⟩
    rw [asks,List.singleton_append,List.any_cons]
    simp [joinTo]
  · rename_i silent
    rw [first] at written
    refine ⟨more,written,?_⟩
    rw [any_absent joinless,Bool.eq_false_of_not_eq_true silent]

def TopicStep.rejoins (step : TopicStep) : Bool := match step.event with
  | .peerConnected peer _ => step.before.isActive peer.peerId && step.sent.any (joinTo peer.peerId)
  | _ => false

def redials (env : Env) (s : TopicInner) : TopicEvent → Bool
  | .peerConnected peer _ => s.isActive peer.peerId && s.asksToJoin env peer
  | _ => false

theorem handled_rejoins (handled : step.Handled) : TopicStep.rejoins step = step.before.redials step.env step.event := by
  obtain ⟨s,env,event,s'⟩ := step
  unfold TopicStep.rejoins redials
  cases event with
  | peerConnected peer connection =>
      have handled : s.injectEvent env (.peerConnected peer connection) = .ok s' := handled
      cases handled
      obtain ⟨sent,written,joined⟩ := handlePeerConnected_joins env s peer connection
      dsimp only
      rw [TopicStep.sent_written written,joined]
  | _ => rfl

-- The links are not looked at before a JOIN is sent.
theorem active_unasked_iff (s : TopicInner) (events : List (Env × TopicEvent)) :
    (∀ step ∈ s.trace events, TopicStep.rejoins step = false) ↔
      ∀ step ∈ s.trace events, step.before.redials step.env step.event = false := by
  refine forall_congr' fun step => forall_congr' fun member => ?_
  rw [handled_rejoins (trace_handled member)]

-- The only bootstrap node has become a neighbour and is dialed once more, as the
-- view is starved.
def bootstrapped : TopicInner :=
  .new 0 ⟨"topic",(TopicExample.peer 1).addresses⟩ TopicExample.config (TopicExample.peer 0)

def redial : List (Env × TopicEvent) :=
  [(TopicExample.env,.peerConnected (TopicExample.peer 1) 1),
    TopicExample.receives 1 (.neighbour ⟨TopicExample.peer 1,true⟩),
    (⟨15001,.first⟩,.tick),(⟨15001,.first⟩,.peerConnected (TopicExample.peer 1) 2)]

theorem neighbour_asked : ¬∀ step ∈ bootstrapped.trace redial, TopicStep.rejoins step = false := by
  decide +kernel

end TopicInner
end AnomaAlpha
