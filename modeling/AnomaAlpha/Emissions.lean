import AnomaAlpha.Views

namespace AnomaAlpha
open Fallible OrderedMap

-- What goes into the channel that is shared with the network.
structure Emits (may : Command → Prop) (s s' : TopicInner) : Prop where
  topicConfig : s'.topicConfig = s.topicConfig
  networkConfig : s'.networkConfig = s.networkConfig
  sends : ∃ sent, s'.cmdtx = s.cmdtx ++ sent ∧ ∀ command ∈ sent, may command

structure Quiet (may : Command → Prop) (s s' : TopicInner) : Prop extends Emits may s s' where
  active : s'.activePeers = s.activePeers

structure Routine (may : Command → Prop) (topic : String) : Prop where
  connect : ∀ addr, may (.connect addr topic)
  disconnect : ∀ peer connection, may (.disconnect peer connection)

theorem Emits.trans (first : Emits may s t) (second : Emits may t u) : Emits may s u := by
  obtain ⟨sent,written,allowed⟩ := first.sends
  obtain ⟨more,later,permitted⟩ := second.sends
  refine ⟨second.topicConfig.trans first.topicConfig,second.networkConfig.trans first.networkConfig,sent ++ more,?_,?_⟩
  · rw [later,written,List.append_assoc]
  · intro command member
    exact (List.mem_append.mp member).elim (allowed command) (permitted command)

theorem Emits.same (topicConfig : s'.topicConfig = s.topicConfig) (networkConfig : s'.networkConfig = s.networkConfig)
    (cmdtx : s'.cmdtx = s.cmdtx) : Emits may s s' :=
  ⟨topicConfig,networkConfig,[],by rw [cmdtx,List.append_nil],nofun⟩

namespace Quiet

theorem trans (first : Quiet may s t) (second : Quiet may t u) : Quiet may s u :=
  ⟨first.toEmits.trans second.toEmits,second.active.trans first.active⟩

theorem same (topicConfig : s'.topicConfig = s.topicConfig) (networkConfig : s'.networkConfig = s.networkConfig)
    (active : s'.activePeers = s.activePeers) (cmdtx : s'.cmdtx = s.cmdtx) : Quiet may s s' :=
  ⟨.same topicConfig networkConfig cmdtx,active⟩

theorem refl : Quiet may s s := .same rfl rfl rfl rfl

theorem foldl {f : TopicInner → X → TopicInner} {l : List X}
    (each : ∀ t x, x ∈ l → Quiet may s t → Quiet may t (f t x)) : Quiet may s (l.foldl f s) :=
  List.foldlRecOn (motive:=fun t => Quiet may s t) l f refl fun t kept x member => kept.trans (each t x member kept)

theorem foldlM {X : Type} {f : TopicInner → X → Except TopicPanic TopicInner} {l : List X}
    (each : ∀ t x u, x ∈ l → Quiet may s t → f t x = .ok u → Quiet may t u) (ran : l.foldlM f s = .ok s') :
    Quiet may s s' :=
  foldlM_invariant (Quiet may s) (fun t x u member kept round => kept.trans (each t x u member kept round)) refl ran

end Quiet

namespace TopicInner

def Linked (s : TopicInner) (peer : PeerId) (connection : ConnectionId) : Prop :=
  ∃ addresses, s.activePeers[peer]? = some (connection,addresses)

-- What a topic may send while it handles an event: floods and gossip go over the
-- links that it has.
inductive Emission (s : TopicInner) : TopicEvent → Command → Prop where
  | connect : Emission s event (.connect addr s.topicConfig.name)
  | disconnect : Emission s event (.disconnect peer connection)
  | ban : Emission s (.messageReceived sender msg connection) (.banPeer sender)
  | join : Emission s (.peerConnected peer connection)
      (.sendMessage peer.peerId connection ⟨s.topicConfig.name,.join join⟩)
  | neighbour : Emission s (.peerConnected peer connection)
      (.sendMessage peer.peerId connection ⟨s.topicConfig.name,.neighbour neighbour⟩)
  | reply : Emission s (.peerConnected peer connection)
      (.sendMessage peer.peerId connection ⟨s.topicConfig.name,.shuffleReply reply⟩)
  | answer : s.Linked peer conn → Emission s (.messageReceived sender ⟨topic,.shuffle msg⟩ connection)
      (.sendMessage peer conn ⟨s.topicConfig.name,.shuffleReply reply⟩)
  | welcome : s.Linked peer conn → Emission s (.messageReceived sender ⟨topic,.join msg⟩ connection)
      (.sendMessage peer conn ⟨s.topicConfig.name,.forwardJoin ⟨1,msg.node⟩⟩)
  | forwardJoin : s.Linked peer conn → msg.hop.toNat < s.networkConfig.randomWalkLength → msg.hop.toNat + 1 < 2^16 →
      Emission s (.messageReceived sender ⟨topic,.forwardJoin msg⟩ connection)
        (.sendMessage peer conn ⟨s.topicConfig.name,.forwardJoin ⟨msg.hop+1,msg.node⟩⟩)
  | initiate : s.Linked peer conn → Emission s .tick
      (.sendMessage peer conn ⟨s.topicConfig.name,.shuffle ⟨1,node,peers⟩⟩)
  | shuffle : s.Linked peer conn → msg.hop.toNat < s.networkConfig.randomWalkLength → msg.hop.toNat + 1 < 2^16 →
      Emission s (.messageReceived sender ⟨topic,.shuffle msg⟩ connection)
        (.sendMessage peer conn ⟨s.topicConfig.name,.shuffle ⟨msg.hop+1,msg.origin,msg.peers⟩⟩)
  | gossip : s.Linked peer conn → Emission s (.messageReceived sender ⟨topic,.gossip bytes⟩ connection)
      (.sendMessage peer conn ⟨s.topicConfig.name,.gossip bytes⟩)

variable {s s' : TopicInner} {env : Env} {may : Command → Prop} {connection : ConnectionId} {peer : AddressablePeer}

theorem send_quiet (allowed : may command) : Quiet may s (s.send command) :=
  ⟨⟨rfl,rfl,[command],rfl,fun _ member => List.mem_singleton.mp member ▸ allowed⟩,rfl⟩

theorem disconnect_quiet (routine : Routine may s.topicConfig.name) (id : PeerId) :
    Quiet may s (s.disconnect env id connection) := by
  unfold disconnect
  dsimp only
  split
  · exact .same rfl rfl rfl rfl
  · refine Quiet.trans ?_ (send_quiet (routine.disconnect id connection))
    exact .same rfl rfl rfl rfl

theorem dialAddr_quiet (routine : Routine may s.topicConfig.name) (addr : Multiaddr) :
    Quiet may s (s.dialAddr env addr) := by
  unfold dialAddr
  split
  · exact .refl
  · dsimp only
    split
    · exact .same rfl rfl rfl rfl
    · refine Quiet.trans ?_ (send_quiet (routine.connect addr))
      exact .same rfl rfl rfl rfl

theorem dialAll_quiet (routine : Routine may s.topicConfig.name) (addresses : HashSet Multiaddr) :
    Quiet may s (addresses.foldl (dialAddr env) s) := by
  refine .foldl ?_
  intro t addr _ kept
  exact dialAddr_quiet (kept.topicConfig ▸ routine) addr

theorem tryNeighbouringWith_quiet (routine : Routine may s.topicConfig.name) (peer : AddressablePeer) :
    Quiet may s (s.tryNeighbouringWith env peer).2 := by
  unfold tryNeighbouringWith
  split
  · exact .refl
  · dsimp only
    split
    · exact .same rfl rfl rfl rfl
    · refine Quiet.trans ?_ (dialAll_quiet ?_ peer.addresses)
      · exact .same rfl rfl rfl rfl
      · exact routine

theorem addToPassiveView_quiet (added : s.addToPassiveView env draw peer = .ok s') : Quiet may s s' := by
  obtain ⟨view,rfl⟩ := addToPassiveView_writes added
  exact .same rfl rfl rfl rfl

theorem addToActiveView_emits (s : TopicInner) (peer : AddressablePeer) (connection : ConnectionId) :
    Emits may s (s.addToActiveView peer connection) := by
  unfold addToActiveView
  split
  · exact .same rfl rfl rfl
  · split <;> exact .same rfl rfl rfl

theorem moveActiveToPassive_emits (moved : s.moveActiveToPassive env peerId = .ok s') : Emits may s s' := by
  unfold moveActiveToPassive at moved
  split at moved
  · cases moved
    exact .same rfl rfl rfl
  · refine Emits.trans ?_ (addToPassiveView_quiet moved).toEmits
    exact .same rfl rfl rfl

theorem ban_emits (s : TopicInner) {id : PeerId} (allowed : may (.banPeer id)) : Emits may s (s.ban id) := by
  unfold ban
  refine Emits.trans ?_ (send_quiet allowed).toEmits
  exact .same rfl rfl rfl

theorem activeLinks_linked (member : link ∈ s.activeLinks env) : s.Linked link.1 link.2 := by
  unfold activeLinks at member
  obtain ⟨peer,_,found⟩ := List.mem_filterMap.mp member
  obtain ⟨⟨connection,addresses⟩,here,rfl⟩ := Option.map_eq_some_iff.mp found
  exact ⟨addresses,here⟩

theorem tryStabilizeActiveView_quiet (routine : Routine may s.topicConfig.name)
    (stabilized : s.tryStabilizeActiveView env = .ok s') : Quiet may s s' := by
  rcases tryStabilizeActiveView_cases stabilized with ⟨peer,_,rfl⟩ | rfl | ⟨id,connection,rfl⟩ | rfl
  · exact tryNeighbouringWith_quiet routine peer
  · exact dialAll_quiet routine _
  · exact disconnect_quiet routine id
  · exact .refl

theorem initiateShuffle_quiet (allowed : ∀ peer connection node peers, s.Linked peer connection →
      may (.sendMessage peer connection ⟨s.topicConfig.name,.shuffle ⟨1,node,peers⟩⟩))
    (shuffled : s.initiateShuffle env = .ok s') : Quiet may s s' := by
  unfold initiateShuffle at shuffled
  dsimp only at shuffled
  split at shuffled
  · cases shuffled
    exact .same rfl rfl rfl rfl
  · obtain ⟨size,_,shuffled⟩ := bind_ok.mp shuffled
    split at shuffled
    · cases shuffled
      exact .same rfl rfl rfl rfl
    · rename_i peer connection drawn
      obtain ⟨peers,_,shuffled⟩ := bind_ok.mp shuffled
      cases shuffled
      obtain ⟨id,_,found⟩ := Option.bind_eq_some_iff.mp drawn
      obtain ⟨⟨connection,addresses⟩,here,equal⟩ := Option.map_eq_some_iff.mp found
      cases equal
      refine Quiet.trans ?_ (send_quiet (allowed _ _ _ _ ⟨addresses,here⟩))
      exact .same rfl rfl rfl rfl

theorem forward_quiet {hop : UInt16} {action : UInt16 → Action}
    (allowed : ∀ peer connection, s.Linked peer connection → hop.toNat + 1 < 2^16 →
      may (.sendMessage peer connection ⟨s.topicConfig.name,action (hop+1)⟩))
    (forwarded : s.forward env sender hop action = .ok s') : Quiet may s s' := by
  unfold forward at forwarded
  refine .foldlM ?_ forwarded
  intro t link u member kept sent
  obtain ⟨next,stepped,sent⟩ := bind_ok.mp sent
  cases sent
  unfold nextHop at stepped
  split at stepped
  · rename_i fits
    cases stepped
    have linked := activeLinks_linked (List.mem_filter.mp member).1
    exact send_quiet (kept.topicConfig ▸ allowed _ _ linked fits)
  · cases stepped

-- The events.

theorem handlePendingNeighbours_emits (env : Env) (allowed : ∀ neighbour,
      may (.sendMessage peer.peerId connection ⟨s.topicConfig.name,.neighbour neighbour⟩)) :
    Emits may s (s.handlePendingNeighbours env peer connection) := by
  unfold handlePendingNeighbours
  dsimp only
  split
  · refine Emits.trans (Quiet.trans ?_ (send_quiet (allowed _))).toEmits (addToActiveView_emits _ peer connection)
    exact .same rfl rfl rfl rfl
  · exact .same rfl rfl rfl

theorem handleNonPendingConnects_quiet (env : Env) (allowed : ∀ join,
      may (.sendMessage peer.peerId connection ⟨s.topicConfig.name,.join join⟩)) :
    Quiet may s (s.handleNonPendingConnects env peer connection) := by
  unfold handleNonPendingConnects
  split
  · exact (send_quiet (allowed _)).trans (.same rfl rfl rfl rfl)
  · exact .refl

theorem handlePendingShuffleReplies_quiet (env : Env) (routine : Routine may s.topicConfig.name)
    (allowed : ∀ reply, may (.sendMessage peer.peerId connection ⟨s.topicConfig.name,.shuffleReply reply⟩)) :
    Quiet may s (s.handlePendingShuffleReplies env peer connection) := by
  unfold handlePendingShuffleReplies
  dsimp only
  split
  · exact .same rfl rfl rfl rfl
  · rename_i reply _
    have replied : Quiet may s ({s with
        pendingShuffleReplies := (s.pendingShuffleReplies.remove env.now peer.peerId).2}.sendMessage peer.peerId
          connection (.shuffleReply reply)) := by
      refine Quiet.trans ?_ (send_quiet (allowed reply))
      exact .same rfl rfl rfl rfl
    split
    · exact replied
    · refine replied.trans (disconnect_quiet ?_ peer.peerId)
      exact routine

theorem forgetDials_quiet (s : TopicInner) (addresses : HashSet Multiaddr) :
    Quiet may s (addresses.foldl (forgetDial env) s) := by
  refine .foldl ?_
  intro t addr _ _
  unfold forgetDial
  split <;> exact .same rfl rfl rfl rfl

theorem handlePeerConnected_emits (routine : Routine may s.topicConfig.name)
    (join : ∀ join, may (.sendMessage peer.peerId connection ⟨s.topicConfig.name,.join join⟩))
    (neighbour : ∀ neighbour, may (.sendMessage peer.peerId connection ⟨s.topicConfig.name,.neighbour neighbour⟩))
    (reply : ∀ reply, may (.sendMessage peer.peerId connection ⟨s.topicConfig.name,.shuffleReply reply⟩)) :
    Emits may s (s.handlePeerConnected env peer connection) := by
  unfold handlePeerConnected
  dsimp only
  have first := (handleNonPendingConnects_quiet env join).toEmits
  have second := first.trans (handlePendingNeighbours_emits env (first.topicConfig ▸ neighbour))
  have third := second.trans (handlePendingShuffleReplies_quiet env (second.topicConfig ▸ routine)
    (second.topicConfig ▸ reply)).toEmits
  exact third.trans (forgetDials_quiet _ peer.addresses).toEmits

theorem handlePeerDisconnected_emits {id : PeerId} (handled : s.handlePeerDisconnected env id = .ok s') : Emits may s s' := by
  unfold handlePeerDisconnected at handled
  obtain ⟨moved,inner,handled⟩ := bind_ok.mp handled
  cases handled
  exact (moveActiveToPassive_emits inner).trans (.same rfl rfl rfl)

theorem handleTick_quiet (routine : Routine may s.topicConfig.name)
    (allowed : ∀ peer connection node peers, s.Linked peer connection →
      may (.sendMessage peer connection ⟨s.topicConfig.name,.shuffle ⟨1,node,peers⟩⟩))
    (handled : s.handleTick env = .ok s') : Quiet may s s' := by
  obtain ⟨shuffled,before,after⟩ := handleTick_cases handled
  have pruned : Quiet may s (s.prune env) := .same rfl rfl rfl rfl
  have quiet : Quiet may s shuffled := by
    rcases before with rfl | shuffle
    · exact pruned
    · exact pruned.trans (initiateShuffle_quiet (s:=s.prune env) allowed shuffle)
  rcases after with rfl | ⟨_,stabilized⟩
  · exact quiet
  · exact quiet.trans (tryStabilizeActiveView_quiet (quiet.topicConfig ▸ routine) stabilized)

-- The messages.

theorem linked_of_active {id : PeerId} (same : s'.activePeers = s.activePeers) (linked : s'.Linked id connection) : s.Linked id connection := by
  unfold Linked at linked
  rwa [same] at linked

theorem sendAll_quiet {links : List (PeerId × ConnectionId)} {action : Action} (allowed : ∀ link ∈ links,
      may (.sendMessage link.1 link.2 ⟨s.topicConfig.name,action⟩)) :
    Quiet may s (links.foldl (fun s link => s.sendMessage link.1 link.2 action) s) := by
  refine .foldl ?_
  intro t link member kept
  exact send_quiet (kept.topicConfig ▸ allowed link member)

theorem consumeJoin_emits {msg : Join} (routine : Routine may s.topicConfig.name) (ban : may (.banPeer sender))
    (welcome : ∀ peer connection, s.Linked peer connection →
      may (.sendMessage peer connection ⟨s.topicConfig.name,.forwardJoin ⟨1,msg.node⟩⟩))
    (consumed : s.consumeJoin env sender msg connection = .ok s') : Emits may s s' := by
  unfold consumeJoin at consumed
  split at consumed
  · cases consumed
    exact ban_emits s ban
  · split at consumed
    · cases consumed
      exact .same rfl rfl rfl
    · dsimp only at consumed
      have told : Quiet may s ((s.activeLinks env).foldl
          (fun s link => s.sendMessage link.1 link.2 (.forwardJoin ⟨1,msg.node⟩)) s) :=
        sendAll_quiet fun link member => welcome _ _ (activeLinks_linked member)
      have left : Quiet may s (TopicInner.disconnect env _ sender connection) :=
        told.trans (disconnect_quiet (told.topicConfig ▸ routine) sender)
      refine Emits.trans ?_ (addToPassiveView_quiet consumed).toEmits
      split
      · exact left.toEmits
      · exact (left.trans (tryNeighbouringWith_quiet (left.topicConfig ▸ routine) msg.node)).toEmits

theorem makeSpace_quiet (routine : Routine may s.topicConfig.name) (made : s.makeSpace env = .ok s') : Quiet may s s' := by
  unfold makeSpace at made
  obtain ⟨random,_,made⟩ := bind_ok.mp made
  obtain ⟨link,_,made⟩ := bind_ok.mp made
  obtain ⟨addresses,_,added⟩ := bind_ok.mp made
  exact (disconnect_quiet routine random).trans (addToPassiveView_quiet added)

theorem consumeForwardJoin_quiet {msg : ForwardJoin} (routine : Routine may s.topicConfig.name)
    (onward : ∀ peer connection, s.Linked peer connection → msg.hop.toNat < s.networkConfig.randomWalkLength →
      msg.hop.toNat + 1 < 2^16 →
      may (.sendMessage peer connection ⟨s.topicConfig.name,.forwardJoin ⟨msg.hop+1,msg.node⟩⟩))
    (consumed : s.consumeForwardJoin env sender msg = .ok s') : Quiet may s s' := by
  unfold consumeForwardJoin at consumed
  split at consumed
  · cases consumed
    exact .refl
  · split at consumed
    · cases consumed
      exact .refl
    · split at consumed
      · cases consumed
        exact .refl
      · obtain ⟨learnt,added,consumed⟩ := bind_ok.mp consumed
        have quiet : Quiet may s learnt := addToPassiveView_quiet added
        have still : Routine may learnt.topicConfig.name := quiet.topicConfig ▸ routine
        split at consumed
        · split at consumed
          · cases consumed
            exact quiet
          · split at consumed
            · obtain ⟨spacious,made,consumed⟩ := bind_ok.mp consumed
              cases consumed
              have spaced := makeSpace_quiet still made
              exact (quiet.trans spaced).trans (tryNeighbouringWith_quiet (spaced.topicConfig ▸ still) msg.node)
            · cases consumed
              exact quiet.trans (tryNeighbouringWith_quiet still msg.node)
        · rename_i short
          rw [quiet.networkConfig,not_le] at short
          have courting : ∀ t : TopicInner, Quiet may s t →
              t.forward env sender msg.hop (fun hop => .forwardJoin ⟨hop,msg.node⟩) = .ok s' → Quiet may s s' := by
            intro t kept forwarded
            refine kept.trans (forward_quiet ?_ forwarded)
            intro peer connection linked fits
            rw [kept.topicConfig]
            exact onward peer connection (linked_of_active kept.active linked) short fits
          split at consumed
          · exact courting learnt quiet consumed
          · exact courting _ (quiet.trans (tryNeighbouringWith_quiet still msg.node)) consumed

theorem consumeNeighbor_emits {msg : Neighbour} (routine : Routine may s.topicConfig.name) (ban : may (.banPeer sender))
    (consumed : s.consumeNeighbor env sender msg connection = .ok s') : Emits may s s' := by
  unfold consumeNeighbor at consumed
  split at consumed
  · cases consumed
    exact .same rfl rfl rfl
  · split at consumed
    · cases consumed
      exact ban_emits s ban
    · have accept : ∀ free : TopicInner, Quiet may s free →
          (if !free.activeViewFull then Except.ok (ε:=TopicPanic) (free.addToActiveView msg.peer connection)
            else .ok (free.disconnect env sender connection)) = .ok s' → Emits may s s' := by
        intro free quiet accepted
        split at accepted
        · cases accepted
          exact quiet.toEmits.trans (addToActiveView_emits free msg.peer connection)
        · cases accepted
          exact (quiet.trans (disconnect_quiet (quiet.topicConfig ▸ routine) sender)).toEmits
      split at consumed
      · obtain ⟨random,_,consumed⟩ := bind_ok.mp consumed
        obtain ⟨old,_,consumed⟩ := bind_ok.mp consumed
        exact accept _ (disconnect_quiet routine random) consumed
      · exact accept s .refl consumed

theorem respond_quiet {reply : ShuffleReply} (routine : Routine may s.topicConfig.name)
    (allowed : ∀ peer connection, s.Linked peer connection →
      may (.sendMessage peer connection ⟨s.topicConfig.name,.shuffleReply reply⟩)) (origin : AddressablePeer) :
    Quiet may s (s.respond env origin reply) := by
  unfold respond
  split
  · rename_i link found
    exact send_quiet (allowed _ _ ⟨link.2,found⟩)
  · refine Quiet.trans ?_ (dialAll_quiet ?_ origin.addresses)
    · exact .same rfl rfl rfl rfl
    · exact routine

theorem consumeShuffle_quiet {msg : Shuffle} (routine : Routine may s.topicConfig.name)
    (answer : ∀ peer connection reply, s.Linked peer connection →
      may (.sendMessage peer connection ⟨s.topicConfig.name,.shuffleReply reply⟩))
    (onward : ∀ peer connection, s.Linked peer connection → msg.hop.toNat < s.networkConfig.randomWalkLength →
      msg.hop.toNat + 1 < 2^16 →
      may (.sendMessage peer connection ⟨s.topicConfig.name,.shuffle ⟨msg.hop+1,msg.origin,msg.peers⟩⟩))
    (consumed : s.consumeShuffle env sender msg = .ok s') : Quiet may s s' := by
  unfold consumeShuffle at consumed
  split at consumed
  · cases consumed
    exact .refl
  · obtain ⟨reply,_,consumed⟩ := bind_ok.mp consumed
    obtain ⟨ids,_,consumed⟩ := bind_ok.mp consumed
    obtain ⟨view,_,consumed⟩ := bind_ok.mp consumed
    dsimp only at consumed
    have responded : Quiet may s
        ({s with passivePeers := Std.ExtTreeMap.ofList view compare}.respond env msg.origin reply) := by
      refine Quiet.trans ?_ (respond_quiet ?_ ?_ msg.origin)
      · exact .same rfl rfl rfl rfl
      · exact routine
      · exact fun peer connection linked => answer peer connection reply linked
    split at consumed
    · rename_i short
      rw [responded.networkConfig] at short
      refine responded.trans (forward_quiet ?_ consumed)
      intro peer connection linked fits
      rw [responded.topicConfig]
      exact onward peer connection (linked_of_active responded.active linked) short fits
    · cases consumed
      exact responded

theorem consumeShuffleReply_quiet {msg : ShuffleReply} (routine : Routine may s.topicConfig.name)
    (consumed : s.consumeShuffleReply env sender msg connection = .ok s') : Quiet may s s' := by
  unfold consumeShuffleReply at consumed
  obtain ⟨max,_,consumed⟩ := bind_ok.mp consumed
  obtain ⟨view,_,consumed⟩ := bind_ok.mp consumed
  dsimp only at consumed
  split at consumed
  · cases consumed
    exact .same rfl rfl rfl rfl
  · cases consumed
    refine Quiet.trans ?_ (disconnect_quiet ?_ sender)
    · exact .same rfl rfl rfl rfl
    · exact routine

theorem consumeGossip_quiet (routine : Routine may s.topicConfig.name)
    (onward : ∀ peer connection, s.Linked peer connection →
      may (.sendMessage peer connection ⟨s.topicConfig.name,.gossip bytes⟩)) :
    Quiet may s (s.consumeGossip env sender bytes connection) := by
  unfold consumeGossip
  split
  · exact disconnect_quiet routine sender
  · dsimp only
    refine Quiet.trans (sendAll_quiet ?_) (.same rfl rfl rfl rfl)
    intro link member
    exact onward _ _ (activeLinks_linked (List.mem_filter.mp member).1)

theorem emission_routine (s : TopicInner) (event : TopicEvent) : Routine (Emission s event) s.topicConfig.name :=
  ⟨fun _ => .connect,fun _ _ => .disconnect⟩

theorem injectEvent_emits (handled : s.injectEvent env event = .ok s') : Emits (Emission s event) s s' := by
  have routine := emission_routine s event
  cases injectEvent_handled handled with
  | localAddressDiscovered addr => exact .same rfl rfl rfl
  | peerConnected peer connection =>
      exact handlePeerConnected_emits routine (fun _ => .join) (fun _ => .neighbour) fun _ => .reply
  | peerDisconnected peer connection handled => exact handlePeerDisconnected_emits handled
  | tick handled => exact (handleTick_quiet routine (fun _ _ _ _ linked => .initiate linked) handled).toEmits
  | join sender join connection handled =>
      exact consumeJoin_emits routine .ban (fun _ _ linked => .welcome linked) handled
  | forwardJoin sender flood connection handled =>
      exact (consumeForwardJoin_quiet routine (fun _ _ linked short fits => .forwardJoin linked short fits)
        handled).toEmits
  | neighbour sender neighbour connection handled => exact consumeNeighbor_emits routine .ban handled
  | shuffle sender shuffle connection handled =>
      exact (consumeShuffle_quiet routine (fun _ _ _ linked => .answer linked)
        (fun _ _ linked short fits => .shuffle linked short fits) handled).toEmits
  | shuffleReply sender reply connection handled => exact (consumeShuffleReply_quiet routine handled).toEmits
  | gossip sender bytes connection => exact (consumeGossip_quiet routine fun _ _ linked => .gossip linked).toEmits

end TopicInner

end AnomaAlpha
