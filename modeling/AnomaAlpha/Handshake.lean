import AnomaAlpha.LiveLinks
import AnomaAlpha.Lib.Linking

namespace AnomaAlpha
open Fallible OrderedMap Linking

-- What the network tells, in the terms of linking: a NEIGHBOUR is what offers a
-- link.
def Message.parcel (msg : Message) : Parcel :=
  match msg.action with
  | .neighbour _ => .offer
  | _ => .other

def SwarmEvent.notice : SwarmEvent → Notice PeerId ConnectionId
  | .localAddressDiscovered _ => .other
  | .connectionEstablished peer _ connection => .opened peer.peerId connection
  | .connectionClosed peer connection => .closed peer connection
  | .messageReceived peer connection msg => .arrived peer connection msg.parcel

def Command.item : Command → Item PeerId ConnectionId
  | .connect _ _ => .ask .other
  | .disconnect peer connection => .ask (.cut peer connection)
  | .sendMessage peer connection msg => .ask (.send peer connection msg.parcel)
  | .banPeer peer => .ask (.ban peer)
  | .injectEvent event => .notice event.notice

def RunloopCommand.ask : RunloopCommand → Ask PeerId ConnectionId
  | .connect _ => .other
  | .disconnect peer connection => .cut peer connection
  | .sendMessage peer connection msg => .send peer connection msg.parcel
  | .banPeer peer => .ban peer

def TopicEvent.Offers (peer : PeerId) (connection : ConnectionId) (event : TopicEvent) : Prop :=
  ∃ topic neighbour, event = .messageReceived peer ⟨topic,.neighbour neighbour⟩ connection

namespace TopicInner
variable {s s' : TopicInner} {env : Env} {p q : PeerId} {c d : ConnectionId}

def free (s : TopicInner) (peer : PeerId) (connection : ConnectionId) : Bool :=
  s.activePeers[peer]?.all fun link => link.1 == connection

theorem free_linked (free : s.free p c = true) (linked : s.Linked p d) : d = c := by
  obtain ⟨addresses,found⟩ := linked
  unfold TopicInner.free at free
  rw [found] at free
  exact beq_iff_eq.mp free

theorem linked_iff (same : s'.activePeers = s.activePeers) : s'.Linked p c ↔ s.Linked p c := by
  unfold Linked
  rw [same]

theorem isActive_linked (active : s.isActive p = true) : ∃ c, s.Linked p c := by
  obtain ⟨⟨c,addresses⟩,found⟩ := Option.isSome_iff_exists.mp
    (Std.ExtTreeMap.mem_iff_isSome_getElem?.mp (isActive_iff.mp active))
  exact ⟨c,addresses,found⟩

theorem linked_active (linked : s.Linked p c) : s.isActive p = true := by
  obtain ⟨addresses,found⟩ := linked
  rw [isActive_iff,Std.ExtTreeMap.mem_iff_isSome_getElem?,found]
  rfl

-- What an event does to the links, and what it asks for.
structure Shakes (s s' : TopicInner) (event : TopicEvent) (asks : List (Ask PeerId ConnectionId)) : Prop where
  sent : ∃ sent, s'.cmdtx = s.cmdtx ++ sent ∧ sent.map Command.item = asks.map .ask
  keeps : ∀ p c, s.Linked p c → s'.Linked p c ∨ event = .peerDisconnected p c ∨ .ban p ∈ asks
  gains : ∀ p c, s'.Linked p c → s.Linked p c ∨ event.brings p c ∧ (.send p c .offer ∈ asks ∨ event.Offers p c)
  offers : ∀ p c, .send p c .offer ∈ asks → event.brings p c ∧ s'.Linked p c
  accepts : ∀ p c, event.Offers p c → s'.Linked p c ∨ .ban p ∈ asks ∨ .cut p c ∈ asks

theorem emission_ask (emitted : Emission s event command) : ∃ ask, command.item = .ask ask ∧
    ∀ p c, ask = .send p c .offer → ∃ peer, event = .peerConnected peer c ∧ peer.peerId = p := by
  cases emitted with
  | neighbour =>
      refine ⟨_,rfl,?_⟩
      intro p c same
      cases same
      exact ⟨_,rfl,rfl⟩
  | _ =>
      refine ⟨_,rfl,?_⟩
      intro p c same
      cases same

theorem asks_of {good : Ask PeerId ConnectionId → Prop} {sent : List Command}
    (each : ∀ command ∈ sent, ∃ ask, command.item = .ask ask ∧ good ask) :
    ∃ asks : List (Ask PeerId ConnectionId), sent.map Command.item = asks.map .ask ∧ ∀ ask ∈ asks, good ask := by
  induction sent with
  | nil => exact ⟨[],rfl,nofun⟩
  | cons command sent ih =>
      obtain ⟨ask,same,fine⟩ := each command (by simp)
      obtain ⟨asks,rest,others⟩ := ih fun later member => each later (List.mem_cons_of_mem _ member)
      refine ⟨ask :: asks,by rw [List.map_cons,List.map_cons,same,rest],?_⟩
      intro given member
      rcases List.mem_cons.mp member with rfl | later
      · exact fine
      · exact others given later

theorem mem_asks {sent : List Command} {asks : List (Ask PeerId ConnectionId)}
    (same : sent.map Command.item = asks.map .ask) (member : command ∈ sent) (is : command.item = .ask ask) :
    ask ∈ asks := by
  have mapped : .ask ask ∈ asks.map Item.ask := by
    rw [← same,← is]
    exact List.mem_map_of_mem member
  obtain ⟨given,inside,equal⟩ := List.mem_map.mp mapped
  cases equal
  exact inside

theorem injectEvent_asks (handled : s.injectEvent env event = .ok s') :
    ∃ sent, ∃ asks : List (Ask PeerId ConnectionId), s'.cmdtx = s.cmdtx ++ sent ∧
      sent.map Command.item = asks.map .ask ∧
      ∀ ask ∈ asks, ∀ p c, ask = .send p c .offer → ∃ peer, event = .peerConnected peer c ∧ peer.peerId = p := by
  obtain ⟨sent,written,allowed⟩ := (injectEvent_emits handled).sends
  obtain ⟨asks,same,offers⟩ := asks_of fun command member => emission_ask (allowed command member)
  exact ⟨sent,asks,written,same,offers⟩

def mild : TopicEvent → Bool
  | .localAddressDiscovered _ | .tick => true
  | .peerConnected _ _ | .peerDisconnected _ _ => false
  | .messageReceived _ msg _ => match msg.action with
    | .join _ | .neighbour _ => false
    | _ => true

theorem mild_active (calm : mild event = true) (handled : s.injectEvent env event = .ok s') :
    s'.activePeers = s.activePeers := by
  have routine : Routine (fun _ => True) s.topicConfig.name := ⟨fun _ => trivial,fun _ _ => trivial⟩
  cases injectEvent_handled handled with
  | localAddressDiscovered addr => rfl
  | tick handled => exact (handleTick_quiet routine (fun _ _ _ _ _ => trivial) handled).active
  | peerConnected peer connection => cases calm
  | peerDisconnected peer connection handled => cases calm
  | join sender join connection handled => cases calm
  | neighbour sender neighbour connection handled => cases calm
  | forwardJoin sender flood connection handled =>
      exact (consumeForwardJoin_quiet routine (fun _ _ _ _ _ => trivial) handled).active
  | shuffle sender shuffle connection handled =>
      exact (consumeShuffle_quiet routine (fun _ _ _ _ => trivial) (fun _ _ _ _ _ => trivial) handled).active
  | shuffleReply sender reply connection handled => exact (consumeShuffleReply_quiet routine handled).active
  | gossip sender bytes connection => exact (consumeGossip_quiet routine fun _ _ _ => trivial).active

theorem ban_links (s : TopicInner) (id : PeerId) : (s.ban id).activePeers = s.activePeers.erase id ∧
    (s.ban id).cmdtx = s.cmdtx ++ [.banPeer id] := ⟨rfl,rfl⟩

theorem consumeJoin_links {msg : Join} (consumed : s.consumeJoin env sender msg connection = .ok s') :
    s'.activePeers = s.activePeers ∨
      s'.activePeers = s.activePeers.erase sender ∧ s'.cmdtx = s.cmdtx ++ [.banPeer sender] := by
  have routine : Routine (fun _ => True) s.topicConfig.name := ⟨fun _ => trivial,fun _ _ => trivial⟩
  unfold consumeJoin at consumed
  split at consumed
  · cases consumed
    exact .inr (ban_links s sender)
  · split at consumed
    · cases consumed
      exact .inl rfl
    · dsimp only at consumed
      have told : Quiet (fun _ => True) s ((s.activeLinks env).foldl
          (fun s link => s.sendMessage link.1 link.2 (.forwardJoin ⟨1,msg.node⟩)) s) :=
        sendAll_quiet fun link member => trivial
      have left : Quiet (fun _ => True) s (TopicInner.disconnect env _ sender connection) :=
        told.trans (disconnect_quiet (told.topicConfig ▸ routine) sender)
      refine .inl (Quiet.trans ?_ (addToPassiveView_quiet consumed) : Quiet (fun _ => True) s s').active
      split
      · exact left
      · exact left.trans (tryNeighbouringWith_quiet (left.topicConfig ▸ routine) msg.node)

def refusable (env : Env) (s : TopicInner) (peer : PeerId) : Bool :=
  !s.isActive peer && s.activeViewFull && s.pendingDisconnects.contains env.now peer

theorem addToActiveView_new (absent : s.isActive peer.peerId = false) (foreign : peer.peerId ≠ s.thisNode.peerId) :
    (s.addToActiveView peer connection).activePeers = s.activePeers.insert peer.peerId (connection,peer.addresses) ∧
      (s.addToActiveView peer connection).cmdtx = s.cmdtx := by
  unfold addToActiveView
  rw [if_neg (Bool.eq_false_iff.mp absent),if_neg foreign]
  exact ⟨rfl,rfl⟩

structure Entered (s s' : TopicInner) (peer : PeerId) (connection : ConnectionId) : Prop where
  linked : s'.Linked peer connection
  links : s'.activePeers = s.activePeers ∨
    s.isActive peer = false ∧ ∃ addresses, s'.activePeers = s.activePeers.insert peer (connection,addresses)

theorem entered_insert (absent : s.isActive p = false) (inserted : s'.activePeers = s.activePeers.insert p (c,addresses)) :
    Entered s s' p c := by
  refine ⟨⟨addresses,?_⟩,.inr ⟨absent,addresses,inserted⟩⟩
  rw [inserted,get_insert,if_pos rfl]

theorem Entered.after (entered : Entered s s' p c) (before : s.activePeers = t.activePeers) : Entered t s' p c := by
  obtain ⟨linked,links⟩ := entered
  unfold isActive at links
  rw [before] at links
  exact ⟨linked,links⟩

theorem Entered.before (entered : Entered s s' p c) (after : t.activePeers = s'.activePeers) : Entered s t p c := by
  obtain ⟨linked,links⟩ := entered
  rw [← after] at links
  exact ⟨(linked_iff after).mpr linked,links⟩

theorem Entered.keeps (entered : Entered s s' p c) (linked : s.Linked q d) : s'.Linked q d := by
  rcases entered.links with same | ⟨absent,addresses,inserted⟩
  · exact (linked_iff same).mpr linked
  · have apart : p ≠ q := by
      intro same
      subst same
      rw [linked_active linked] at absent
      cases absent
    obtain ⟨addresses,found⟩ := linked
    refine ⟨addresses,?_⟩
    rw [inserted,get_insert,if_neg apart]
    exact found

theorem Entered.gains (entered : Entered s s' p c) (linked : s'.Linked q d) : s.Linked q d ∨ q = p ∧ d = c := by
  rcases entered.links with same | ⟨_,_,inserted⟩
  · exact .inl ((linked_iff same).mp linked)
  · obtain ⟨addresses,found⟩ := linked
    rw [inserted,get_insert] at found
    split at found
    · rename_i same
      cases found
      exact .inr ⟨same.symm,rfl⟩
    · exact .inl ⟨addresses,found⟩

theorem addToActiveView_enters (foreign : peer.peerId ≠ s.thisNode.peerId) (free : s.free peer.peerId connection = true) :
    Entered s (s.addToActiveView peer connection) peer.peerId connection ∧
      (s.addToActiveView peer connection).cmdtx = s.cmdtx := by
  cases active : s.isActive peer.peerId with
  | true =>
      obtain ⟨conn,linked⟩ := isActive_linked active
      unfold addToActiveView
      rw [if_pos active]
      exact ⟨⟨free_linked free linked ▸ linked,.inl rfl⟩,rfl⟩
  | false =>
      obtain ⟨inserted,quiet⟩ := addToActiveView_new active foreign
      exact ⟨entered_insert active inserted,quiet⟩

theorem disconnect_sends (env : Env) (s : TopicInner) (peer : PeerId) (connection : ConnectionId)
    (fresh : s.pendingDisconnects.contains env.now peer = false) :
    (s.disconnect env peer connection).cmdtx = s.cmdtx ++ [.disconnect peer connection] := by
  have first : (s.pendingDisconnects.insert env.now peer).1 = false := fresh
  unfold disconnect
  dsimp only
  rw [first]
  rfl

theorem contains_insert (set : ExpiringSet PeerId) (now : Nat) {given other : PeerId} (apart : given ≠ other) :
    (set.insert now given).2.contains now other = set.contains now other := by
  change (set.inner.fresh now (set.inner.data.insert given ((),now))[other]?).isSome = _
  rw [get_insert,if_neg apart]
  rfl

-- A slot for a NEIGHBOUR of high priority is asked for before the view is looked
-- at again.
structure Asked (env : Env) (sender : PeerId) (s t : TopicInner) : Prop where
  overlay : t.overlay = s.overlay
  sent : ∃ sent, t.cmdtx = s.cmdtx ++ sent
  pending : t.pendingDisconnects.contains env.now sender = s.pendingDisconnects.contains env.now sender

theorem disconnect_asked (apart : random ≠ sender) : Asked env sender s (s.disconnect env random connection) := by
  refine ⟨disconnect_overlay env s random connection,?_,?_⟩
  · unfold disconnect
    dsimp only
    split
    · exact ⟨[],(List.append_nil _).symm⟩
    · exact ⟨_,rfl⟩
  · have pending := contains_insert s.pendingDisconnects env.now apart
    unfold disconnect
    dsimp only
    split <;> exact pending

-- The sender of a NEIGHBOUR is told that it is turned away, or it is linked.
def Decided (s s' : TopicInner) (sender : PeerId) (connection : ConnectionId) : Prop :=
  ∃ sent, s'.cmdtx = s.cmdtx ++ sent ∧
    (s'.activePeers = s.activePeers ∧ .disconnect sender connection ∈ sent ∨
      s'.activePeers = s.activePeers.erase sender ∧ .banPeer sender ∈ sent ∨ Entered s s' sender connection)

theorem asked_decided {t : TopicInner} (own : peer.peerId = sender) (foreign : sender ≠ s.thisNode.peerId)
    (unlinked : s.isActive sender = false) (heard : s.refusable env sender = false) (asked : Asked env sender s t)
    (accepted : (if !t.activeViewFull then Except.ok (ε:=TopicPanic) (t.addToActiveView peer connection)
      else .ok (t.disconnect env sender connection)) = .ok s') : Decided s s' sender connection := by
  obtain ⟨sent,written⟩ := asked.sent
  have active : t.activePeers = s.activePeers := overlay_active asked.overlay
  have config : t.networkConfig = s.networkConfig := overlay_config asked.overlay
  split at accepted
  · cases accepted
    have away : peer.peerId ≠ t.thisNode.peerId := by
      rw [own,show t.thisNode.peerId = s.thisNode.peerId from congrArg Overlay.this asked.overlay]
      exact foreign
    have still : t.isActive peer.peerId = false := by
      unfold isActive
      rw [own,active]
      exact unlinked
    obtain ⟨inserted,quiet⟩ := addToActiveView_new still away
    rw [own,active] at inserted
    exact ⟨sent,quiet.trans written,.inr (.inr (entered_insert unlinked inserted))⟩
  · rename_i full
    cases accepted
    have full : s.activeViewFull = true := by
      unfold activeViewFull at full ⊢
      rw [active,config] at full
      simpa using full
    have fresh : t.pendingDisconnects.contains env.now sender = false := by
      unfold refusable at heard
      rw [unlinked,full] at heard
      rw [asked.pending]
      exact heard
    refine ⟨sent ++ [.disconnect sender connection],?_,.inl ⟨?_,by simp⟩⟩
    · rw [disconnect_sends env t sender connection fresh,written,List.append_assoc]
    · exact (overlay_active (disconnect_overlay env t sender connection)).trans active

theorem consumeNeighbor_decided {msg : Neighbour} (foreign : sender ≠ s.thisNode.peerId)
    (free : s.free sender connection = true) (heard : s.refusable env sender = false)
    (consumed : s.consumeNeighbor env sender msg connection = .ok s') : Decided s s' sender connection := by
  unfold consumeNeighbor at consumed
  split at consumed
  · rename_i active
    cases consumed
    obtain ⟨conn,linked⟩ := isActive_linked active
    exact ⟨[],(List.append_nil _).symm,.inr (.inr ⟨free_linked free linked ▸ linked,.inl rfl⟩)⟩
  · rename_i absent
    split at consumed
    · cases consumed
      exact ⟨[.banPeer sender],rfl,.inr (.inl ⟨rfl,List.mem_singleton.mpr rfl⟩)⟩
    · rename_i same
      have own : msg.peer.peerId = sender := (not_not.mp same).symm
      have unlinked : s.isActive sender = false := Bool.eq_false_iff.mpr absent
      split at consumed
      · obtain ⟨random,chosen,consumed⟩ := bind_ok.mp consumed
        obtain ⟨link,found,consumed⟩ := bind_ok.mp consumed
        refine asked_decided own foreign unlinked heard (disconnect_asked ?_) consumed
        intro same
        subst same
        have listed := env.dice.choose_mem _ _ _ (expect_ok.mp chosen)
        rw [isActive_iff.mpr (mem_keys.mp listed)] at unlinked
        cases unlinked
      · exact asked_decided own foreign unlinked heard ⟨rfl,⟨[],(List.append_nil _).symm⟩,rfl⟩ consumed

def NoOffer (command : Command) : Prop := ∀ p c, command.item ≠ .ask (.send p c .offer)

theorem noOffer_routine (topic : String) : Routine NoOffer topic := ⟨fun _ _ _ => nofun,fun _ _ _ _ same => by cases same⟩

theorem handlePendingNeighbours_links (env : Env) (foreign : peer.peerId ≠ s.thisNode.peerId)
    (free : s.pendingNeighbours.contains env.now peer.peerId = true → s.free peer.peerId connection = true) :
    Quiet NoOffer s (s.handlePendingNeighbours env peer connection) ∨
      Entered s (s.handlePendingNeighbours env peer connection) peer.peerId connection ∧
      ∃ neighbour, (s.handlePendingNeighbours env peer connection).cmdtx =
        s.cmdtx ++ [.sendMessage peer.peerId connection ⟨s.topicConfig.name,.neighbour neighbour⟩] := by
  unfold handlePendingNeighbours
  dsimp only
  split
  · rename_i pending
    let offering := ({s with pendingNeighbours := (s.pendingNeighbours.remove env.now peer.peerId).2}).sendMessage
      peer.peerId connection (.neighbour ⟨s.thisNode,s.activePeers.isEmpty⟩)
    obtain ⟨entered,quiet⟩ := addToActiveView_enters (s:=offering) foreign (free pending)
    exact .inr ⟨entered.after rfl,⟨s.thisNode,s.activePeers.isEmpty⟩,quiet⟩
  · exact .inl (.same rfl rfl rfl rfl)

theorem handlePeerConnected_links (env : Env) (foreign : peer.peerId ≠ s.thisNode.peerId)
    (free : s.pendingNeighbours.contains env.now peer.peerId = true → s.free peer.peerId connection = true) :
    Quiet NoOffer s (s.handlePeerConnected env peer connection) ∨
      Entered s (s.handlePeerConnected env peer connection) peer.peerId connection ∧
      ∃ sent neighbour, (s.handlePeerConnected env peer connection).cmdtx = s.cmdtx ++ sent ∧
        .sendMessage peer.peerId connection ⟨s.topicConfig.name,.neighbour neighbour⟩ ∈ sent := by
  let asking := s.handleNonPendingConnects env peer connection
  have first : Quiet NoOffer s asking := 
    handleNonPendingConnects_quiet env fun join p c same => by cases same
  have same : asking.overlay = s.overlay := handleNonPendingConnects_overlay
  have courted : asking.pendingNeighbours = s.pendingNeighbours := congrArg Overlay.courted same
  have this : asking.thisNode.peerId = s.thisNode.peerId := congrArg Overlay.this same
  have last (t : TopicInner) : Quiet NoOffer t (peer.addresses.foldl (forgetDial env)
      (t.handlePendingShuffleReplies env peer connection)) :=
    (handlePendingShuffleReplies_quiet env (noOffer_routine _) fun reply p c same => by cases same).trans
      (forgetDials_quiet _ peer.addresses)
  have still : asking.pendingNeighbours.contains env.now peer.peerId = true →
      asking.free peer.peerId connection = true := by
    unfold TopicInner.free
    rw [courted,first.active]
    exact free
  rcases handlePendingNeighbours_links env (this ▸ foreign) still with quiet | ⟨entered,neighbour,offered⟩
  · exact .inl (first.trans (quiet.trans (last _)))
  · obtain ⟨before,asked,_⟩ := first.sends
    obtain ⟨after,told,_⟩ := (last (asking.handlePendingNeighbours env peer connection)).sends
    refine .inr ⟨(entered.after first.active).before (last _).active,
      before ++ .sendMessage peer.peerId connection ⟨asking.topicConfig.name,.neighbour neighbour⟩ :: after,neighbour,?_,?_⟩
    · exact told.trans (by rw [offered,asked]; simp)
    · rw [first.topicConfig]
      simp

theorem moveActiveToPassive_links (moved : s.moveActiveToPassive env p = .ok s') (apart : p ≠ q) :
    s'.activePeers[q]? = s.activePeers[q]? := by
  unfold moveActiveToPassive at moved
  split at moved
  · cases moved
    rfl
  · have quiet : Quiet (fun _ => True) {s with activePeers := s.activePeers.erase p} s' := addToPassiveView_quiet moved
    rw [quiet.active,get_erase,if_neg apart]

-- No event of a connection meets a link of its peer over another one, and no
-- NEIGHBOUR is refused without a word.
def smooth (env : Env) (s : TopicInner) : TopicEvent → Bool
  | .peerConnected peer connection =>
      !s.pendingNeighbours.contains env.now peer.peerId || s.free peer.peerId connection
  | .peerDisconnected peer connection => s.free peer connection
  | .messageReceived sender msg connection => match msg.action with
    | .neighbour _ => s.free sender connection && !s.refusable env sender
    | _ => true
  | _ => true

theorem mild_shakes (calm : mild event = true) (handled : s.injectEvent env event = .ok s') :
    ∃ asks, Shakes s s' event asks := by
  obtain ⟨sent,asks,written,same,offers⟩ := injectEvent_asks handled
  have active := mild_active calm handled
  refine ⟨asks,⟨sent,written,same⟩,?_,?_,?_,?_⟩
  · intro p c linked
    exact .inl ((linked_iff active).mpr linked)
  · intro p c linked
    exact .inl ((linked_iff active).mp linked)
  · intro p c asked
    obtain ⟨peer,rfl,_⟩ := offers _ asked p c rfl
    cases calm
  · intro p c offered
    obtain ⟨topic,neighbour,rfl⟩ := offered
    cases calm

theorem disconnected_shakes (free : s.free p c = true) (handled : s.injectEvent env (.peerDisconnected p c) = .ok s') :
    ∃ asks, Shakes s s' (.peerDisconnected p c) asks := by
  obtain ⟨sent,asks,written,same,offers⟩ := injectEvent_asks handled
  refine ⟨asks,⟨sent,written,same⟩,?_,?_,?_,?_⟩
  · intro q d linked
    by_cases apart : p = q
    · subst apart
      exact .inr (.inl (by rw [free_linked free linked]))
    · obtain ⟨addresses,found⟩ := linked
      obtain ⟨moved,first,rest⟩ := bind_ok.mp handled
      cases rest
      exact .inl ⟨addresses,(moveActiveToPassive_links first apart).trans found⟩
  · intro q d linked
    exact .inl ((injectEvent_linked handled linked).resolve_right id)
  · intro q d asked
    obtain ⟨peer,told,_⟩ := offers _ asked q d rfl
    cases told
  · intro q d offered
    obtain ⟨topic,neighbour,told⟩ := offered
    cases told

theorem connected_shakes (foreign : peer.peerId ≠ s.thisNode.peerId)
    (free : s.pendingNeighbours.contains env.now peer.peerId = true → s.free peer.peerId connection = true)
    (handled : s.injectEvent env (.peerConnected peer connection) = .ok s') :
    ∃ asks, Shakes s s' (.peerConnected peer connection) asks := by
  have unoffered : ∀ p c, ¬(TopicEvent.peerConnected peer connection).Offers p c := by
    intro p c offered
    obtain ⟨topic,neighbour,told⟩ := offered
    cases told
  obtain ⟨sent,asks,written,same,offers⟩ := injectEvent_asks handled
  cases handled
  have outcome : Quiet NoOffer s (s.handlePeerConnected env peer connection) ∨ _ :=
    handlePeerConnected_links env foreign free
  rcases outcome with quiet | ⟨entered,given,neighbour,told,offered⟩
  · obtain ⟨given,told,unasked⟩ := quiet.sends
    cases List.append_cancel_left (written.symm.trans told)
    refine ⟨asks,⟨sent,written,same⟩,?_,?_,?_,fun p c offered => (unoffered p c offered).elim⟩
    · intro p c linked
      exact .inl ((linked_iff quiet.active).mpr linked)
    · intro p c linked
      exact .inl ((linked_iff quiet.active).mp linked)
    · intro p c asked
      have mapped : .ask (.send p c .offer) ∈ sent.map Command.item := same ▸ List.mem_map_of_mem asked
      obtain ⟨command,member,is⟩ := List.mem_map.mp mapped
      exact (unasked command member p c is).elim
  · cases List.append_cancel_left (written.symm.trans told)
    refine ⟨asks,⟨sent,written,same⟩,?_,?_,?_,fun p c offered => (unoffered p c offered).elim⟩
    · intro p c linked
      exact .inl (entered.keeps linked)
    · intro p c linked
      refine (entered.gains linked).imp_right fun here => ?_
      obtain ⟨rfl,rfl⟩ := here
      exact ⟨⟨rfl,rfl⟩,.inl (mem_asks same offered rfl)⟩
    · intro p c asked
      obtain ⟨other,told,rfl⟩ := offers _ asked p c rfl
      cases told
      exact ⟨⟨rfl,rfl⟩,entered.linked⟩

theorem erased_linked (erased : s'.activePeers = s.activePeers.erase p) (linked : s'.Linked q c) : s.Linked q c := by
  obtain ⟨addresses,found⟩ := linked
  rw [erased] at found
  exact ⟨addresses,(erase_found found).2⟩

theorem erased_keeps (erased : s'.activePeers = s.activePeers.erase p) (linked : s.Linked q c) :
    s'.Linked q c ∨ p = q := by
  by_cases same : p = q
  · exact .inr same
  · obtain ⟨addresses,found⟩ := linked
    exact .inl ⟨addresses,by rw [erased,get_erase,if_neg same]; exact found⟩

theorem join_shakes {join : Join}
    (handled : s.injectEvent env (.messageReceived sender ⟨topic,.join join⟩ connection) = .ok s') :
    ∃ asks, Shakes s s' (.messageReceived sender ⟨topic,.join join⟩ connection) asks := by
  obtain ⟨sent,asks,written,same,offers⟩ := injectEvent_asks handled
  have unasked : ∀ p c, .send p c .offer ∉ asks := by
    intro p c asked
    obtain ⟨peer,told,_⟩ := offers _ asked p c rfl
    cases told
  have unoffered : ∀ p c, ¬(TopicEvent.messageReceived sender ⟨topic,.join join⟩ connection).Offers p c := by
    intro p c offered
    obtain ⟨topic,neighbour,told⟩ := offered
    cases told
  have consumed : s.consumeJoin env sender join connection = .ok s' := by
    cases injectEvent_handled handled with
    | join _ _ _ consumed => exact consumed
  refine ⟨asks,⟨sent,written,same⟩,?_,?_,fun p c asked => (unasked p c asked).elim,
    fun p c offered => (unoffered p c offered).elim⟩
  · intro p c linked
    rcases consumeJoin_links consumed with active | ⟨erased,banned⟩
    · exact .inl ((linked_iff active).mpr linked)
    · rcases erased_keeps erased linked with linked | rfl
      · exact .inl linked
      · have member : .banPeer sender ∈ sent := by
          rw [List.append_cancel_left (written.symm.trans banned)]
          exact List.mem_singleton.mpr rfl
        exact .inr (.inr (mem_asks same member rfl))
  · intro p c linked
    rcases consumeJoin_links consumed with active | ⟨erased,_⟩
    · exact .inl ((linked_iff active).mp linked)
    · exact .inl (erased_linked erased linked)

theorem neighbour_shakes {neighbour : Neighbour} (foreign : sender ≠ s.thisNode.peerId)
    (free : s.free sender connection = true) (heard : s.refusable env sender = false)
    (handled : s.injectEvent env (.messageReceived sender ⟨topic,.neighbour neighbour⟩ connection) = .ok s') :
    ∃ asks, Shakes s s' (.messageReceived sender ⟨topic,.neighbour neighbour⟩ connection) asks := by
  obtain ⟨sent,asks,written,same,offers⟩ := injectEvent_asks handled
  have unasked : ∀ p c, .send p c .offer ∉ asks := by
    intro p c asked
    obtain ⟨peer,told,_⟩ := offers _ asked p c rfl
    cases told
  have consumed : s.consumeNeighbor env sender neighbour connection = .ok s' := by
    cases injectEvent_handled handled with
    | neighbour _ _ _ consumed => exact consumed
  obtain ⟨given,told,outcome⟩ := consumeNeighbor_decided foreign free heard consumed
  cases List.append_cancel_left (written.symm.trans told)
  refine ⟨asks,⟨sent,written,same⟩,?_,?_,fun p c asked => (unasked p c asked).elim,?_⟩
  · intro p c linked
    rcases outcome with ⟨active,_⟩ | ⟨erased,banned⟩ | entered
    · exact .inl ((linked_iff active).mpr linked)
    · rcases erased_keeps erased linked with linked | rfl
      · exact .inl linked
      · exact .inr (.inr (mem_asks same banned rfl))
    · exact .inl (entered.keeps linked)
  · intro p c linked
    rcases outcome with ⟨active,_⟩ | ⟨erased,_⟩ | entered
    · exact .inl ((linked_iff active).mp linked)
    · exact .inl (erased_linked erased linked)
    · refine (entered.gains linked).imp_right fun here => ?_
      obtain ⟨rfl,rfl⟩ := here
      exact ⟨⟨rfl,rfl⟩,.inr ⟨_,_,rfl⟩⟩
  · intro p c offered
    obtain ⟨_,_,told⟩ := offered
    cases told
    rcases outcome with ⟨_,cut⟩ | ⟨_,banned⟩ | entered
    · exact .inr (.inr (mem_asks same cut rfl))
    · exact .inr (.inl (mem_asks same banned rfl))
    · exact .inl entered.linked

-- Whatever a smooth event does to the links, the other ends learn of it.
theorem injectEvent_shakes (foreign : ∀ p c, event.brings p c → p ≠ s.thisNode.peerId) (smooth : s.smooth env event = true)
    (handled : s.injectEvent env event = .ok s') : ∃ asks, Shakes s s' event asks := by
  cases event with
  | localAddressDiscovered addr => exact mild_shakes rfl handled
  | tick => exact mild_shakes rfl handled
  | peerConnected peer connection =>
      refine connected_shakes (foreign _ _ ⟨rfl,rfl⟩) ?_ handled
      intro pending
      simpa [TopicInner.smooth,pending] using smooth
  | peerDisconnected peer connection => exact disconnected_shakes smooth handled
  | messageReceived sender msg connection =>
      obtain ⟨topic,action⟩ := msg
      cases action with
      | join join => exact join_shakes handled
      | neighbour neighbour =>
          obtain ⟨free,heard⟩ := Bool.and_eq_true_iff.mp smooth
          exact neighbour_shakes (foreign _ _ ⟨rfl,rfl⟩) free (Bool.not_eq_true' _ ▸ heard) handled
      | _ => exact mild_shakes rfl handled

end TopicInner

end AnomaAlpha
