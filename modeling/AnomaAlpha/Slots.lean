import AnomaAlpha.Handshake

namespace AnomaAlpha
open Fallible OrderedMap

namespace TopicInner
variable {s s' : TopicInner} {env : Env} {sender p : PeerId} {connection c c' : ConnectionId}

-- A NEIGHBOUR that asks for a slot has got one: its sender is linked and is not
-- sent away, and a full view has another peer leave.
structure Admitted (s s' : TopicInner) (sender : PeerId) (connection : ConnectionId) : Prop where
  linked : s'.Linked sender connection
  welcome : ∃ sent, s'.cmdtx = s.cmdtx ++ sent ∧ .disconnect sender connection ∉ sent ∧
    (s.activeViewFull = true → ∃ other conn, other ≠ sender ∧ s.Linked other conn ∧ .disconnect other conn ∈ sent)

theorem disconnect_active (env : Env) (s : TopicInner) (peer : PeerId) (connection : ConnectionId) :
    (s.disconnect env peer connection).activePeers = s.activePeers :=
  overlay_active (disconnect_overlay env s peer connection)

theorem disconnect_full (env : Env) (s : TopicInner) (peer : PeerId) (connection : ConnectionId) :
    (s.disconnect env peer connection).activeViewFull = s.activeViewFull := by
  unfold activeViewFull
  rw [disconnect_active,overlay_config (disconnect_overlay env s peer connection)]

theorem full_refuses {msg : Neighbour} (full : s.activeViewFull = true) (own : msg.peer.peerId = sender)
    (consumed : s.consumeNeighbor env sender msg connection = .ok s') : s'.activePeers = s.activePeers := by
  unfold consumeNeighbor at consumed
  split at consumed
  · cases consumed
    rfl
  · rw [if_neg fun other => other own.symm] at consumed
    split at consumed
    · obtain ⟨random,_,consumed⟩ := bind_ok.mp consumed
      obtain ⟨link,_,consumed⟩ := bind_ok.mp consumed
      have still : (s.disconnect env random link.1).activeViewFull = true := (disconnect_full ..).trans full
      change (if !(s.disconnect env random link.1).activeViewFull then _ else _) = _ at consumed
      rw [still] at consumed
      cases consumed
      exact (disconnect_active ..).trans (disconnect_active ..)
    · change (if !s.activeViewFull then _ else _) = _ at consumed
      rw [full] at consumed
      cases consumed
      exact disconnect_active ..

theorem roomy_admits {msg : Neighbour} (room : s.activeViewFull = false) (own : msg.peer.peerId = sender)
    (foreign : sender ≠ s.thisNode.peerId) (inactive : s.isActive sender = false) :
    s.consumeNeighbor env sender msg connection = .ok (s.addToActiveView msg.peer connection) := by
  unfold consumeNeighbor
  rw [inactive,room]
  subst own
  simp only [Bool.false_eq_true,if_false,ne_eq,not_true_eq_false,Bool.false_and,pure,Except.pure,bind,Except.bind,room,
    Bool.not_false,if_true]

-- High priority opens no full view: the view is as full after the eviction was
-- asked for as before.
theorem neighbour_admitted_iff (env : Env) (s : TopicInner) (sender : PeerId) (msg : Neighbour) (connection : ConnectionId)
    (own : msg.peer.peerId = sender) (foreign : sender ≠ s.thisNode.peerId) (inactive : s.isActive sender = false) :
    (∃ s', s.consumeNeighbor env sender msg connection = .ok s' ∧ Admitted s s' sender connection) ↔
      s.activeViewFull = false := by
  constructor
  · intro given
    obtain ⟨s',consumed,admitted⟩ := given
    cases full : s.activeViewFull with
    | false => rfl
    | true =>
        have linked : s.Linked sender connection := linked_of_active (full_refuses full own consumed) admitted.linked
        rw [linked_active linked] at inactive
        cases inactive
  · intro room
    refine ⟨_,roomy_admits room own foreign inactive,?_⟩
    subst own
    obtain ⟨inserted,quiet⟩ : (s.addToActiveView msg.peer connection).activePeers = _ ∧ _ :=
      addToActiveView_new inactive foreign
    refine ⟨(entered_insert inactive inserted).linked,[],by rw [quiet,List.append_nil],nofun,?_⟩
    intro full
    rw [room] at full
    cases full

def eightNeighbours : List (Env × TopicEvent) :=
  [1,2,3,4,5,6,7,8].map fun n => TopicExample.receives n (.neighbour ⟨TopicExample.peer n,true⟩)

theorem first_neighbour_admitted : ∃ s', TopicExample.topic.consumeNeighbor TopicExample.env (TopicExample.peer 1).peerId
      ⟨TopicExample.peer 1,true⟩ 1 = .ok s' ∧ Admitted TopicExample.topic s' (TopicExample.peer 1).peerId 1 :=
  (neighbour_admitted_iff TopicExample.env TopicExample.topic (TopicExample.peer 1).peerId ⟨TopicExample.peer 1,true⟩ 1 rfl
    (by decide) (by decide)).mpr (by decide)

theorem ninth_neighbour_refused : ∃ s, Reached (fun _ _ _ => True) TopicExample.topic s ∧
    s.isActive (TopicExample.peer 9).peerId = false ∧
    ¬∃ s', s.consumeNeighbor TopicExample.env (TopicExample.peer 9).peerId ⟨TopicExample.peer 9,true⟩ 9 = .ok s' ∧
      Admitted s s' (TopicExample.peer 9).peerId 9 := by
  obtain ⟨s,reached,holds⟩ := run_reaches (fun _ _ _ => True) TopicExample.topic eightNeighbours
    (fun s => s.activeViewFull && !s.isActive (TopicExample.peer 9).peerId) (fun _ _ _ => trivial) (by decide)
  obtain ⟨full,new⟩ := Bool.and_eq_true_iff.mp holds
  have inactive : s.isActive (TopicExample.peer 9).peerId = false := by simpa using new
  refine ⟨s,reached,inactive,?_⟩
  intro given
  obtain ⟨s',consumed,admitted⟩ := given
  have own : (⟨TopicExample.peer 9,true⟩ : Neighbour).peer.peerId = (TopicExample.peer 9).peerId := rfl
  have linked := linked_of_active (full_refuses full own consumed) admitted.linked
  rw [linked_active linked] at inactive
  cases inactive

-- Whichever connection is closed, its peer is taken out of the view.
theorem closing_evicts (env : Env) (s : TopicInner) (p : PeerId) (c c' : ConnectionId) :
    ¬∃ s', s.injectEvent env (.peerDisconnected p c') = .ok s' ∧ s'.Linked p c := by
  intro given
  obtain ⟨s',handled,still⟩ := given
  exact disconnected_unlinked handled still

theorem run_handles (start : TopicInner) (events : List (Env × TopicEvent)) (env : Env) (event : TopicEvent)
    (final : TopicInner → TopicInner → Bool)
    (ends : (start.run events).toOption.any (fun s => (s.injectEvent env event).toOption.any (final s)) = true) :
    ∃ s s', Reached (fun _ _ _ => True) start s ∧ s.injectEvent env event = .ok s' ∧ final s s' = true := by
  obtain ⟨s,reached,holds⟩ := run_reaches (fun _ _ _ => True) start events
    (fun s => (s.injectEvent env event).toOption.any (final s)) (fun _ _ _ => trivial) ends
  cases handled : s.injectEvent env event with
  | error panic =>
      rw [handled] at holds
      cases holds
  | ok s' =>
      rw [handled] at holds
      exact ⟨s,s',reached,handled,holds⟩

-- A peer that is linked over connection 1 connects once more and closes again.
theorem side_connection_evicts : ∃ s s', Reached (fun _ _ _ => True) TopicExample.topic s ∧
    s.Linked (TopicExample.peer 1).peerId 1 ∧
    s.injectEvent TopicExample.env (.peerDisconnected (TopicExample.peer 1).peerId 2) = .ok s' ∧
    ¬s'.Linked (TopicExample.peer 1).peerId 1 := by
  obtain ⟨s,s',reached,handled,linked⟩ := run_handles TopicExample.topic
    [TopicExample.receives 1 (.neighbour ⟨TopicExample.peer 1,true⟩),
      (TopicExample.env,.peerConnected (TopicExample.peer 1) 2)]
    TopicExample.env (.peerDisconnected (TopicExample.peer 1).peerId 2)
    (fun s _ => s.activePeers[(TopicExample.peer 1).peerId]? = some (1,(TopicExample.peer 1).addresses)) (by decide)
  exact ⟨s,s',reached,⟨_,of_decide_eq_true linked⟩,handled,disconnected_unlinked handled⟩

-- A tick looks for surplus only where the view is not even full.
theorem overconnected_full (surplus : s.activeViewOverconnected = true) : s.activeViewFull = true :=
  decide_eq_true (Nat.le_of_lt (of_decide_eq_true surplus))

def Keeps (command : Command) : Prop := ∀ peer connection, command ≠ .disconnect peer connection

theorem full_tick_keeps (full : s.activeViewFull = true) (handled : s.handleTick env = .ok s') : Quiet Keeps s s' := by
  have pruned : Quiet Keeps s (s.prune env) := .same rfl rfl rfl rfl
  obtain ⟨shuffled,before,after⟩ := handleTick_cases handled
  have quiet : Quiet Keeps s shuffled := by
    rcases before with rfl | shuffle
    · exact pruned
    · refine pruned.trans (initiateShuffle_quiet ?_ shuffle)
      intro peer connection node peers _ id conn same
      cases same
  rcases after with rfl | ⟨roomy,_⟩
  · exact quiet
  · have still : shuffled.activeViewFull = true := by
      unfold activeViewFull at full ⊢
      rwa [quiet.active,quiet.networkConfig]
    cases still.symm.trans roomy

theorem tick_sheds_nobody (env : Env) (s : TopicInner) (surplus : s.activeViewOverconnected = true) :
    ¬∃ s' sent peer conn, s.injectEvent env .tick = .ok s' ∧ s'.cmdtx = s.cmdtx ++ sent ∧ s.Linked peer conn ∧
      .disconnect peer conn ∈ sent := by
  intro given
  obtain ⟨s',sent,peer,conn,handled,written,_,asked⟩ := given
  obtain ⟨kept,told,calm⟩ := (full_tick_keeps (overconnected_full surplus) handled).sends
  rw [List.append_cancel_left (written.symm.trans told)] at asked
  exact calm _ asked peer conn rfl

-- A peer joins and is dialed; by the time it is connected the view is full.
def lateNeighbour : List (Env × TopicEvent) :=
  TopicExample.receives 9 (.join ⟨TopicExample.peer 9⟩) ::
    (TopicExample.env,.peerDisconnected (TopicExample.peer 9).peerId 9) :: eightNeighbours ++ [(TopicExample.env,.peerConnected (TopicExample.peer 9) 10)]

theorem nine_links_kept : ∃ s : TopicInner, s.activePeers.size = 9 ∧
    ¬∃ s' sent peer conn, s.injectEvent TopicExample.env .tick = .ok s' ∧ s'.cmdtx = s.cmdtx ++ sent ∧ s.Linked peer conn ∧
      .disconnect peer conn ∈ sent := by
  obtain ⟨s,_,holds⟩ := run_reaches (fun _ _ _ => True) TopicExample.topic lateNeighbour
    (fun s => s.activeViewOverconnected && s.activePeers.size == 9) (fun _ _ _ => trivial) (by decide)
  obtain ⟨surplus,nine⟩ := Bool.and_eq_true_iff.mp holds
  exact ⟨s,eq_of_beq nine,tick_sheds_nobody TopicExample.env s surplus⟩

theorem surplus_stays : ∃ s s', Reached (fun _ _ _ => True) TopicExample.topic s ∧ s.activeViewOverconnected = true ∧
    (s.prune TopicExample.env).pendingDisconnects.isEmpty = true ∧ s.injectEvent TopicExample.env .tick = .ok s' ∧
    s'.cmdtx = s.cmdtx := by
  obtain ⟨s,s',reached,handled,holds⟩ := run_handles TopicExample.topic lateNeighbour TopicExample.env .tick
    (fun s s' => s.activeViewOverconnected &&
      ((s.prune TopicExample.env).pendingDisconnects.isEmpty && s'.cmdtx == s.cmdtx)) (by decide)
  obtain ⟨surplus,holds⟩ := Bool.and_eq_true_iff.mp holds
  obtain ⟨idle,silent⟩ := Bool.and_eq_true_iff.mp holds
  exact ⟨s,s',reached,surplus,idle,handled,eq_of_beq silent⟩

end TopicInner
end AnomaAlpha
