import AnomaAlpha.Views

namespace AnomaAlpha
open Fallible OrderedMap

namespace TopicInner

inductive Reached (fit : TopicInner → Env → TopicEvent → Prop) (start : TopicInner) : TopicInner → Prop where
  | refl : Reached fit start start
  | step : Reached fit start s → fit s env event → s.injectEvent env event = .ok next → Reached fit start next

variable {start s s' : TopicInner} {fit : TopicInner → Env → TopicEvent → Prop} {now : Nat} {topicConfig : TopicConfig}
  {networkConfig : NetworkConfig} {thisNode : AddressablePeer}

theorem Reached.trans (first : Reached fit start s) (second : Reached fit s s') : Reached fit start s' := by
  induction second with
  | refl => exact first
  | step _ fits handled ih => exact .step ih fits handled

theorem run_reaches (fit : TopicInner → Env → TopicEvent → Prop) (s : TopicInner) (events : List (Env × TopicEvent)) (final : TopicInner → Bool) (fits : ∀ s, ∀ entry ∈ events, fit s entry.1 entry.2)
    (ends : (s.run events).toOption.any final = true) : ∃ s', Reached fit s s' ∧ final s' = true := by
  induction events generalizing s with
  | nil => exact ⟨s,.refl,ends⟩
  | cons head events ih =>
      unfold run at ends
      cases handled : s.injectEvent head.1 head.2 with
      | error panic =>
          rw [handled] at ends
          cases ends
      | ok next =>
          rw [handled] at ends
          obtain ⟨s',reached,holds⟩ := ih next (fun s entry member => fits s entry (List.mem_cons_of_mem _ member)) ends
          exact ⟨s',(Reached.step .refl (fits s head (by simp)) handled).trans reached,holds⟩

theorem new_overlay (now : Nat) (topicConfig : TopicConfig) (networkConfig : NetworkConfig) (thisNode : AddressablePeer) :
    (new now topicConfig networkConfig thisNode).overlay =
      ⟨topicConfig,networkConfig,thisNode.peerId,[],∅,∅,.new networkConfig.pendingTimeout⟩ := by
  unfold new
  dsimp only
  rw [foldl_overlay]
  · rfl
  · intro s addr
    unfold dialBootstrap
    dsimp only
    split <;> rfl

@[simp] theorem new_topicConfig : (new now topicConfig networkConfig thisNode).topicConfig = topicConfig :=
  congrArg Overlay.topicConfig (new_overlay now topicConfig networkConfig thisNode)

@[simp] theorem new_networkConfig : (new now topicConfig networkConfig thisNode).networkConfig = networkConfig :=
  congrArg Overlay.networkConfig (new_overlay now topicConfig networkConfig thisNode)

@[simp] theorem new_outmsgs : (new now topicConfig networkConfig thisNode).outmsgs = [] :=
  congrArg Overlay.delivered (new_overlay now topicConfig networkConfig thisNode)

-- An invariant of the overlay holds wherever fitting events lead, when those
-- events keep to rules whose moves keep it.
theorem reached_invariant (P : Overlay → Prop)
    (kept : ∀ s env event s', P s.overlay → fit s env event → s.injectEvent env event = .ok s' → P s'.overlay)
    (holds : P start.overlay) (reached : Reached fit start s) : P s.overlay := by
  induction reached with
  | refl => exact holds
  | step _ fits handled ih => exact kept _ _ _ _ ih fits handled

def content : TopicEvent → Option Bytes
  | .messageReceived _ ⟨_,.gossip bytes⟩ _ => some bytes
  | _ => none

theorem content_some (brought : content event = some bytes) :
    ∃ sender topic connection, event = .messageReceived sender ⟨topic,.gossip bytes⟩ connection := by
  unfold content at brought
  split at brought
  · cases brought
    exact ⟨_,_,_,rfl⟩
  · cases brought

def lenient (deliver : Bytes → Prop) : Rules := ⟨fun _ _ => True,fun _ => True,fun _ _ => True,deliver⟩

theorem lenient_allowed {deliver : Bytes → Prop} (allowed : ∀ bytes, content event = some bytes → deliver bytes) :
    Allows (lenient deliver) s env event := by
  cases event with
  | messageReceived sender msg connection =>
      obtain ⟨topic,action⟩ := msg
      cases action with
      | gossip bytes => exact fun _ => allowed bytes rfl
      | _ => simp [Allows,lenient]
  | _ => simp [Allows,lenient]

theorem injectEvent_delivers (handled : s.injectEvent env event = .ok s') (other : content event ≠ some bytes) :
    ∃ gained, s'.outmsgs = s.outmsgs ++ gained ∧ bytes ∉ gained := by
  have moves : Moves (lenient (· ≠ bytes)) s.overlay s'.overlay := by
    refine injectEvent_moves handled (lenient_allowed ?_)
    intro given brought same
    subst same
    exact other brought
  refine moves.invariant (fun o => ∃ gained, o.delivered = s.outmsgs ++ gained ∧ bytes ∉ gained) ?_ ⟨[],by simp [overlay]⟩
  intro o o' given move
  obtain ⟨gained,grown,absent⟩ := given
  cases move with
  | @deliver given _ different =>
      refine ⟨gained ++ [given],by simp [grown],?_⟩
      simpa [absent] using Ne.symm different
  | _ => exact ⟨gained,grown,absent⟩

theorem injectEvent_config (handled : s.injectEvent env event = .ok s') :
    s'.topicConfig = s.topicConfig ∧ s'.networkConfig = s.networkConfig := by
  obtain ⟨topic,config,_⟩ := (injectEvent_moves handled (lenient_allowed fun _ _ => trivial)).frame
  exact ⟨topic,config⟩

-- Disjoint views.

-- An event that puts an active peer into the passive view: a FORWARDJOIN that
-- is about one or that evicts one, or a SHUFFLE for which one is drawn.
def Overlaps (s : TopicInner) (env : Env) : TopicEvent → Prop
  | .messageReceived sender msg _ => match msg.action with
    | .forwardJoin flood => s.heeds sender flood ∧ (s.isActive flood.node.peerId ∨ s.crowds env flood)
    | .shuffle shuffle => s.isActive sender ∧
        ∃ ids, s.shuffledView env shuffle = .ok ids ∧ ∃ id ∈ ids, s.isActive id
    | _ => False
  | _ => False

def strangers : Rules := ⟨fun _ _ => True,fun _ => True,fun active peer => peer ∉ active,fun _ => True⟩

theorem strangers_allowed (clear : ¬s.Overlaps env event) : Allows strangers s env event := by
  cases event with
  | localAddressDiscovered addr => trivial
  | peerConnected peer connection => trivial
  | peerDisconnected peer connection => trivial
  | tick => exact fun _ _ => trivial
  | messageReceived sender msg connection =>
      obtain ⟨topic,action⟩ := msg
      cases action with
      | join join =>
          intro inactive own
          exact ⟨trivial,isActive_false.mp inactive⟩
      | forwardJoin flood =>
          intro heeded
          refine ⟨trivial,?_,?_⟩
          · intro active
            exact clear ⟨heeded,.inl (isActive_iff.mpr active)⟩
          · intro crowded
            exact absurd ⟨heeded,.inr crowded⟩ clear
      | neighbour neighbour => exact fun _ _ => trivial
      | shuffle shuffle =>
          intro active ids drawn id member
          exact .inr fun linked => clear ⟨active,ids,drawn,id,member,isActive_iff.mpr linked⟩
      | shuffleReply reply => trivial
      | gossip bytes => exact fun _ => trivial

def Apart (o : Overlay) : Prop := ∀ peer ∈ o.active, peer ∉ o.passive

theorem move_apart (apart : Apart o) (move : Move strangers o o') : Apart o' := by
  intro peer active passive
  cases move with
  | link allowed new other =>
      simp only [Std.ExtTreeMap.mem_insert,Std.ExtTreeMap.mem_erase] at active passive
      rcases active with same | active
      · exact passive.1 same
      · exact apart peer active passive.2
  | leave => exact apart peer (Std.ExtTreeMap.mem_erase.mp active).2 passive
  | demote was =>
      simp only [Std.ExtTreeMap.mem_insert,Std.ExtTreeMap.mem_erase] at active passive
      rcases passive with same | passive
      · exact active.1 same
      · exact apart peer active.2 passive
  | learn allowed =>
      simp only [Std.ExtTreeMap.mem_insert] at passive
      rcases passive with same | passive
      · obtain rfl := Std.LawfulEqOrd.eq_of_compare same
        exact allowed active
      · exact apart peer active passive
  | forget => exact apart peer active (Std.ExtTreeMap.mem_erase.mp passive).2
  | resample known =>
      rcases known peer passive with inside | stranger
      · exact apart peer active inside
      · exact stranger active
  | court allowed => exact apart peer active passive
  | settle => exact apart peer active passive
  | prune => exact apart peer active passive
  | deliver allowed => exact apart peer active passive

theorem views_disjoint
    (reached : Reached (fun s env event => ¬s.Overlaps env event) (new now topicConfig networkConfig thisNode) s) :
    ∀ peer, ¬(peer ∈ s.activePeers ∧ peer ∈ s.passivePeers) := by
  have apart : Apart s.overlay := by
    refine reached_invariant Apart ?_ ?_ reached
    · intro s env event s' apart clear handled
      exact (injectEvent_moves handled (strangers_allowed clear)).invariant Apart (fun _ _ => move_apart) apart
    · rw [new_overlay]
      intro peer active
      simp at active
  intro peer both
  exact apart peer both.1 both.2

theorem visitors_disjoint : ∃ s, Reached (fun s env event => ¬s.Overlaps env event) TopicExample.topic s ∧
    s.activePeers.size = 1 ∧ s.passivePeers.size = 1 ∧ ∀ peer, ¬(peer ∈ s.activePeers ∧ peer ∈ s.passivePeers) := by
  obtain ⟨s,reached,both⟩ := run_reaches (fun s env event => ¬s.Overlaps env event) TopicExample.topic TopicExample.visits
    (fun s => s.activePeers.size = 1 ∧ s.passivePeers.size = 1)
    (fun s => by simp [TopicExample.visits,TopicExample.receives,Overlaps]) (by decide)
  obtain ⟨active,passive⟩ := of_decide_eq_true both
  exact ⟨s,reached,active,passive,views_disjoint reached⟩

theorem active_peer_turns_passive : ∃ s, Reached (fun _ _ _ => True) TopicExample.topic s ∧
    (TopicExample.peer 1).peerId ∈ s.activePeers ∧ (TopicExample.peer 1).peerId ∈ s.passivePeers := by
  obtain ⟨s,reached,both⟩ := run_reaches (fun _ _ _ => True) TopicExample.topic TopicExample.exchange
    (fun s => s.isActive (TopicExample.peer 1).peerId && s.passivePeers.contains (TopicExample.peer 1).peerId)
    (fun _ _ _ => trivial) (by decide)
  rw [Bool.and_eq_true] at both
  exact ⟨s,reached,isActive_iff.mp both.1,both.2⟩

-- A node and its own id.

def impersonates (this : PeerId) : TopicEvent → Bool
  | .messageReceived sender _ _ => sender = this
  | .peerConnected peer _ => peer.peerId = this
  | .peerDisconnected peer _ => peer = this
  | _ => false

def DrawsItself (s : TopicInner) (env : Env) : TopicEvent → Prop
  | .messageReceived sender msg _ => match msg.action with
    | .shuffle shuffle => s.isActive sender ∧ ∃ ids, s.shuffledView env shuffle = .ok ids ∧ s.thisNode.peerId ∈ ids
    | _ => False
  | _ => False

def others (this : PeerId) : Rules := 
  ⟨fun _ _ => True,fun peer => peer ≠ this,fun _ peer => peer ≠ this,fun _ => True⟩

structure Selfless (o : Overlay) : Prop where
  active : o.this ∉ o.active
  passive : o.this ∉ o.passive
  courted : o.this ∉ o.courted.inner.data

theorem others_allowed (selfless : Selfless s.overlay) (genuine : ¬impersonates s.thisNode.peerId event)
    (clear : ¬s.DrawsItself env event) : Allows (others s.thisNode.peerId) s env event := by
  cases event with
  | localAddressDiscovered addr => trivial
  | peerConnected peer connection => trivial
  | peerDisconnected peer connection => trivial
  | tick =>
      intro id inside same
      subst same
      exact selfless.passive inside
  | messageReceived sender msg connection =>
      obtain ⟨topic,action⟩ := msg
      cases action with
      | join join =>
          have foreign : sender ≠ s.thisNode.peerId := fun same => genuine (decide_eq_true same)
          exact fun _ _ => ⟨foreign,foreign⟩
      | forwardJoin flood =>
          intro heeded
          have foreign : flood.node.peerId ≠ s.thisNode.peerId := by
            simp only [heeds,Bool.and_eq_true,bne_iff_ne] at heeded
            exact heeded.2
          refine ⟨foreign,foreign,?_⟩
          intro _ id linked same
          subst same
          exact selfless.active linked
      | neighbour neighbour => exact fun _ _ => trivial
      | shuffle shuffle =>
          intro active ids drawn id member
          refine .inr ?_
          intro same
          subst same
          exact clear ⟨active,ids,drawn,member⟩
      | shuffleReply reply => trivial
      | gossip bytes => exact fun _ => trivial

theorem move_selfless (selfless : Selfless o) (move : Move (others o.this) o o') : Selfless o' := by
  have different : ∀ {peer : PeerId}, peer ≠ o.this → ¬compare peer o.this = .eq :=
    fun other same => other (Std.LawfulEqOrd.eq_of_compare same)
  obtain ⟨active,passive,courted⟩ := selfless
  cases move with
  | link allowed new other =>
      refine ⟨?_,?_,courted⟩
      · simp [Std.ExtTreeMap.mem_insert,active,different other]
      · simp [Std.ExtTreeMap.mem_erase,passive]
  | leave => exact ⟨by simp [Std.ExtTreeMap.mem_erase,active],passive,courted⟩
  | demote was =>
      refine ⟨by simp [Std.ExtTreeMap.mem_erase,active],?_,courted⟩
      have other := different fun same => active (same ▸ was)
      simp [Std.ExtTreeMap.mem_insert,passive,other]
  | learn allowed => exact ⟨active,by simp [Std.ExtTreeMap.mem_insert,passive,different allowed],courted⟩
  | forget => exact ⟨active,by simp [Std.ExtTreeMap.mem_erase,passive],courted⟩
  | resample known =>
      refine ⟨active,fun inside => ?_,courted⟩
      rcases known _ inside with before | stranger
      · exact passive before
      · exact stranger rfl
  | court allowed =>
      refine ⟨active,passive,?_⟩
      simp [ExpiringSet.insert,ExpiringMap.insert,Std.ExtTreeMap.mem_insert,courted,different allowed]
  | settle =>
      refine ⟨active,passive,?_⟩
      simp [ExpiringSet.remove,ExpiringMap.remove,Std.ExtTreeMap.mem_erase,courted]
  | prune => exact ⟨active,passive,fun inside => courted (Std.ExtTreeMap.mem_of_mem_filter inside)⟩
  | deliver allowed => exact ⟨active,passive,courted⟩

theorem node_never_lists_itself (reached : Reached
      (fun s env event => ¬impersonates thisNode.peerId event ∧ ¬s.DrawsItself env event) (new now topicConfig networkConfig thisNode) s) :
    s.thisNode.peerId = thisNode.peerId ∧ thisNode.peerId ∉ s.activePeers ∧ thisNode.peerId ∉ s.passivePeers ∧
      thisNode.peerId ∉ s.pendingNeighbours.inner.data := by
  have selfless : s.overlay.this = thisNode.peerId ∧ Selfless s.overlay := by
    refine reached_invariant (fun o => o.this = thisNode.peerId ∧ Selfless o) ?_ ?_ reached
    · intro s env event s' ⟨same,selfless⟩ ⟨genuine,clear⟩ handled
      have own : s.thisNode.peerId = thisNode.peerId := same
      have moves := injectEvent_moves handled (others_allowed selfless (by rwa [own]) clear)
      refine moves.invariant (fun o => o.this = thisNode.peerId ∧ Selfless o) ?_ ⟨same,selfless⟩
      intro o o' ⟨kept,selfless⟩ move
      rw [own.trans kept.symm] at move
      exact ⟨(Moves.single move).frame.2.2.trans kept,move_selfless selfless move⟩
    · rw [new_overlay]
      exact ⟨rfl,by simp,by simp,by simp [ExpiringSet.new,ExpiringMap.new]⟩
  obtain ⟨same,active,passive,courted⟩ := selfless
  rw [same] at active passive courted
  exact ⟨same,active,passive,courted⟩

theorem visited_selfless : ∃ s, Reached
      (fun s env event => ¬impersonates (TopicExample.peer 0).peerId event ∧ ¬s.DrawsItself env event) TopicExample.topic s ∧
    s.activePeers.size = 1 ∧ s.passivePeers.size = 1 ∧ (TopicExample.peer 0).peerId ∉ s.activePeers ∧
    (TopicExample.peer 0).peerId ∉ s.passivePeers ∧ (TopicExample.peer 0).peerId ∉ s.pendingNeighbours.inner.data := by
  obtain ⟨s,reached,both⟩ := run_reaches
    (fun s env event => ¬impersonates (TopicExample.peer 0).peerId event ∧ ¬s.DrawsItself env event)
    TopicExample.topic TopicExample.visits (fun s => s.activePeers.size = 1 ∧ s.passivePeers.size = 1)
    (fun s => by simp [TopicExample.visits,TopicExample.receives,TopicExample.peer,DrawsItself,impersonates])
    (by decide)
  obtain ⟨active,passive⟩ := of_decide_eq_true both
  exact ⟨s,reached,active,passive,(node_never_lists_itself reached).2⟩

theorem shuffle_lists_itself : ∃ s, Reached (fun _ _ event => ¬impersonates (TopicExample.peer 0).peerId event)
    TopicExample.topic s ∧ s.thisNode.peerId ∈ s.passivePeers := by
  obtain ⟨s,reached,listed⟩ := run_reaches
    (fun _ _ event => ¬impersonates (TopicExample.peer 0).peerId event) TopicExample.topic TopicExample.exchange
    (fun s => s.passivePeers.contains s.thisNode.peerId) (fun _ => by decide) (by decide)
  exact ⟨s,reached,listed⟩

end TopicInner

end AnomaAlpha
