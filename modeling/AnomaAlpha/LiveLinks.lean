import AnomaAlpha.Emissions
import AnomaAlpha.Routing

namespace AnomaAlpha
open Fallible OrderedMap

def TopicEvent.brings (peer : PeerId) (connection : ConnectionId) : TopicEvent → Prop
  | .peerConnected remote id => remote.peerId = peer ∧ id = connection
  | .messageReceived sender _ id => sender = peer ∧ id = connection
  | _ => False

namespace TopicInner
variable {s s' : TopicInner} {env : Env} {p : PeerId} {c : ConnectionId}

def brought (event : TopicEvent) : Rules :=
  ⟨fun peer connection => event.brings peer connection,fun _ => True,fun _ _ => True,fun _ => True⟩

theorem brought_allowed (s : TopicInner) (env : Env) (event : TopicEvent) : Allows (brought event) s env event := by
  cases event with
  | peerConnected peer connection => exact ⟨rfl,rfl⟩
  | tick => exact fun _ _ => trivial
  | messageReceived sender msg connection =>
      obtain ⟨topic,action⟩ := msg
      cases action with
      | join join => exact fun _ _ => ⟨trivial,trivial⟩
      | forwardJoin flood => exact fun _ => ⟨trivial,trivial,fun _ _ _ => trivial⟩
      | neighbour neighbour => exact fun _ _ => ⟨rfl,rfl⟩
      | shuffle shuffle => exact fun _ _ _ _ _ => .inr trivial
      | shuffleReply reply => trivial
      | gossip bytes => exact fun _ => trivial
  | _ => trivial

-- A link is an old one or is made over the connection that the event came by.
theorem injectEvent_linked (handled : s.injectEvent env event = .ok s') (linked : s'.Linked p c) :
    s.Linked p c ∨ event.brings p c := by
  let holds (o : Overlay) : Prop :=
    ∀ p c, (∃ addresses, o.active[p]? = some (c,addresses)) → s.Linked p c ∨ event.brings p c
  refine (injectEvent_moves handled (brought_allowed s env event)).invariant holds ?_ (fun _ _ => .inl) p c linked
  intro o o' kept move
  cases move with
  | link brings =>
      intro p c ⟨addresses,found⟩
      rw [get_insert] at found
      split at found
      · rename_i same
        cases found
        exact .inr (same ▸ brings)
      · exact kept p c ⟨addresses,found⟩
  | leave =>
      intro p c ⟨addresses,found⟩
      exact kept p c ⟨addresses,(erase_found found).2⟩
  | demote =>
      intro p c ⟨addresses,found⟩
      exact kept p c ⟨addresses,(erase_found found).2⟩
  | _ => exact kept

theorem moveActiveToPassive_unlinked (moved : s.moveActiveToPassive env p = .ok s') : ¬s'.Linked p c := by
  intro ⟨addresses,found⟩
  unfold moveActiveToPassive at moved
  split at moved
  · rename_i absent
    cases moved
    rw [absent] at found
    cases found
  · have quiet : Quiet (fun _ => True) _ s' := addToPassiveView_quiet moved
    rw [quiet.active] at found
    simp at found

theorem disconnected_unlinked (handled : s.injectEvent env (.peerDisconnected p d) = .ok s') : ¬s'.Linked p c := by
  obtain ⟨moved,first,rest⟩ := bind_ok.mp handled
  cases rest
  intro linked
  exact moveActiveToPassive_unlinked first (show moved.Linked p c from linked)

-- Every message goes over a link or back to where the event came from.
theorem emission_over (emitted : Emission s event (.sendMessage peer conn msg)) :
    msg.topic = s.topicConfig.name ∧ (s.Linked peer conn ∨ event.brings peer conn) := by
  cases emitted with
  | join => exact ⟨rfl,.inr ⟨rfl,rfl⟩⟩
  | neighbour => exact ⟨rfl,.inr ⟨rfl,rfl⟩⟩
  | reply => exact ⟨rfl,.inr ⟨rfl,rfl⟩⟩
  | answer linked => exact ⟨rfl,.inl linked⟩
  | welcome linked => exact ⟨rfl,.inl linked⟩
  | forwardJoin linked => exact ⟨rfl,.inl linked⟩
  | initiate linked => exact ⟨rfl,.inl linked⟩
  | shuffle linked => exact ⟨rfl,.inl linked⟩
  | gossip linked => exact ⟨rfl,.inl linked⟩

theorem gossip_quiet (sent : s.gossip order data = .ok s') (allowed : ∀ peer conn, s.Linked peer conn →
    may (.sendMessage peer conn ⟨s.topicConfig.name,.gossip data⟩)) : Quiet may s s' := by
  unfold gossip at sent
  split at sent
  · cases sent
  · split at sent
    · cases sent
    · cases sent
      refine Quiet.foldl ?_
      intro t peer _ kept
      split
      · rename_i link found
        refine send_quiet ?_
        rw [kept.topicConfig]
        exact allowed peer link.1 (linked_of_active kept.active ⟨link.2,found⟩)
      · exact .refl

theorem new_sends (now : Nat) (topicConfig : TopicConfig) (networkConfig : NetworkConfig) (thisNode : AddressablePeer) :
    (new now topicConfig networkConfig thisNode).activePeers = ∅ ∧
      ∀ command ∈ (new now topicConfig networkConfig thisNode).cmdtx, ∃ addr, command = .connect addr topicConfig.name := by
  let may (command : Command) : Prop := ∃ addr, command = .connect addr topicConfig.name
  let timeout := networkConfig.pendingTimeout
  have quiet : Quiet may ⟨topicConfig,networkConfig,now,thisNode,[],[],∅,∅,.new timeout,.new timeout,.new timeout,
      .new timeout,.new timeout⟩ (new now topicConfig networkConfig thisNode) := by
    refine Quiet.foldl ?_
    intro t addr _ kept
    have named : t.topicConfig = topicConfig := kept.topicConfig
    unfold dialBootstrap
    refine Quiet.trans (t:=t.send (.connect addr t.topicConfig.name)) (send_quiet ⟨addr,by rw [named]⟩) ?_
    dsimp only
    split <;> exact .same rfl rfl rfl rfl
  obtain ⟨sent,written,allowed⟩ := quiet.sends
  refine ⟨quiet.active,?_⟩
  rw [written]
  exact allowed

end TopicInner

structure FedBy.Accounts (before : Inside) (log : List (TopicName × TopicEvent)) (after : Inside) : Prop where
  links : ∀ name topic p c, after.1[name]? = some topic → topic.Linked p c →
    (∃ earlier, before.1[name]? = some earlier ∧ earlier.Linked p c ∧ ∀ d, (name,.peerDisconnected p d) ∉ log) ∨
      ∃ event, (name,event) ∈ log ∧ event.brings p c
  sends : ∃ sent, after.2 = before.2 ++ sent ∧ ∀ p c msg, .sendMessage p c msg ∈ sent →
    (∃ earlier, before.1[msg.topic]? = some earlier ∧ earlier.Linked p c) ∨
      ∃ event, (msg.topic,event) ∈ log ∧ event.brings p c

theorem FedBy.Accounts.insert {name : TopicName} {next : TopicInner} (accounts : FedBy.Accounts before log fed)
    (here : ∀ entry ∈ more, entry.1 = name)
    (links : ∀ p c, next.Linked p c →
      (∃ topic, fed.1[name]? = some topic ∧ topic.Linked p c ∧ ∀ d, (name,.peerDisconnected p d) ∉ more) ∨
        ∃ event, (name,event) ∈ more ∧ event.brings p c)
    (sends : ∀ p c msg, .sendMessage p c msg ∈ next.cmdtx → msg.topic = name ∧
      ((∃ topic, fed.1[name]? = some topic ∧ topic.Linked p c) ∨ ∃ event, (name,event) ∈ more ∧ event.brings p c)) :
    FedBy.Accounts before (log ++ more) (fed.1.insert name {next with cmdtx := []},fed.2 ++ next.cmdtx) := by
  have later : ∀ {name event}, (name,event) ∈ log → (name,event) ∈ log ++ more :=
    fun member => List.mem_append.mpr (.inl member)
  constructor
  · intro other topic p c found linked
    dsimp only at found
    rw [get_insert] at found
    split at found
    · rename_i same
      cases found
      subst same
      rcases links p c linked with ⟨middle,stood,linked,undone⟩ | ⟨event,member,brings⟩
      · rcases accounts.links name middle p c stood linked with ⟨earlier,found,linked,unclosed⟩ | ⟨event,member,brings⟩
        · refine .inl ⟨earlier,found,linked,fun d member => ?_⟩
          exact (List.mem_append.mp member).elim (unclosed d) (undone d)
        · exact .inr ⟨event,later member,brings⟩
      · exact .inr ⟨event,List.mem_append.mpr (.inr member),brings⟩
    · rename_i apart
      rcases accounts.links other topic p c found linked with ⟨earlier,found,linked,unclosed⟩ | ⟨event,member,brings⟩
      · refine .inl ⟨earlier,found,linked,fun d member => ?_⟩
        rcases List.mem_append.mp member with member | member
        · exact unclosed d member
        · exact apart (here _ member).symm
      · exact .inr ⟨event,later member,brings⟩
  · obtain ⟨sent,written,conn⟩ := accounts.sends
    refine ⟨sent ++ next.cmdtx,by rw [written,List.append_assoc],?_⟩
    intro p c msg member
    rcases List.mem_append.mp member with member | member
    · exact (conn p c msg member).imp_right fun ⟨cause,member,brings⟩ => ⟨cause,later member,brings⟩
    · obtain ⟨rfl,⟨topic,stood,linked⟩ | ⟨event,member,brings⟩⟩ := sends p c msg member
      · rcases accounts.links _ topic p c stood linked with ⟨earlier,found,linked,_⟩ | ⟨event,member,brings⟩
        · exact .inl ⟨earlier,found,linked⟩
        · exact .inr ⟨event,later member,brings⟩
      · exact .inr ⟨event,List.mem_append.mpr (.inr member),brings⟩

theorem FedBy.accounts (fed : FedBy home turn before log after) (filed : Named before.1) : FedBy.Accounts before log after := by
  induction fed with
  | refl =>
      refine ⟨fun name topic p c found linked => .inl ⟨topic,found,linked,fun d => by simp⟩,[],by simp,?_⟩
      intro p c msg member
      cases member
  | @event log fed name topic event next earlier found handled ih =>
      obtain ⟨named,drained⟩ := earlier.named filed name topic found
      have emits := TopicInner.injectEvent_emits handled
      obtain ⟨sent,written,allowed⟩ := emits.sends
      rw [drained,List.nil_append] at written
      refine ih.insert (by simp) ?_ ?_
      · intro p c linked
        rcases TopicInner.injectEvent_linked handled linked with before | brings
        · refine .inl ⟨topic,found,before,fun d member => ?_⟩
          cases List.mem_singleton.mp member
          exact TopicInner.disconnected_unlinked handled linked
        · exact .inr ⟨event,by simp,brings⟩
      · intro p c msg member
        rw [written] at member
        obtain ⟨same,conn⟩ := TopicInner.emission_over (allowed _ member)
        refine ⟨same.trans named,conn.imp (fun linked => ⟨topic,found,linked⟩) fun brings => ⟨event,by simp,brings⟩⟩
  | @join log fed config addresses topic earlier absent built ih =>
      obtain ⟨unlinked,connects⟩ := TopicInner.new_sends turn.now config home.1 ⟨home.2,addresses⟩
      rw [built] at unlinked connects
      rw [← List.append_nil log]
      refine ih.insert (by simp) ?_ ?_
      · intro p c ⟨addresses,linked⟩
        rw [unlinked] at linked
        simp at linked
      · intro p c msg member
        obtain ⟨addr,same⟩ := connects _ member
        cases same
  | @gossip log fed name topic next data earlier found sent ih =>
      obtain ⟨named,drained⟩ := earlier.named filed name topic found
      have quiet : Quiet (fun command => ∀ p c msg, command = .sendMessage p c msg →
          msg.topic = topic.topicConfig.name ∧ topic.Linked p c) topic next := by
        refine TopicInner.gossip_quiet sent ?_
        intro peer conn linked p c msg same
        cases same
        exact ⟨rfl,linked⟩
      obtain ⟨sent,written,allowed⟩ := quiet.sends
      rw [drained,List.nil_append] at written
      rw [← List.append_nil log]
      refine ih.insert (by simp) ?_ ?_
      · intro p c linked
        exact .inl ⟨topic,found,TopicInner.linked_of_active quiet.active linked,by simp⟩
      · intro p c msg member
        rw [written] at member
        obtain ⟨same,linked⟩ := allowed _ member p c msg rfl
        exact ⟨same.trans named,.inl ⟨topic,found,linked⟩⟩

namespace Network
variable {n n' : Network} {turn : Turn} {hash : Message → Multihash} {p : PeerId} {c : ConnectionId}

-- By the time that a topic hears from a connection the connection is bound to it.
theorem perform_bound (neat : n.muxer.Neat) (performed : n.perform hash turn deed = .ok n')
    (member : (name,event) ∈ n.injections hash turn deed) (brings : event.brings p c) :
    n'.muxer.resolveTopic p c = some name := by
  cases injections_injected member with
  | tick => exact brings.elim
  | address => exact brings.elim
  | closed _ => exact brings.elim
  | dialed matched =>
      obtain ⟨topic,chosen,_,bound,_⟩ := completeConnect_ok performed
      cases chosen.symm.trans matched
      obtain ⟨rfl,rfl⟩ := brings
      rw [Muxer.resolve_same bound,Muxer.resolve_bind,if_pos ⟨rfl,rfl⟩]
  | @announced message sender connection peer joined fresh chosen =>
      obtain ⟨rfl,rfl⟩ := brings
      rw [acceptMessage_assigned joined fresh performed]
      cases waiting : n.muxer.waits sender connection with
      | false =>
          rw [Muxer.assign_settled waiting] at chosen
          cases chosen
      | true =>
          obtain ⟨entry,found,same,resolve,_⟩ := Muxer.assign_waiting waiting message.topic
          rw [same] at chosen
          cases chosen
          rw [resolve,if_pos ⟨(neat.queued _ _ found).2.symm,rfl⟩]
  | delivered joined fresh bound =>
      obtain ⟨rfl,rfl⟩ := brings
      rw [acceptMessage_assigned joined fresh performed]
      exact bound

theorem event_some {deed : Deed} (about : deed.event = some event) : deed = .command (.injectEvent event) := by
  cases deed with
  | command command =>
      cases command with
      | injectEvent given =>
          cases about
          rfl
      | _ => cases about
  | _ => cases about

theorem completeDisconnect_silent (filed : Named n.topics) (disconnected : n.completeDisconnect turn peer connection = .ok n') :
    n'.commands = n.commands := by
  obtain ⟨told,rfl,⟨_,rfl⟩ | ⟨name,topic,_,found,injected⟩⟩ := completeDisconnect_cases disconnected
  · rfl
  · unfold injectTopic at injected
    obtain ⟨next,handled,injected⟩ := bind_ok.mp injected
    cases injected
    have emits : Emits (fun _ => False) topic next := TopicInner.handlePeerDisconnected_emits (mapError_ok.mp handled)
    obtain ⟨sent,written,allowed⟩ := emits.sends
    rw [(filed _ topic found).2,List.nil_append] at written
    change n.commands ++ next.cmdtx = n.commands
    rw [written,List.eq_nil_iff_forall_not_mem.mpr allowed,List.append_nil]

def Live (n : Network) : Prop :=
  ∀ name topic p c, n.topics[name]? = some topic → topic.Linked p c → n.muxer.resolveTopic p c = some name

theorem live_step (live : n.Live) (filed : Named n.topics) (booked : n.muxer.Booked past)
    (admitted : ∀ event ∈ deed.event, admits past event = true) (performed : n.perform hash turn deed = .ok n') :
    n'.Live ∧ ∃ sent, n'.commands = n.commands ++ sent ∧
      ∀ p c msg, .sendMessage p c msg ∈ sent → n'.muxer.resolveTopic p c = some msg.topic := by
  obtain ⟨fed,follows,_⟩ := perform_ok performed
  have accounts := fed.accounts filed
  have bound : ∀ {name event p c}, (name,event) ∈ n.injections hash turn deed → event.brings p c →
      n'.muxer.resolveTopic p c = some name := fun member brings => perform_bound booked.neat performed member brings
  constructor
  · intro name topic p c found linked
    rcases accounts.links name topic p c found linked with ⟨earlier,stood,linked,unclosed⟩ | ⟨event,member,brings⟩
    · have resolved := live name earlier p c stood linked
      refine booked.keeps admitted follows resolved ?_
      intro closed
      refine unclosed c ?_
      rw [event_some closed]
      unfold injections
      dsimp only
      rw [resolved]
      exact List.mem_singleton.mpr rfl
    · exact bound member brings
  · obtain ⟨sent,written,conn⟩ := accounts.sends
    refine ⟨sent,written,?_⟩
    intro p c msg member
    rcases conn p c msg member with ⟨earlier,stood,linked⟩ | ⟨event,injected,brings⟩
    · refine booked.keeps admitted follows (live _ earlier p c stood linked) ?_
      intro closed
      rw [event_some closed] at performed
      change n'.commands = n.commands ++ sent at written
      rw [completeDisconnect_silent filed performed] at written
      rw [List.self_eq_append_right.mp written] at member
      cases member
    · exact bound injected brings

end Network

variable {hash : Message → Multihash} {start n : Network}

theorem Performed.live (performed : Performed hash fit start deeds log n) (live : start.Live) (tidy : start.Tidy)
    (fresh : start.muxer.Booked []) (ordered : inOrder (swarmEvents deeds) = true) : n.Live := by
  induction performed with
  | nil => exact live
  | snoc earlier fits did ih =>
      rename_i m _ _ _ queue
      obtain ⟨before,admitted⟩ := swarmEvents_admitted ordered
      exact (Network.live_step (n:={m with commands := queue}) (ih before) (earlier.tidy tidy).1.named
        (earlier.booked fresh before) admitted did).1

-- The links of every topic, and whatever is sent over them, keep to connections
-- that the muxer still has for that topic.
theorem active_links_resolve (config : NetworkConfig) (peerId : PeerId)
    (performed : Performed hash (fun _ _ _ => True) (.new config peerId) deeds log n)
    (ordered : inOrder (swarmEvents deeds) = true) :
    (∀ name topic p c addresses, n.topics[name]? = some topic → topic.activePeers[p]? = some (c,addresses) →
      n.muxer.resolveTopic p c = some name) ∧
    ∀ turn deed queue n', inOrder (swarmEvents (deeds ++ [(turn,deed)])) = true →
      {n with commands := queue}.perform hash turn deed = .ok n' → ∃ sent, n'.commands = queue ++ sent ∧
        ∀ p c msg, .sendMessage p c msg ∈ sent → n'.muxer.resolveTopic p c = some msg.topic := by
  have tidy := Network.new_tidy config peerId
  have fresh : (Network.new config peerId).muxer.Booked [] := Muxer.new_booked _
  have unlinked : (Network.new config peerId).Live := by
    intro name topic p c found
    simp [Network.new] at found
  have live := performed.live unlinked tidy fresh ordered
  constructor
  · intro name topic p c addresses found linked
    exact live name topic p c found ⟨addresses,linked⟩
  · intro turn deed queue n' ordered did
    exact (Network.live_step (n:={n with commands := queue}) live (performed.tidy tidy).1.named
      (performed.booked fresh (swarmEvents_admitted ordered).1) (swarmEvents_admitted ordered).2 did).2

namespace TrackingExample

def linked (n : Network) : Bool :=
  n.topics["topic"]?.any fun topic => topic.activePeers[(TopicExample.peer 1).peerId]?.any fun link => link.1 = 1

def tells (n : Network) : Bool :=
  match {n with commands := []}.perform NetworkExample.hash (.first 0) (.gossip "topic" [7]) with
  | .ok n => .sendMessage (TopicExample.peer 1).peerId 1 NetworkExample.gossip ∈ n.commands
  | .error _ => false

end TrackingExample

theorem visited_link_resolves : ∃ log n topic addresses,
    Performed NetworkExample.hash (fun _ _ _ => True) NetworkExample.start TrackingExample.visit log n ∧
      n.topics["topic"]? = some topic ∧ topic.activePeers[(TopicExample.peer 1).peerId]? = some (1,addresses) ∧
      n.muxer.resolveTopic (TopicExample.peer 1).peerId 1 = some "topic" ∧
      ∃ n', {n with commands := []}.perform NetworkExample.hash (.first 0) (.gossip "topic" [7]) = .ok n' ∧
        .sendMessage (TopicExample.peer 1).peerId 1 NetworkExample.gossip ∈ n'.commands ∧
        n'.muxer.resolveTopic (TopicExample.peer 1).peerId 1 = some "topic" := by
  obtain ⟨n,played,linked⟩ := (Option.any_eq_true _ _).mp
    (show (NetworkExample.start.rehearse NetworkExample.hash (fun _ _ _ => true) TrackingExample.visit).any
      (fun n => TrackingExample.linked n && TrackingExample.tells n) = true by decide)
  obtain ⟨linked,told⟩ := Bool.and_eq_true _ _ ▸ linked
  obtain ⟨log,performed⟩ := Network.rehearse_performed played
  obtain ⟨topic,joined,linked⟩ := (Option.any_eq_true _ _).mp linked
  obtain ⟨⟨conn,addresses⟩,active,same⟩ := (Option.any_eq_true _ _).mp linked
  obtain rfl : conn = 1 := of_decide_eq_true same
  obtain ⟨resolves,sends⟩ := active_links_resolve _ _ performed.free (by decide)
  refine ⟨log,n,topic,addresses,performed.free,joined,active,resolves _ _ _ _ _ joined active,?_⟩
  unfold TrackingExample.tells at told
  split at told
  · rename_i n' did
    obtain ⟨sent,written,bound⟩ := sends _ _ [] n' (by decide) did
    have gossips := of_decide_eq_true told
    exact ⟨n',did,gossips,bound _ _ _ (by rw [written] at gossips; exact gossips)⟩
  · cases told

end AnomaAlpha
