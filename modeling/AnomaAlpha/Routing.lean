import AnomaAlpha.TopicSafety
import AnomaAlpha.Tracking

namespace AnomaAlpha
open Fallible OrderedMap

-- Whatever else goes wrong in a topic, only a message for another topic fails
-- the check of its name, and only a long walk overflows the count of its hops.
def Misrouted (c : NetworkConfig) (panic : TopicPanic) : Prop :=
  panic = .invalidTopic ∨ c.randomWalkLength < 2^16 ∧ panic = .hopOverflow

namespace TopicInner
variable {s : TopicInner} {env : Env} {c : NetworkConfig}

theorem expect_avoids {panic : TopicPanic} (value : Option α) (other : panic ≠ .invalidTopic) (fits : panic ≠ .hopOverflow) :
    Avoids (Misrouted c) (expect value panic) := by
  cases value with
  | none => exact avoids_error fun bad => bad.elim other fun wrapped => fits wrapped.2
  | some a => exact avoids_ok _ a

theorem maxPassiveViewSize_avoids (given : NetworkConfig) : Avoids (Misrouted c) given.maxPassiveViewSize := by
  unfold NetworkConfig.maxPassiveViewSize
  split
  · exact avoids_ok _ _
  · exact avoids_error (by simp [Misrouted])

theorem shuffleSampleSize_avoids (given : NetworkConfig) : Avoids (Misrouted c) given.shuffleSampleSize :=
  avoids_bind (maxPassiveViewSize_avoids given) fun _ _ => avoids_ok _ _

theorem nextHop_avoids {hop : UInt16} (short : hop.toNat < c.randomWalkLength) : Avoids (Misrouted c) (nextHop hop) := by
  unfold nextHop
  split
  · exact avoids_ok _ _
  · rename_i wraps
    refine avoids_error ?_
    intro bad
    rcases bad with foreign | ⟨walk,_⟩
    · cases foreign
    · omega

theorem addToPassiveView_avoids (draw : Draw) (s : TopicInner) (peer : AddressablePeer) :
    Avoids (Misrouted c) (s.addToPassiveView env draw peer) := by
  unfold addToPassiveView
  dsimp only
  split
  · exact avoids_ok _ _
  · refine avoids_bind (maxPassiveViewSize_avoids _) ?_
    intro max _
    split
    · exact avoids_bind (expect_avoids _ nofun nofun) fun _ _ => avoids_ok _ _
    · exact avoids_ok _ _

theorem moveActiveToPassive_avoids (s : TopicInner) (peer : PeerId) :
    Avoids (Misrouted c) (s.moveActiveToPassive env peer) := by
  unfold moveActiveToPassive
  split
  · exact avoids_ok _ _
  · exact addToPassiveView_avoids _ _ _

theorem tryStabilizeActiveView_avoids (s : TopicInner) : Avoids (Misrouted c) (s.tryStabilizeActiveView env) := by
  unfold tryStabilizeActiveView
  split
  · split
    · exact avoids_ok _ _
    · split <;> exact avoids_ok _ _
  · split
    · refine avoids_bind (expect_avoids _ nofun nofun) ?_
      intro peer _
      exact avoids_bind (expect_avoids _ nofun nofun) fun _ _ => avoids_ok _ _
    · exact avoids_ok _ _

theorem initiateShuffle_avoids (s : TopicInner) : Avoids (Misrouted c) (s.initiateShuffle env) := by
  unfold initiateShuffle
  dsimp only
  split
  · exact avoids_ok _ _
  · refine avoids_bind (shuffleSampleSize_avoids _) ?_
    intro size _
    split
    · exact avoids_ok _ _
    · refine avoids_bind (avoids_mapM ?_) fun _ _ => avoids_ok _ _
      intro id _
      exact avoids_bind (expect_avoids _ nofun nofun) fun _ _ => avoids_ok _ _

theorem handleTick_avoids (s : TopicInner) : Avoids (Misrouted c) (s.handleTick env) := by
  have stabilize : ∀ shuffled : TopicInner, Avoids (Misrouted c)
      (if !shuffled.activeViewFull && shuffled.pendingDials.isEmpty && shuffled.pendingNeighbours.isEmpty then
        shuffled.tryStabilizeActiveView env else .ok shuffled) := by
    intro shuffled
    split
    · exact tryStabilizeActiveView_avoids _
    · exact avoids_ok _ _
  unfold handleTick
  dsimp only
  split
  · exact avoids_bind (initiateShuffle_avoids _) fun shuffled _ => stabilize shuffled
  · exact stabilize (s.prune env)

theorem forward_avoids {hop : UInt16} (short : hop.toNat < c.randomWalkLength) (s : TopicInner) (sender : PeerId)
    (action : UInt16 → Action) : Avoids (Misrouted c) (s.forward env sender hop action) := by
  unfold forward
  refine avoids_foldlM ?_ _
  intro s link _
  exact avoids_bind (nextHop_avoids short) fun _ _ => avoids_ok _ _

theorem consumeJoin_avoids (s : TopicInner) (sender : PeerId) (msg : Join) (connection : ConnectionId) :
    Avoids (Misrouted c) (s.consumeJoin env sender msg connection) := by
  unfold consumeJoin
  split
  · exact avoids_ok _ _
  · split
    · exact avoids_ok _ _
    · exact addToPassiveView_avoids _ _ _

theorem makeSpace_avoids (s : TopicInner) : Avoids (Misrouted c) (s.makeSpace env) := by
  unfold makeSpace
  refine avoids_bind (expect_avoids _ nofun nofun) ?_
  intro random _
  refine avoids_bind (expect_avoids _ nofun nofun) ?_
  intro link _
  exact avoids_bind (expect_avoids _ nofun nofun) fun _ _ => addToPassiveView_avoids _ _ _

theorem consumeForwardJoin_avoids (s : TopicInner) (sender : PeerId) (msg : ForwardJoin) :
    Avoids (Misrouted s.networkConfig) (s.consumeForwardJoin env sender msg) := by
  unfold consumeForwardJoin
  split
  · exact avoids_ok _ _
  · split
    · exact avoids_ok _ _
    · split
      · exact avoids_ok _ _
      · refine avoids_bind (addToPassiveView_avoids _ _ _) ?_
        intro learnt added
        obtain ⟨view,rfl⟩ := addToPassiveView_writes added
        split
        · split
          · exact avoids_ok _ _
          · split
            · exact avoids_bind (makeSpace_avoids _) fun _ _ => avoids_ok _ _
            · exact avoids_ok _ _
        · rename_i short
          exact forward_avoids (Nat.not_le.mp short) _ _ _

theorem consumeNeighbor_avoids (s : TopicInner) (sender : PeerId) (msg : Neighbour) (connection : ConnectionId) :
    Avoids (Misrouted c) (s.consumeNeighbor env sender msg connection) := by
  have accept : ∀ free : TopicInner, Avoids (Misrouted c)
      (if !free.activeViewFull then .ok (free.addToActiveView msg.peer connection)
        else .ok (free.disconnect env sender connection)) := by
    intro free
    split <;> exact avoids_ok _ _
  unfold consumeNeighbor
  split
  · exact avoids_ok _ _
  · split
    · exact avoids_ok _ _
    · split
      · refine avoids_bind (expect_avoids _ nofun nofun) ?_
        intro random _
        exact avoids_bind (expect_avoids _ nofun nofun) fun _ _ => accept _
      · exact accept s

theorem collectPeerAddrs_avoids (s : TopicInner) (peers : HashSet AddressablePeer) (id : PeerId) :
    Avoids (Misrouted c) (s.collectPeerAddrs peers id) := by
  unfold collectPeerAddrs
  split
  · exact avoids_ok _ _
  · exact avoids_ok _ _
  · exact avoids_bind (expect_avoids _ nofun nofun) fun _ _ => avoids_ok _ _

theorem consumeShuffle_avoids (s : TopicInner) (sender : PeerId) (msg : Shuffle) :
    Avoids (Misrouted s.networkConfig) (s.consumeShuffle env sender msg) := by
  have collected : ∀ id, Avoids (Misrouted s.networkConfig) (s.collectPeerAddrs msg.peers id) := collectPeerAddrs_avoids s msg.peers
  unfold consumeShuffle
  split
  · exact avoids_ok _ _
  · refine avoids_bind ?_ ?_
    · unfold answerShuffle
      refine avoids_bind (shuffleSampleSize_avoids _) ?_
      intro size _
      refine avoids_bind (avoids_mapM ?_) fun _ _ => avoids_ok _ _
      intro id _
      exact avoids_bind (collected id) fun _ _ => avoids_ok _ _
    · intro reply _
      refine avoids_bind ?_ ?_
      · unfold shuffledView
        refine avoids_bind (shuffleSampleSize_avoids _) ?_
        intro size _
        exact avoids_bind (maxPassiveViewSize_avoids _) fun _ _ => avoids_ok _ _
      · intro ids _
        refine avoids_bind (avoids_mapM ?_) ?_
        · intro id _
          exact avoids_bind (collected id) fun _ _ => avoids_ok _ _
        · intro view _
          dsimp only
          split
          · rename_i short
            refine forward_avoids ?_ _ _ _
            rw [overlay_config (respond_overlay env _ msg.origin reply)] at short
            exact short
          · exact avoids_ok _ _

theorem consumeShuffleReply_avoids (s : TopicInner) (sender : PeerId) (msg : ShuffleReply) (connection : ConnectionId) :
    Avoids (Misrouted c) (s.consumeShuffleReply env sender msg connection) := by
  unfold consumeShuffleReply
  refine avoids_bind (maxPassiveViewSize_avoids _) ?_
  intro max _
  refine avoids_bind (avoids_mapM ?_) ?_
  · intro id _
    split
    · exact avoids_ok _ _
    · exact avoids_bind (expect_avoids _ nofun nofun) fun _ _ => avoids_ok _ _
  · intro view _
    dsimp only
    split <;> exact avoids_ok _ _

theorem injectEvent_avoids (named : onTopic s.topicConfig.name event = true) :
    Avoids (Misrouted s.networkConfig) (s.injectEvent env event) := by
  cases event with
  | localAddressDiscovered addr => exact avoids_ok _ _
  | peerConnected peer connection => exact avoids_ok _ _
  | peerDisconnected peer connection => exact avoids_bind (moveActiveToPassive_avoids _ _) fun _ _ => avoids_ok _ _
  | tick => exact handleTick_avoids _
  | messageReceived sender msg connection =>
      obtain ⟨topic,action⟩ := msg
      unfold injectEvent handleMessageReceived
      dsimp only
      rw [if_neg (not_not.mpr (of_decide_eq_true named))]
      cases action with
      | join join => exact consumeJoin_avoids _ _ _ _
      | forwardJoin flood => exact consumeForwardJoin_avoids _ _ _
      | neighbour neighbour => exact consumeNeighbor_avoids _ _ _ _
      | shuffle shuffle => exact consumeShuffle_avoids _ _ _
      | shuffleReply reply => exact consumeShuffleReply_avoids _ _ _ _
      | gossip bytes => exact avoids_ok _ _

end TopicInner

-- The panics that mean that a message was not routed by its connection, or that
-- its hops were counted past the end.
def Unrouted (c : NetworkConfig) (panic : NetworkPanic) : Prop :=
  panic = .connectionNotMapped ∨ ∃ inner, panic = .topic inner ∧ Misrouted c inner

namespace Network
variable {n n' : Network} {turn : Turn} {hash : Message → Multihash} {msg : Message}

theorem injectTopic_avoids (tidy : n.Tidy) (found : n.topics[name]? = some topic) (named : TopicInner.onTopic name event = true) :
    Avoids (Unrouted n.config) (n.injectTopic turn name topic event) := by
  unfold injectTopic
  refine avoids_bind ?_ fun _ _ => avoids_ok _ _
  have routed : Avoids (Misrouted topic.networkConfig) (topic.injectEvent (turn.env name) event) :=
    TopicInner.injectEvent_avoids ((tidy.named name topic found).1.symm ▸ named)
  rw [show topic.networkConfig = n.config from (tidy.homed name topic found).1] at routed
  intro panic failed unrouted
  cases handled : topic.injectEvent (turn.env name) event with
  | ok next =>
      rw [handled] at failed
      cases failed
  | error inner =>
      rw [handled] at failed
      cases failed
      rcases unrouted with unmapped | ⟨_,same,misrouted⟩
      · cases unmapped
      · cases same
        exact routed _ handled misrouted

theorem injectAll_avoids (tidy : n.Tidy) (named : ∀ name, TopicInner.onTopic name event = true) :
    Avoids (Unrouted n.config) (n.injectAll turn event) := by
  unfold injectAll
  generalize turn.topics n.topics.keys = names
  induction names generalizing n with
  | nil => exact avoids_ok _ _
  | cons name names ih =>
      rw [List.foldlM_cons]
      cases found : n.topics[name]? with
      | none => exact avoids_bind (avoids_ok _ n) fun m same => by cases same; exact ih tidy
      | some topic =>
          refine avoids_bind (injectTopic_avoids tidy found (named name)) ?_
          intro m injected
          obtain ⟨fed,_,_,home⟩ := injectTopic_ok found injected
          have later := ih (tidy.fed fed home)
          rw [show m.config = n.config from congrArg Prod.fst home] at later
          exact later

theorem completeConnect_avoids (tidy : n.Tidy) :
    Avoids (Unrouted n.config) (n.completeConnect turn peer connection dialer) := by
  unfold completeConnect
  split
  · split
    · exact avoids_error (by simp [Unrouted])
    · rename_i name muxer _
      obtain ⟨runloop,dialed,written⟩ := dialAnother_writes turn {n with muxer := muxer} name peer.addresses
      dsimp only
      rw [written]
      split
      · exact avoids_error (by simp [Unrouted])
      · rename_i topic found
        exact injectTopic_avoids (n:={n with runloop := runloop, muxer := dialed}) ⟨tidy.named,tidy.homed⟩ found rfl
  · exact avoids_ok _ _

theorem completeDisconnect_avoids (tidy : n.Tidy) :
    Avoids (Unrouted n.config) (n.completeDisconnect turn peer connection) := by
  unfold completeDisconnect
  split
  · exact avoids_ok _ _
  · split
    · exact avoids_error (by simp [Unrouted])
    · rename_i topic found
      exact avoids_bind (injectTopic_avoids tidy found rfl) fun _ _ => avoids_ok _ _

theorem routeMessage_avoids (tidy : n.Tidy) (joined : msg.topic ∈ n.topics)
    (mapped : (n.muxer.assign sender connection msg.topic).2.assignedTo sender connection = true) :
    Avoids (Unrouted n.config) (n.routeMessage turn sender connection msg) := by
  unfold routeMessage
  cases assigned : n.muxer.assign sender connection msg.topic with
  | mk peer muxer =>
      rw [assigned] at mapped
      refine avoids_bind ?_ ?_
      · unfold announce
        split
        · rename_i found
          exact injectTopic_avoids (n:={n with muxer := muxer}) ⟨tidy.named,tidy.homed⟩ found rfl
        · exact avoids_ok _ _
      · intro m announced
        obtain ⟨fed,kept,_,home⟩ := announce_ok (n:={n with muxer := muxer}) joined announced
        have still : m.Tidy := Tidy.fed (m:={n with muxer := muxer}) ⟨tidy.named,tidy.homed⟩ fed home
        have config : m.config = n.config := congrArg Prod.fst home
        obtain ⟨name,resolved⟩ := Muxer.assignedTo_resolves mapped
        unfold deliver
        rw [kept,resolved]
        dsimp only
        split
        · split
          · rename_i topic found
            rw [← config]
            exact injectTopic_avoids still found (decide_eq_true rfl)
          · exact avoids_ok _ _
        · exact avoids_ok _ _

theorem acceptMessage_avoids (tidy : n.Tidy)
    (mapped : (n.muxer.assign sender connection msg.topic).2.assignedTo sender connection = true) :
    Avoids (Unrouted n.config) (n.acceptMessage turn hash sender connection msg) := by
  unfold acceptMessage
  split
  · exact avoids_ok _ _
  · rename_i joined
    obtain ⟨history,same⟩ := remember_same turn hash n msg
    dsimp only
    rw [same]
    split
    · exact avoids_ok _ _
    · exact routeMessage_avoids (n:={n with history := history}) ⟨tidy.named,tidy.homed⟩ (by simpa using joined) mapped

end Network

theorem Muxer.Booked.maps {m : Muxer} (booked : m.Booked past) (opened : isOpen past p c = true) (topic : TopicName) :
    (m.assign p c topic).2.assignedTo p c = true := by
  cases waiting : m.waits p c with
  | false =>
      rw [assign_settled waiting]
      exact (booked.held p c opened).resolve_right (by simp [waiting])
  | true =>
      obtain ⟨_,_,_,resolve,_⟩ := assign_waiting waiting topic
      unfold assignedTo
      rw [resolve,if_pos ⟨rfl,rfl⟩]
      rfl

theorem Network.perform_avoids {hash : Message → Multihash} {n : Network} (tidy : n.Tidy) (booked : n.muxer.Booked past)
    (admitted : ∀ event ∈ deed.event, admits past event = true) : Avoids (Unrouted n.config) (n.perform hash turn deed) := by
  cases deed with
  | tick =>
      refine avoids_bind (injectAll_avoids tidy fun _ => rfl) ?_
      intro m _
      dsimp only
      split <;> exact avoids_ok _ _
  | join config =>
      unfold perform
      dsimp only
      split <;> exact avoids_ok _ _
  | gossip name data => exact avoids_ok _ _
  | command command =>
      cases command with
      | injectEvent event =>
          cases event with
          | localAddressDiscovered addr =>
              exact injectAll_avoids (n:={n with this := {n.this with addresses := insertAddress n.this.addresses addr}})
                ⟨tidy.named,tidy.homed⟩ fun _ => rfl
          | connectionEstablished peer dialer connection => exact completeConnect_avoids tidy
          | connectionClosed peer connection => exact completeDisconnect_avoids tidy
          | messageReceived sender connection msg =>
              exact acceptMessage_avoids tidy (booked.maps (admitted _ rfl) msg.topic)
      | _ => exact avoids_ok _ _

namespace Network
variable {n n' : Network} {turn : Turn} {hash : Message → Multihash} {msg : Message}

theorem remember_queue (n : Network) (queue : List Command) (msg : Message) :
    (({n with commands := queue} : Network).remember turn hash msg).1 = (n.remember turn hash msg).1 := by
  unfold remember
  cases n.history <;> rfl

theorem injections_queue (n : Network) (queue : List Command) (deed : Deed) :
    ({n with commands := queue} : Network).injections hash turn deed = n.injections hash turn deed := by
  cases deed with
  | command command =>
      cases command with
      | injectEvent event =>
          cases event with
          | messageReceived sender connection msg =>
              unfold injections
              dsimp only
              rw [remember_queue]
          | connectionEstablished peer dialer connection => cases dialer <;> rfl
          | _ => rfl
      | _ => rfl
  | _ => rfl

-- Only a message that comes over a connection is injected as one, after the
-- connection has been announced.
theorem injections_message (injected : (name,.messageReceived sender msg connection) ∈ n.injections hash turn deed) :
    deed = .command (.injectEvent (.messageReceived sender connection msg)) ∧ name = msg.topic ∧
      (msg.topic ∈ n.topics ∧ (n.remember turn hash msg).1 = false) ∧
      (n.muxer.assign sender connection msg.topic).2.resolveTopic sender connection = some msg.topic ∧
      n.injections hash turn deed =
        ((n.muxer.assign sender connection msg.topic).1.map fun peer =>
          (msg.topic,TopicEvent.peerConnected peer connection)).toList ++ [(msg.topic,.messageReceived sender msg connection)] := by
  cases injections_injected injected with
  | delivered joined fresh bound =>
      refine ⟨rfl,rfl,⟨joined,fresh⟩,bound,?_⟩
      unfold injections
      dsimp only
      rw [if_neg (by simp [joined,fresh]),if_pos bound]

theorem perform_binds (neat : n.muxer.Neat) (performed : n.perform hash turn deed = .ok n')
    (resolved : n'.muxer.resolveTopic p c = some topic) : n.muxer.resolveTopic p c = some topic ∨
      ∃ peer, peer.peerId = p ∧ (topic,.peerConnected peer c) ∈ n.injections hash turn deed := by
  have same : n'.muxer.Same n.muxer → n.muxer.resolveTopic p c = some topic := by
    intro same
    rw [← Muxer.resolve_same same]
    exact resolved
  have follows := (perform_ok performed).2.1
  cases deed with
  | command command =>
      cases command with
      | injectEvent event =>
          cases event with
          | localAddressDiscovered addr => exact .inl (same follows)
          | connectionEstablished peer dialer id =>
              cases dialer with
              | false =>
                  rw [Muxer.resolve_same follows,Muxer.resolve_register] at resolved
                  exact .inl resolved
              | true =>
                  obtain ⟨name,matched,_,bound,_⟩ := completeConnect_ok performed
                  rw [Muxer.resolve_same bound,Muxer.resolve_bind] at resolved
                  split at resolved
                  · rename_i this
                    cases resolved
                    refine .inr ⟨peer,this.1,?_⟩
                    unfold injections
                    dsimp only
                    rw [matched,this.2]
                    exact List.mem_singleton.mpr rfl
                  · exact .inl resolved
          | connectionClosed peer id =>
              rw [Muxer.resolve_same follows,Muxer.resolve_disconnect] at resolved
              split at resolved
              · cases resolved
              · exact .inl resolved
          | messageReceived sender id msg =>
              rcases (acceptMessage_ok performed).2 with ⟨_,_,muxer⟩ | ⟨joined,fresh,peer,muxer,_,assigned,kept,_,_⟩
              · exact .inl (same (by rw [muxer]; exact ⟨rfl,rfl⟩))
              · rw [kept] at resolved
                cases waiting : n.muxer.waits sender id with
                | false =>
                    rw [Muxer.assign_settled waiting] at assigned
                    cases assigned
                    exact .inl resolved
                | true =>
                    obtain ⟨entry,found,announced,resolve,_⟩ := Muxer.assign_waiting waiting msg.topic
                    rw [assigned] at announced resolve
                    rw [resolve p c] at resolved
                    split at resolved
                    · rename_i this
                      cases resolved
                      refine .inr ⟨entry.1,(neat.queued _ _ found).2.trans this.1,?_⟩
                      unfold injections
                      dsimp only
                      rw [if_neg (by simp [joined,fresh]),assigned,show peer = _ from announced,this.2]
                      exact List.mem_append.mpr (.inl (by simp))
                    · exact .inl resolved
      | _ => exact .inl (same follows)
  | _ => exact .inl (same follows)

end Network

-- A topic is told of a connection before it is given a message from there.
structure Heralded (log : List (TopicName × TopicEvent)) (m : Muxer) : Prop where
  bound : ∀ p c topic, m.resolveTopic p c = some topic → ∃ peer, peer.peerId = p ∧ (topic,.peerConnected peer c) ∈ log
  messages : ∀ before after name sender msg connection, log = before ++ (name,.messageReceived sender msg connection) :: after →
    msg.topic = name ∧ ∃ peer, peer.peerId = sender ∧ (name,.peerConnected peer connection) ∈ before

theorem Heralded.step {hash : Message → Multihash} {n n' : Network} (heralded : Heralded log n.muxer) (neat : n.muxer.Neat)
    (performed : n.perform hash turn deed = .ok n') : Heralded (log ++ n.injections hash turn deed) n'.muxer := by
  constructor
  · intro p c topic resolved
    rcases Network.perform_binds neat performed resolved with before | ⟨peer,same,announced⟩
    · obtain ⟨peer,same,announced⟩ := heralded.bound p c topic before
      exact ⟨peer,same,List.mem_append.mpr (.inl announced)⟩
    · exact ⟨peer,same,List.mem_append.mpr (.inr announced)⟩
  · intro before after name sender msg connection split
    have which : (∃ rest, log = before ++ (name,.messageReceived sender msg connection) :: rest) ∨
        ∃ front, before = log ++ front ∧
          n.injections hash turn deed = front ++ (name,.messageReceived sender msg connection) :: after := by
      rcases List.append_eq_append_iff.mp split with ⟨front,equal,injected⟩ | ⟨rest,equal,injected⟩
      · exact .inr ⟨front,equal,injected⟩
      · cases rest with
        | nil => exact .inr ⟨[],by simpa using equal.symm,by simpa using injected.symm⟩
        | cons first rest =>
            cases injected
            exact .inl ⟨rest,equal⟩
    rcases which with ⟨rest,earlier⟩ | ⟨front,rfl,injected⟩
    · exact heralded.messages before rest name sender msg connection earlier
    · have member : (name,TopicEvent.messageReceived sender msg connection) ∈ n.injections hash turn deed := by
        rw [injected]
        simp
      obtain ⟨_,rfl,_,bound,whole⟩ := Network.injections_message member
      refine ⟨rfl,?_⟩
      cases waiting : n.muxer.waits sender connection with
      | false =>
          rw [Muxer.assign_settled waiting] at bound
          obtain ⟨peer,same,announced⟩ := heralded.bound _ _ _ bound
          exact ⟨peer,same,List.mem_append.mpr (.inl announced)⟩
      | true =>
          obtain ⟨entry,found,announced,_⟩ := Muxer.assign_waiting waiting msg.topic
          rw [announced,injected] at whole
          refine ⟨entry.1,(neat.queued _ _ found).2,List.mem_append.mpr (.inr ?_)⟩
          cases front with
          | nil => cases whole
          | cons first front =>
              rw [(List.cons.inj whole).1]
              exact List.mem_cons_self

theorem Muxer.Booked.keeps {m m' : Muxer} (booked : m.Booked past)
    (admitted : ∀ event ∈ deed.event, admits past event = true) (follows : m.Follows m' deed)
    (resolved : m.resolveTopic p c = some topic) (unclosed : deed.event ≠ some (.connectionClosed p c)) :
    m'.resolveTopic p c = some topic := by
  have same : m'.Same m → m'.resolveTopic p c = some topic := by
    intro same
    rw [resolve_same same]
    exact resolved
  cases deed with
  | command command =>
      cases command with
      | injectEvent event =>
          cases event with
          | localAddressDiscovered addr => exact same follows
          | connectionEstablished peer dialer id =>
              cases dialer with
              | false =>
                  rw [resolve_same follows,resolve_register]
                  exact resolved
              | true =>
                  obtain ⟨name,bound⟩ := follows
                  rw [resolve_same bound,resolve_bind,if_neg]
                  · exact resolved
                  · intro this
                    rw [← this.2,(booked.fresh (admitted _ rfl) p).1] at resolved
                    cases resolved
          | connectionClosed peer id =>
              rw [resolve_same follows,resolve_disconnect,if_neg]
              · exact resolved
              · intro this
                exact unclosed (by rw [← this.1,← this.2]; rfl)
          | messageReceived sender id msg =>
              rcases follows with unchanged | assigned
              · exact same unchanged
              · rw [resolve_same assigned]
                cases waiting : m.waits sender id with
                | false =>
                    rw [assign_settled waiting]
                    exact resolved
                | true =>
                    obtain ⟨_,_,_,resolve,_⟩ := assign_waiting waiting msg.topic
                    rw [resolve,if_neg]
                    · exact resolved
                    · intro this
                      rw [← this.1,← this.2,booked.apart sender id waiting] at resolved
                      cases resolved
      | _ => exact same follows
  | _ => exact same follows

theorem Network.foreign_banned {hash : Message → Multihash} {n : Network} {msg : Message} (joined : msg.topic ∈ n.topics)
    (fresh : (n.remember turn hash msg).1 = false) (settled : n.muxer.waits sender connection = false)
    (resolved : n.muxer.resolveTopic sender connection = some name) (foreign : name ≠ msg.topic) :
    n.injections hash turn (.command (.injectEvent (.messageReceived sender connection msg))) = [] ∧
      ∃ n', n.perform hash turn (.command (.injectEvent (.messageReceived sender connection msg))) = .ok n' ∧
        n'.inside = n.inside ∧ n'.runloop = n.runloop ++ [.banPeer sender] := by
  constructor
  · unfold injections
    dsimp only
    rw [if_neg (by simp [joined,fresh]),Muxer.assign_settled settled]
    dsimp only
    rw [if_neg (by rw [resolved]; simpa using foreign)]
    rfl
  · obtain ⟨history,same⟩ := remember_same turn hash n msg
    change ∃ n', n.acceptMessage turn hash sender connection msg = .ok n' ∧ _
    rw [acceptMessage_fresh joined fresh,same]
    unfold routeMessage announce deliver
    dsimp only
    rw [Muxer.assign_settled settled]
    simp only [bind,Except.bind]
    rw [resolved]
    dsimp only
    rw [if_neg foreign]
    exact ⟨_,rfl,rfl,rfl⟩

variable {hash : Message → Multihash} {start n n' : Network}

theorem Performed.heralded (performed : Performed hash fit start deeds log n) (fresh : start.muxer.Booked [])
    (unbound : ∀ p c, start.muxer.resolveTopic p c = none) (ordered : inOrder (swarmEvents deeds) = true) :
    Heralded log n.muxer := by
  induction performed with
  | nil =>
      refine ⟨fun p c topic resolved => ?_,fun before after name sender msg connection split => ?_⟩
      · rw [unbound p c] at resolved
        cases resolved
      · cases before <;> cases split
  | snoc earlier fits did ih =>
      rename_i m _ _ _ queue
      have before := (swarmEvents_admitted ordered).1
      rw [← Network.injections_queue m queue]
      exact (ih before).step (n:={m with commands := queue}) (earlier.booked fresh before).neat did

theorem Performed.append (first : Performed hash fit start deeds log n) (second : Performed hash fit n later more n') :
    Performed hash fit start (deeds ++ later) (log ++ more) n' := by
  induction second with
  | nil => simpa using first
  | snoc _ fits did ih =>
      rw [← List.append_assoc,← List.append_assoc]
      exact .snoc ih fits did

theorem Performed.keeps (performed : Performed hash fit start deeds log n) (fresh : start.muxer.Booked [])
    (continued : Performed hash fit n later more n') (ordered : inOrder (swarmEvents (deeds ++ later)) = true)
    (resolved : n.muxer.resolveTopic p c = some topic) (unclosed : .connectionClosed p c ∉ swarmEvents later) :
    n'.muxer.resolveTopic p c = some topic := by
  induction continued with
  | nil => exact resolved
  | snoc earlier _ did ih =>
      rw [← List.append_assoc] at ordered
      obtain ⟨before,admitted⟩ := swarmEvents_admitted ordered
      rw [swarmEvents_snoc,List.mem_append,not_or] at unclosed
      refine ((performed.append earlier).booked fresh before).keeps admitted (Network.perform_ok did).2.1
        (ih before unclosed.1) ?_
      intro closed
      exact unclosed.2 (by rw [closed]; simp)

-- What the routing of messages guarantees at any point of a run.
structure RoutedByConnection (hash : Message → Multihash) (deeds : List (Turn × Deed)) (log : List (TopicName × TopicEvent))
    (n : Network) : Prop where
  mapped : ∀ turn deed queue panic, inOrder (swarmEvents (deeds ++ [(turn,deed)])) = true →
    {n with commands := queue}.perform hash turn deed = .error panic →
      panic ≠ .connectionNotMapped ∧ panic ≠ .topic .invalidTopic
  lasting : ∀ later more n' p c topic, Performed hash (fun _ _ _ => True) n later more n' →
    inOrder (swarmEvents (deeds ++ later)) = true → n.muxer.resolveTopic p c = some topic →
      .connectionClosed p c ∉ swarmEvents later → n'.muxer.resolveTopic p c = some topic
  injected : ∀ turn deed queue n', {n with commands := queue}.perform hash turn deed = .ok n' →
    FedBy n.home turn (n.topics,queue) (n.injections hash turn deed) n'.inside ∧
      ∀ name sender msg connection, (name,.messageReceived sender msg connection) ∈ n.injections hash turn deed →
        msg.topic = name ∧ n'.muxer.resolveTopic sender connection = some name
  heralded : ∀ before after name sender msg connection,
    log = before ++ (name,.messageReceived sender msg connection) :: after →
      ∃ peer, peer.peerId = sender ∧ (name,.peerConnected peer connection) ∈ before
  banned : ∀ turn sender connection msg queue name, msg.topic ∈ n.topics → (n.remember turn hash msg).1 = false →
    n.muxer.resolveTopic sender connection = some name → name ≠ msg.topic →
      n.injections hash turn (.command (.injectEvent (.messageReceived sender connection msg))) = [] ∧
        ∃ n', {n with commands := queue}.perform hash turn
            (.command (.injectEvent (.messageReceived sender connection msg))) = .ok n' ∧
          n'.inside = (n.topics,queue) ∧ n'.runloop = n.runloop ++ [.banPeer sender]

theorem connections_bound_for_life (config : NetworkConfig) (peerId : PeerId)
    (performed : Performed hash (fun _ _ _ => True) (.new config peerId) deeds log n)
    (ordered : inOrder (swarmEvents deeds) = true) : RoutedByConnection hash deeds log n := by
  have fresh : (Network.new config peerId).muxer.Booked [] := Muxer.new_booked _
  have booked := performed.booked fresh ordered
  have tidy := (performed.tidy (Network.new_tidy config peerId)).1
  have heralded := performed.heralded fresh (fun p c => by simp [Network.new,Muxer.new,Muxer.resolveTopic]) ordered
  constructor
  · intro turn deed queue panic ordered failed
    have fine := Network.perform_avoids (n:={n with commands := queue}) ⟨tidy.named,tidy.homed⟩ booked
      (swarmEvents_admitted ordered).2 panic failed
    exact ⟨fun unmapped => fine (.inl unmapped),fun foreign => fine (.inr ⟨_,foreign,.inl rfl⟩)⟩
  · intro later more n' p c topic continued ordered resolved unclosed
    exact performed.keeps fresh continued ordered resolved unclosed
  · intro turn deed queue n' did
    have fed := (Network.perform_ok did).1
    rw [Network.injections_queue] at fed
    refine ⟨fed,?_⟩
    intro name sender msg connection member
    obtain ⟨rfl,rfl,⟨joined,fresh⟩,bound,_⟩ := Network.injections_message member
    refine ⟨rfl,?_⟩
    rcases (Network.acceptMessage_ok did).2 with ⟨stopped,_,_⟩ | ⟨_,_,_,muxer,_,assigned,kept,_⟩
    · rw [Network.remember_queue,fresh] at stopped
      rcases stopped with absent | duplicate
      · exact absurd joined absent
      · cases duplicate
    · rw [kept]
      rw [assigned] at bound
      exact bound
  · intro before after name sender msg connection split
    exact (heralded.messages before after name sender msg connection split).2
  · intro turn sender connection msg queue name joined remembered resolved foreign
    rw [← Network.injections_queue n queue]
    refine Network.foreign_banned (n:={n with commands := queue}) joined ?_ ?_ resolved foreign
    · rw [Network.remember_queue]
      exact remembered
    cases waiting : n.muxer.waits sender connection with
    | false => rfl
    | true =>
        rw [booked.apart sender connection waiting] at resolved
        cases resolved

theorem spoken_connections_routed : ∃ log n,
    Performed NetworkExample.hash (fun _ _ _ => True) NetworkExample.start TrackingExample.speak log n ∧
      RoutedByConnection NetworkExample.hash TrackingExample.speak log n := by
  obtain ⟨n,played⟩ := Option.isSome_iff_exists.mp
    (show (NetworkExample.start.rehearse NetworkExample.hash (fun _ _ _ => true) TrackingExample.speak).isSome = true by
      decide)
  obtain ⟨log,performed⟩ := Network.rehearse_performed played
  have free := performed.free
  exact ⟨log,n,free,connections_bound_for_life _ _ free (by decide)⟩

end AnomaAlpha
