import AnomaAlpha.NetworkRuns

namespace AnomaAlpha
open Fallible OrderedMap

-- What a network does with one item of its channel, whatever that is, at a tick
-- of its timer, or for the application.
inductive Deed where
  | tick
  | command (command : Command)
  | join (config : TopicConfig)
  | gossip (name : TopicName) (data : Bytes)

namespace Network
variable (hash : Message → Multihash)

def perform (n : Network) (turn : Turn) (deed : Deed) : Except NetworkPanic Network :=
  match deed with
  | .tick => n.tick turn
  | .command command => n.handleCommand turn hash command
  | .join config => match n.join turn.now config with
    | .ok n => .ok n
    | .error _ => .ok n
  | .gossip name data => .ok (n.gossip turn name data)

def injections (n : Network) (turn : Turn) (deed : Deed) : List (TopicName × TopicEvent) :=
  match deed with
  | .tick => (turn.topics n.topics.keys).map fun name => (name,.tick)
  | .command (.injectEvent event) => match event with
    | .localAddressDiscovered addr => (turn.topics n.topics.keys).map fun name => (name,.localAddressDiscovered addr)
    | .connectionEstablished peer true connection =>
      match (n.muxer.matchDial turn.now peer.peerId connection peer.addresses).1 with
      | some name => [(name,.peerConnected peer connection)]
      | none => []
    | .connectionEstablished _ false _ => []
    | .connectionClosed peer connection => match n.muxer.resolveTopic peer connection with
      | some name => [(name,.peerDisconnected peer connection)]
      | none => []
    | .messageReceived sender connection msg =>
      if !n.topics.contains msg.topic || (n.remember turn hash msg).1 then []
      else
        let (peer,muxer) := n.muxer.assign sender connection msg.topic
        (peer.map fun peer => (msg.topic,TopicEvent.peerConnected peer connection)).toList ++
          if muxer.resolveTopic sender connection = some msg.topic then
            [(msg.topic,.messageReceived sender msg connection)]
          else []
  | _ => []

end Network

abbrev Inside := HashMap TopicName TopicInner × List Command

def Network.inside (n : Network) : Inside := (n.topics,n.commands)

abbrev Home := NetworkConfig × PeerId

def Network.home (n : Network) : Home := (n.config,n.this.peerId)

-- The topics change by just these events, and as the application joins or sends.
inductive FedBy (home : Home) (turn : Turn) : Inside → List (TopicName × TopicEvent) → Inside → Prop where
  | refl : FedBy home turn fed [] fed
  | event : FedBy home turn start log fed → fed.1[name]? = some topic →
      topic.injectEvent (turn.env name) event = .ok next →
      FedBy home turn start (log ++ [(name,event)]) (fed.1.insert name {next with cmdtx := []},fed.2 ++ next.cmdtx)
  | join : FedBy home turn start log fed → fed.1[config.name]? = none →
      TopicInner.new turn.now config home.1 ⟨home.2,addresses⟩ = topic →
      FedBy home turn start log (fed.1.insert config.name {topic with cmdtx := []},fed.2 ++ topic.cmdtx)
  | gossip : FedBy home turn start log fed → fed.1[name]? = some topic →
      topic.gossip ((turn.dice name).order .links) data = .ok next →
      FedBy home turn start log (fed.1.insert name {next with cmdtx := []},fed.2 ++ next.cmdtx)

theorem FedBy.trans (first : FedBy home turn a log b) (second : FedBy home turn b more c) : FedBy home turn a (log ++ more) c := by
  induction second with
  | refl => simpa using first
  | event _ found handled ih =>
      rw [← List.append_assoc]
      exact .event ih found handled
  | join _ absent built ih => exact .join ih absent built
  | gossip _ found sent ih => exact .gossip ih found sent

theorem joined_some {topics : HashMap TopicName TopicInner} (joined : name ∈ topics) : ∃ topic, topics[name]? = some topic :=
  Option.isSome_iff_exists.mp (Std.ExtTreeMap.mem_iff_isSome_getElem?.mp joined)

theorem FedBy.joined (fed : FedBy home turn before log after) (here : name ∈ before.1) : name ∈ after.1 := by
  induction fed with
  | refl => exact here
  | event _ _ _ ih => exact Std.ExtTreeMap.mem_insert.mpr (.inr ih)
  | join _ _ _ ih => exact Std.ExtTreeMap.mem_insert.mpr (.inr ih)
  | gossip _ _ _ ih => exact Std.ExtTreeMap.mem_insert.mpr (.inr ih)

theorem FedBy.named (fed : FedBy home turn before log after) (filed : Named before.1) : Named after.1 := by
  have forget : Fed turn (fun _ _ => True) before.1 after.1 := by
    clear filed
    induction fed with
    | refl => exact .refl
    | event _ found handled ih => exact .event ih found trivial handled
    | join _ absent built ih =>
        subst built
        exact .join ih absent
    | gossip _ found sent ih => exact .gossip ih found sent
  exact forget.named filed

def Homed (home : Home) (topics : HashMap TopicName TopicInner) : Prop :=
  ∀ (name : TopicName) (topic : TopicInner), topics[name]? = some topic →
    topic.networkConfig = home.1 ∧ topic.thisNode.peerId = home.2

theorem FedBy.homed (fed : FedBy home turn before log after) (homed : Homed home before.1) : Homed home after.1 := by
  induction fed with
  | refl => exact homed
  | event _ found handled ih =>
      obtain ⟨_,config,this⟩ := (TopicInner.injectEvent_moves handled
        (TopicInner.lenient_allowed fun _ _ => trivial)).frame
      obtain ⟨same,own⟩ := ih _ _ found
      exact every_insert ih ⟨config.trans same,this.trans own⟩
  | join _ absent built ih =>
      subst built
      refine every_insert ih ⟨TopicInner.new_networkConfig,?_⟩
      exact congrArg Overlay.this (TopicInner.new_overlay _ _ _ _)
  | gossip _ found sent ih =>
      have kept := TopicInner.gossip_overlay sent
      obtain ⟨same,own⟩ := ih _ _ found
      exact every_insert ih ⟨(congrArg Overlay.networkConfig kept).trans same,(congrArg Overlay.this kept).trans own⟩

-- The order in which the events of connections come: each one is established
-- once, then carries messages, and is then closed once.

def establishes (connection : ConnectionId) : SwarmEvent → Bool
  | .connectionEstablished _ _ id => id == connection
  | _ => false

def opens (peer : PeerId) (connection : ConnectionId) : SwarmEvent → Bool
  | .connectionEstablished remote _ id => remote.peerId == peer && id == connection
  | _ => false

def isOpen (past : List SwarmEvent) (peer : PeerId) (connection : ConnectionId) : Bool :=
  past.any (opens peer connection) && !past.contains (.connectionClosed peer connection)

def admits (past : List SwarmEvent) : SwarmEvent → Bool
  | .connectionEstablished _ _ connection => !past.any (establishes connection)
  | .messageReceived sender connection _ => isOpen past sender connection
  | .connectionClosed peer connection => isOpen past peer connection
  | .localAddressDiscovered _ => true

def inOrderFrom (past : List SwarmEvent) : List SwarmEvent → Bool
  | [] => true
  | event :: events => admits past event && inOrderFrom (past ++ [event]) events

def inOrder (events : List SwarmEvent) : Bool := inOrderFrom [] events

theorem inOrderFrom_append (past events more : List SwarmEvent) :
    inOrderFrom past (events ++ more) = (inOrderFrom past events && inOrderFrom (past ++ events) more) := by
  induction events generalizing past with
  | nil => simp [inOrderFrom]
  | cons event events ih =>
      rw [List.cons_append,inOrderFrom,inOrderFrom,ih,Bool.and_assoc,List.append_assoc]
      rfl

theorem inOrder_snoc (events : List SwarmEvent) (event : SwarmEvent) :
    inOrder (events ++ [event]) = (inOrder events && admits events event) := by
  unfold inOrder
  rw [inOrderFrom_append]
  simp [inOrderFrom]

def Deed.event : Deed → Option SwarmEvent
  | .command (.injectEvent event) => some event
  | _ => none

def swarmEvents (deeds : List (Turn × Deed)) : List SwarmEvent := deeds.filterMap fun entry => entry.2.event

-- The states that a network reaches by deeds that fit, with what was injected on
-- the way. Between two deeds anything may come into its channel.
inductive Performed (hash : Message → Multihash) (fit : Network → Turn → Deed → Prop) (start : Network) :
    List (Turn × Deed) → List (TopicName × TopicEvent) → Network → Prop where
  | nil : Performed hash fit start [] [] start
  | snoc : Performed hash fit start deeds log m → fit m turn deed →
      {m with commands := queue}.perform hash turn deed = .ok n →
      Performed hash fit start (deeds ++ [(turn,deed)]) (log ++ m.injections hash turn deed) n

namespace Muxer
variable {m m' : Muxer}

def Same (after before : Muxer) : Prop := after.assigned = before.assigned ∧ after.unassigned = before.unassigned

theorem nextDial_same (now : Nat) (m : Muxer) (addr : Multiaddr) (topic : TopicName) :
    (m.nextDial now addr topic).2.Same m := by
  unfold nextDial
  split
  · exact ⟨rfl,rfl⟩
  · split
    · exact ⟨rfl,rfl⟩
    · split
      · exact ⟨rfl,rfl⟩
      · split <;> exact ⟨rfl,rfl⟩

theorem matchDial_same {addresses : HashSet Multiaddr}
    (matched : m.matchDial now peer connection addresses = (some topic,m')) : m'.Same (m.bind peer connection topic) := by
  induction addresses generalizing m with
  | nil => cases matched
  | cons addr addresses ih =>
      unfold matchDial at matched
      split at matched
      · exact ih matched
      · dsimp only at matched
        split at matched
        · cases matched
          exact ⟨rfl,rfl⟩
        · have later := ih matched
          exact later

def Follows (before : Muxer) (after : Muxer) : Deed → Prop
  | .command (.injectEvent event) => match event with
    | .connectionEstablished peer true connection => ∃ name, after.Same (before.bind peer.peerId connection name)
    | .connectionEstablished peer false connection => after.Same (before.register peer connection)
    | .connectionClosed peer connection => after.Same (before.disconnect peer connection)
    | .messageReceived sender connection msg =>
        after.Same before ∨ after.Same (before.assign sender connection msg.topic).2
    | .localAddressDiscovered _ => after.Same before
  | _ => after.Same before

end Muxer

namespace Network
variable {n n' m : Network} {turn : Turn} {hash : Message → Multihash} {msg : Message}

theorem dialNext_same (turn : Turn) (n : Network) (addr : Multiaddr) (topic : TopicName) :
    (n.dialNext turn addr topic).2.muxer.Same n.muxer := by
  have same := Muxer.nextDial_same turn.now n.muxer addr topic
  unfold dialNext
  dsimp only
  split <;> exact same

theorem dialAnother_same (turn : Turn) (n : Network) (topic : TopicName) (addresses : HashSet Multiaddr) :
    (n.dialAnother turn topic addresses).muxer.Same n.muxer := by
  induction addresses generalizing n with
  | nil => exact ⟨rfl,rfl⟩
  | cons addr addresses ih =>
      have same := dialNext_same turn n addr topic
      unfold dialAnother
      split
      · rename_i next equal
        rw [equal] at same
        exact same
      · rename_i next equal
        rw [equal] at same
        obtain ⟨assigned,unassigned⟩ := ih next
        exact ⟨assigned.trans same.1,unassigned.trans same.2⟩

theorem injectTopic_ok (found : n.topics[name]? = some topic) (injected : n.injectTopic turn name topic event = .ok n') :
    FedBy n.home turn n.inside [(name,event)] n'.inside ∧ n'.muxer = n.muxer ∧ n'.runloop = n.runloop ∧
      n'.home = n.home := by
  unfold injectTopic at injected
  obtain ⟨next,handled,injected⟩ := bind_ok.mp injected
  cases injected
  exact ⟨.event .refl found (mapError_ok.mp handled),rfl,rfl,rfl⟩

theorem injectAll_ok (injected : n.injectAll turn event = .ok n') :
    FedBy n.home turn n.inside ((turn.topics n.topics.keys).map fun name => (name,event)) n'.inside ∧ n'.muxer = n.muxer ∧
      n'.runloop = n.runloop ∧ n'.home = n.home := by
  have loop : ∀ visit : Network → TopicName → Except NetworkPanic Network,
      (∀ m name topic, m.topics[name]? = some topic → visit m name = m.injectTopic turn name topic event) →
      ∀ (names : List TopicName) (m : Network), (∀ name ∈ names, name ∈ m.topics) → names.foldlM visit m = .ok n' →
      FedBy m.home turn m.inside (names.map fun name => (name,event)) n'.inside ∧ n'.muxer = m.muxer ∧
        n'.runloop = m.runloop ∧ n'.home = m.home := by
    intro visit visits names
    induction names with
    | nil =>
        intro m _ ran
        obtain rfl := foldlM_nil_ok.mp ran
        exact ⟨.refl,rfl,rfl,rfl⟩
    | cons name names ih =>
        intro m joined ran
        obtain ⟨middle,first,rest⟩ := foldlM_cons_ok.mp ran
        obtain ⟨topic,found⟩ := joined_some (joined name (by simp))
        rw [visits m name topic found] at first
        obtain ⟨fed,muxer,runloop,home⟩ := injectTopic_ok found first
        have still : ∀ name ∈ names, name ∈ middle.topics := fun name member => fed.joined (joined name (by simp [member]))
        obtain ⟨later,kept,sent,same⟩ := ih middle still rest
        rw [home] at later
        exact ⟨fed.trans later,kept.trans muxer,sent.trans runloop,same.trans home⟩
  unfold injectAll at injected
  refine loop _ (fun m name topic found => ?_) (turn.topics n.topics.keys) n ?_ injected
  · rw [found]
  · intro name member
    exact Std.ExtTreeMap.mem_keys.mp ((turn.topics_perm _).mem_iff.mp member)

theorem remember_same (turn : Turn) (hash : Message → Multihash) (n : Network) (msg : Message) :
    ∃ history, (n.remember turn hash msg).2 = {n with history := history} := ⟨_,remember_writes turn hash n msg⟩

theorem completeConnect_ok (connected : n.completeConnect turn peer connection true = .ok n') :
    ∃ name, (n.muxer.matchDial turn.now peer.peerId connection peer.addresses).1 = some name ∧
      FedBy n.home turn n.inside [(name,.peerConnected peer connection)] n'.inside ∧
      n'.muxer.Same (n.muxer.bind peer.peerId connection name) ∧ n'.home = n.home := by
  obtain ⟨name,muxer,runloop,dialed,topic,matched,written,found,injected⟩ := completeConnect_cases connected
  have bound := Muxer.matchDial_same matched
  have same := dialAnother_same turn {n with muxer := muxer} name peer.addresses
  rw [written] at same
  obtain ⟨fed,kept,_,home⟩ := injectTopic_ok (n:={n with runloop := runloop, muxer := dialed}) found injected
  refine ⟨name,by rw [matched],fed,?_,home⟩
  rw [kept]
  exact ⟨same.1.trans bound.1,same.2.trans bound.2⟩

theorem completeDisconnect_ok (disconnected : n.completeDisconnect turn peer connection = .ok n') :
    FedBy n.home turn n.inside (match n.muxer.resolveTopic peer connection with
      | some name => [(name,.peerDisconnected peer connection)]
      | none => []) n'.inside ∧ n'.muxer = n.muxer.disconnect peer connection ∧ n'.home = n.home := by
  obtain ⟨told,rfl,⟨unbound,rfl⟩ | ⟨name,topic,bound,found,injected⟩⟩ := completeDisconnect_cases disconnected
  · rw [unbound]
    exact ⟨.refl,rfl,rfl⟩
  · rw [bound]
    obtain ⟨fed,muxer,_,home⟩ := injectTopic_ok found injected
    exact ⟨fed,congrArg (·.disconnect peer connection) muxer,home⟩

theorem announce_ok (joined : msg.topic ∈ n.topics) (announced : n.announce turn msg.topic peer connection = .ok n') :
    FedBy n.home turn n.inside (peer.map fun peer => (msg.topic,TopicEvent.peerConnected peer connection)).toList n'.inside ∧
      n'.muxer = n.muxer ∧ n'.runloop = n.runloop ∧ n'.home = n.home := by
  obtain ⟨topic,found⟩ := joined_some joined
  cases peer with
  | none =>
      cases announced
      exact ⟨.refl,rfl,rfl,rfl⟩
  | some peer =>
      unfold announce at announced
      rw [found] at announced
      exact injectTopic_ok found announced

theorem deliver_ok (joined : msg.topic ∈ n.topics) (delivered : n.deliver turn sender connection msg = .ok n') :
    n'.muxer = n.muxer ∧ n'.home = n.home ∧ ∃ name, n.muxer.resolveTopic sender connection = some name ∧
      (name = msg.topic ∧ FedBy n.home turn n.inside [(msg.topic,.messageReceived sender msg connection)] n'.inside ∧
          n'.runloop = n.runloop ∨
        name ≠ msg.topic ∧ n'.inside = n.inside ∧ n'.runloop = n.runloop ++ [.banPeer sender]) := by
  obtain ⟨name,bound,⟨other,rfl⟩ | ⟨same,⟨absent,_⟩ | ⟨topic,found,injected⟩⟩⟩ := deliver_cases delivered
  · exact ⟨rfl,rfl,name,bound,.inr ⟨other,rfl,rfl⟩⟩
  · obtain ⟨topic,found⟩ := joined_some joined
    rw [found] at absent
    cases absent
  · obtain ⟨fed,muxer,runloop,home⟩ := injectTopic_ok found injected
    exact ⟨muxer,home,name,bound,.inl ⟨same,fed,runloop⟩⟩

-- A message either stops at the network or is routed by its connection.
theorem acceptMessage_ok (accepted : n.acceptMessage turn hash sender connection msg = .ok n') : n'.home = n.home ∧
    ((msg.topic ∉ n.topics ∨ (n.remember turn hash msg).1 = true) ∧ n'.inside = n.inside ∧ n'.muxer = n.muxer ∨
    msg.topic ∈ n.topics ∧ (n.remember turn hash msg).1 = false ∧
      ∃ peer muxer name, n.muxer.assign sender connection msg.topic = (peer,muxer) ∧ n'.muxer = muxer ∧
        muxer.resolveTopic sender connection = some name ∧
        ((name = msg.topic ∧ FedBy n.home turn n.inside
            ((peer.map fun peer => (msg.topic,TopicEvent.peerConnected peer connection)).toList ++
              [(msg.topic,.messageReceived sender msg connection)]) n'.inside) ∨
          name ≠ msg.topic ∧ FedBy n.home turn n.inside
            (peer.map fun peer => (msg.topic,TopicEvent.peerConnected peer connection)).toList n'.inside ∧
            n'.runloop = n.runloop ++ [.banPeer sender])) := by
  obtain ⟨absent,rfl⟩ | ⟨joined,history,_,⟨duplicate,rfl⟩ | ⟨fresh,accepted⟩⟩ := acceptMessage_cases accepted
  · exact ⟨rfl,.inl ⟨.inl absent,rfl,rfl⟩⟩
  · exact ⟨rfl,.inl ⟨.inr duplicate,rfl,rfl⟩⟩
  · unfold routeMessage at accepted
    cases assigned : n.muxer.assign sender connection msg.topic with
    | mk peer muxer =>
        dsimp only at accepted
        rw [assigned] at accepted
        obtain ⟨announced,announce,deliver⟩ := bind_ok.mp accepted
        obtain ⟨first,kept,sent,stays⟩ := announce_ok (n:={n with muxer := muxer, history := history}) joined announce
        obtain ⟨same,home,name,bound,routed⟩ := deliver_ok (first.joined joined) deliver
        rw [kept] at bound
        refine ⟨home.trans stays,.inr ⟨joined,fresh,peer,muxer,name,rfl,same.trans kept,bound,?_⟩⟩
        rcases routed with ⟨equal,fed,_⟩ | ⟨other,topics,banned⟩
        · rw [stays] at fed
          exact .inl ⟨equal,first.trans fed⟩
        · refine .inr ⟨other,topics ▸ first,?_⟩
          rw [banned,sent]

theorem acceptMessage_assigned (joined : msg.topic ∈ n.topics) (fresh : (n.remember turn hash msg).1 = false)
    (accepted : n.acceptMessage turn hash sender connection msg = .ok n') :
    n'.muxer = (n.muxer.assign sender connection msg.topic).2 := by
  rcases (acceptMessage_ok accepted).2 with ⟨absent | duplicate,_,_⟩ | ⟨_,_,_,muxer,_,assigned,kept,_,_⟩
  · exact absurd joined absent
  · cases fresh.symm.trans duplicate
  · rw [assigned,kept]

theorem tick_ok (ticked : n.tick turn = .ok n') :
    FedBy n.home turn n.inside ((turn.topics n.topics.keys).map fun name => (name,.tick)) n'.inside ∧ n'.muxer.Same n.muxer ∧
      n'.home = n.home := by
  obtain ⟨fed,pruned,injected,cleared,ended⟩ := tick_cases ticked
  obtain ⟨topics,muxer,_,home⟩ := injectAll_ok injected
  obtain ⟨_,rfl⟩ | ⟨topic,addr,_,rfl⟩ := ended
  · subst cleared
    exact ⟨topics,by rw [muxer]; exact ⟨rfl,rfl⟩,home⟩
  · obtain ⟨runloop,dialed,written⟩ := dialNext_writes turn pruned addr topic
    have same := dialNext_same turn pruned addr topic
    rw [written] at same ⊢
    subst cleared
    rw [← muxer]
    exact ⟨topics,same,home⟩

inductive Injected (hash : Message → Multihash) (n : Network) (turn : Turn) : Deed → TopicName → TopicEvent → Prop where
  | tick : Injected hash n turn .tick name .tick
  | address :
      Injected hash n turn (.command (.injectEvent (.localAddressDiscovered addr))) name (.localAddressDiscovered addr)
  | dialed : (n.muxer.matchDial turn.now peer.peerId connection peer.addresses).1 = some name →
      Injected hash n turn (.command (.injectEvent (.connectionEstablished peer true connection))) name
        (.peerConnected peer connection)
  | closed : n.muxer.resolveTopic peer connection = some name →
      Injected hash n turn (.command (.injectEvent (.connectionClosed peer connection))) name
        (.peerDisconnected peer connection)
  | announced : message.topic ∈ n.topics → (n.remember turn hash message).1 = false →
      (n.muxer.assign sender connection message.topic).1 = some peer →
      Injected hash n turn (.command (.injectEvent (.messageReceived sender connection message))) message.topic
        (.peerConnected peer connection)
  | delivered : message.topic ∈ n.topics → (n.remember turn hash message).1 = false →
      (n.muxer.assign sender connection message.topic).2.resolveTopic sender connection = some message.topic →
      Injected hash n turn (.command (.injectEvent (.messageReceived sender connection message))) message.topic
        (.messageReceived sender message connection)

theorem injections_injected (member : (name,event) ∈ n.injections hash turn deed) :
    Injected hash n turn deed name event := by
  cases deed with
  | tick =>
      obtain ⟨_,_,same⟩ := List.mem_map.mp member
      cases same
      exact .tick
  | command command =>
      cases command with
      | injectEvent given =>
          unfold injections at member
          cases given with
          | localAddressDiscovered addr =>
              obtain ⟨_,_,same⟩ := List.mem_map.mp member
              cases same
              exact .address
          | connectionEstablished peer dialer connection =>
              cases dialer with
              | false => cases member
              | true =>
                  dsimp only at member
                  split at member
                  · rename_i matched
                    cases List.mem_singleton.mp member
                    exact .dialed matched
                  · cases member
          | connectionClosed peer connection =>
              dsimp only at member
              split at member
              · rename_i bound
                cases List.mem_singleton.mp member
                exact .closed bound
              · cases member
          | messageReceived sender connection msg =>
              dsimp only at member
              split at member
              · cases member
              · rename_i passed
                obtain ⟨joined,fresh⟩ : msg.topic ∈ n.topics ∧ (n.remember turn hash msg).1 = false := by
                  simpa using passed
                rcases List.mem_append.mp member with announced | delivered
                · obtain ⟨peer,chosen,same⟩ := Option.map_eq_some_iff.mp (Option.mem_toList.mp announced)
                  cases same
                  exact .announced joined fresh chosen
                · split at delivered
                  · rename_i bound
                    cases List.mem_singleton.mp delivered
                    exact .delivered joined fresh bound
                  · cases delivered
      | _ => cases member
  | _ => cases member

-- The events that a deed injects account for what happens to the topics, and the
-- bindings follow it.
theorem perform_ok (performed : n.perform hash turn deed = .ok n') :
    FedBy n.home turn n.inside (n.injections hash turn deed) n'.inside ∧ n.muxer.Follows n'.muxer deed ∧ n'.home = n.home := by
  cases deed with
  | tick => exact tick_ok performed
  | join config =>
      unfold perform at performed
      dsimp only at performed
      obtain refused | ⟨absent,joined⟩ := join_cases turn.now n config
      · rw [refused] at performed
        cases performed
        exact ⟨.refl,⟨rfl,rfl⟩,rfl⟩
      · rw [joined] at performed
        cases performed
        refine ⟨?_,⟨rfl,rfl⟩,rfl⟩
        exact .join (.refl : FedBy n.home turn n.inside [] n.inside) absent rfl
  | gossip name data =>
      cases performed
      obtain same | ⟨topic,next,found,sent,put⟩ := gossip_cases turn n name data
      · rw [same]
        exact ⟨.refl,⟨rfl,rfl⟩,rfl⟩
      · rw [put]
        exact ⟨.gossip .refl found sent,⟨rfl,rfl⟩,rfl⟩
  | command command =>
      cases command with
      | connect addr topic =>
          cases performed
          have same := dialNext_same turn {n with muxer := n.muxer.putDial addr topic} addr topic
          obtain ⟨runloop,dialed,written⟩ := dialNext_writes turn {n with muxer := n.muxer.putDial addr topic} addr topic
          unfold beginConnect
          rw [written] at same ⊢
          refine ⟨.refl,?_,rfl⟩
          unfold Muxer.putDial at same
          split at same <;> exact same
      | injectEvent event =>
          cases event with
          | localAddressDiscovered addr =>
              obtain ⟨fed,muxer,_,home⟩ := injectAll_ok performed
              exact ⟨fed,⟨congrArg Muxer.assigned muxer,congrArg Muxer.unassigned muxer⟩,home⟩
          | connectionEstablished peer dialer connection =>
              cases dialer with
              | true =>
                  obtain ⟨name,matched,fed,same,home⟩ := completeConnect_ok performed
                  unfold injections
                  dsimp only
                  rw [matched]
                  exact ⟨fed,⟨name,same⟩,home⟩
              | false =>
                  cases performed
                  exact ⟨.refl,⟨rfl,rfl⟩,rfl⟩
          | connectionClosed peer connection =>
              obtain ⟨fed,muxer,home⟩ := completeDisconnect_ok performed
              exact ⟨fed,⟨congrArg Muxer.assigned muxer,congrArg Muxer.unassigned muxer⟩,home⟩
          | messageReceived sender connection msg =>
              unfold injections
              dsimp only
              obtain ⟨home,⟨stopped,topics,muxer⟩ | ⟨joined,fresh,peer,muxer,name,assigned,kept,bound,routed⟩⟩ :=
                acceptMessage_ok performed
              · rw [if_pos (Bool.or_eq_true _ _ ▸ stopped.imp_left unjoined_iff.mpr),topics]
                exact ⟨.refl,.inl (by rw [muxer]; exact ⟨rfl,rfl⟩),home⟩
              · rw [if_neg (by simp [joined,fresh]),assigned]
                dsimp only
                refine ⟨?_,.inr (by rw [assigned,kept]; exact ⟨rfl,rfl⟩),home⟩
                rcases routed with ⟨rfl,fed⟩ | ⟨other,fed,_⟩
                · rw [if_pos bound]
                  exact fed
                · rw [bound,if_neg (by simpa using other),List.append_nil]
                  exact fed
      | _ =>
          cases performed
          exact ⟨.refl,⟨rfl,rfl⟩,rfl⟩

end Network

variable {hash : Message → Multihash} {fit : Network → Turn → Deed → Prop} {start m n : Network} {turn : Turn}

structure Network.Tidy (n : Network) : Prop where
  named : Named n.topics
  homed : Homed n.home n.topics

theorem Network.Tidy.fed (tidy : m.Tidy) (fed : FedBy m.home turn m.inside log n.inside) (home : n.home = m.home) :
    n.Tidy := by
  refine ⟨fed.named tidy.named,?_⟩
  rw [home]
  exact fed.homed tidy.homed

theorem Network.new_tidy (config : NetworkConfig) (peerId : PeerId) : (new config peerId).Tidy := by
  refine ⟨(new_wired config peerId).named,?_⟩
  intro name topic found
  simp [new] at found

theorem Performed.tidy (performed : Performed hash fit start deeds log n) (tidy : start.Tidy) :
    n.Tidy ∧ n.home = start.home := by
  induction performed with
  | nil => exact ⟨tidy,rfl⟩
  | snoc earlier fits did ih =>
      rename_i m _ _ _ queue
      obtain ⟨fed,_,home⟩ := Network.perform_ok did
      exact ⟨Network.Tidy.fed (m:={m with commands := queue}) ⟨ih.1.named,ih.1.homed⟩ fed home,home.trans ih.2⟩

theorem Performed.loosen (performed : Performed hash fit start deeds log n)
    (looser : ∀ n turn deed, fit n turn deed → loose n turn deed) : Performed hash loose start deeds log n := by
  induction performed with
  | nil => exact .nil
  | snoc _ fits did ih => exact .snoc ih (looser _ _ _ fits) did

theorem Performed.free (performed : Performed hash fit start deeds log n) :
    Performed hash (fun _ _ _ => True) start deeds log n := performed.loosen fun _ _ _ _ => trivial

theorem swarmEvents_snoc (deeds : List (Turn × Deed)) (turn : Turn) (deed : Deed) :
    swarmEvents (deeds ++ [(turn,deed)]) = swarmEvents deeds ++ deed.event.toList := by
  unfold swarmEvents
  rw [List.filterMap_append]
  cases about : deed.event <;> simp [about]

def Network.rehearse (hash : Message → Multihash) (fit : Network → Turn → Deed → Bool) (n : Network) :
    List (Turn × Deed) → Option Network
  | [] => some n
  | (turn,deed) :: deeds =>
    if fit n turn deed then match n.perform hash turn deed with
      | .ok n => n.rehearse hash fit deeds
      | .error _ => none
    else none

theorem Network.rehearse_performed {fit : Network → Turn → Deed → Bool} (played : start.rehearse hash fit deeds = some n) :
    ∃ log, Performed hash (fun n turn deed => fit n turn deed = true) start deeds log n := by
  have continues : ∀ (later : List (Turn × Deed)) earlier log (m : Network),
      Performed hash (fun n turn deed => fit n turn deed = true) start earlier log m →
      m.rehearse hash fit later = some n →
      ∃ log, Performed hash (fun n turn deed => fit n turn deed = true) start (earlier ++ later) log n := by
    intro later
    induction later with
    | nil =>
        intro earlier log m performed played
        cases played
        exact ⟨log,by simpa using performed⟩
    | cons head later ih =>
        intro earlier log m performed played
        obtain ⟨turn,deed⟩ := head
        unfold rehearse at played
        split at played
        · rename_i fits
          split at played
          · rename_i next did
            have did : {m with commands := m.commands}.perform hash turn deed = .ok next := did
            rw [List.append_cons]
            exact ih _ _ next (.snoc performed fits did) played
          · cases played
        · cases played
  exact continues deeds [] [] start .nil played

end AnomaAlpha
