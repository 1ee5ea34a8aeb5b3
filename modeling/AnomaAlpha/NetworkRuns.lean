import AnomaAlpha.Network
import AnomaAlpha.ViewInvariants

namespace AnomaAlpha
open Fallible OrderedMap

-- What a step does to the topics: it feeds them events, joins one, or sends what
-- the application gossips.
inductive Fed (turn : Turn) (may : TopicName → TopicEvent → Prop) :
    HashMap TopicName TopicInner → HashMap TopicName TopicInner → Prop where
  | refl : Fed turn may topics topics
  | event : Fed turn may start topics → topics[name]? = some topic → may name event →
      topic.injectEvent (turn.env name) event = .ok next → Fed turn may start (topics.insert name {next with cmdtx := []})
  | join : Fed turn may start topics → topics[config.name]? = none →
      Fed turn may start (topics.insert config.name {TopicInner.new now config networkConfig thisNode with cmdtx := []})
  | gossip : Fed turn may start topics → topics[name]? = some topic → topic.gossip order data = .ok next →
      Fed turn may start (topics.insert name {next with cmdtx := []})

inductive Recalls (turn : Turn) : Option (ExpiringSet Multihash) → Option (ExpiringSet Multihash) → Prop where
  | same : Recalls turn memory memory
  | insert : Recalls turn memory (memory.map fun history => (history.insert turn.now key).2)
  | prune : Recalls turn memory (memory.map fun history => history.pruneExpired turn.now)

theorem Recalls.lifespan (recalls : Recalls turn before after) :
    after.map (fun history => history.inner.lifespan) = before.map fun history => history.inner.lifespan := by
  cases recalls with
  | same => rfl
  | insert => cases before <;> rfl
  | prune => cases before <;> rfl

-- A topic goes by the name that it is filed under, and has handed over what it
-- wrote.
def Named (topics : HashMap TopicName TopicInner) : Prop :=
  ∀ (name : TopicName) (topic : TopicInner), topics[name]? = some topic → topic.topicConfig.name = name ∧ topic.cmdtx = []

theorem TopicInner.gossip_overlay {topic next : TopicInner} (sent : topic.gossip order data = .ok next) :
    next.overlay = topic.overlay := by
  unfold gossip at sent
  split at sent
  · cases sent
  · split at sent
    · cases sent
    · cases sent
      refine foldl_overlay ?_ _ topic
      intro s peer
      split <;> rfl

namespace Fed

theorem trans (first : Fed turn may a b) (second : Fed turn may b c) : Fed turn may a c := by
  induction second with
  | refl => exact first
  | event _ found allowed handled ih => exact .event ih found allowed handled
  | join _ absent ih => exact .join ih absent
  | gossip _ found sent ih => exact .gossip ih found sent

theorem named (fed : Fed turn may before after) (filed : Named before) : Named after := by
  induction fed with
  | refl => exact filed
  | event _ found _ handled ih =>
      intro name topic present
      rw [get_insert] at present
      split at present
      · rename_i same
        cases present
        exact ⟨by rw [← same,(TopicInner.injectEvent_config handled).1,(ih _ _ found).1],rfl⟩
      · exact ih name topic present
  | join _ absent ih =>
      intro name topic present
      rw [get_insert] at present
      split at present
      · rename_i same
        cases present
        refine ⟨Eq.trans ?_ same,rfl⟩
        exact congrArg TopicConfig.name TopicInner.new_topicConfig
      · exact ih name topic present
  | gossip _ found sent ih =>
      intro name topic present
      rw [get_insert] at present
      split at present
      · rename_i same
        cases present
        have kept := congrArg Overlay.topicConfig (TopicInner.gossip_overlay sent)
        exact ⟨(congrArg TopicConfig.name kept).trans ((ih _ _ found).1.trans same),rfl⟩
      · exact ih name topic present

end Fed

namespace Network
variable {n n' : Network} {turn : Turn} {hash : Message → Multihash} {sender : PeerId} {msg : Message}

theorem dialNext_writes (turn : Turn) (n : Network) (addr : Multiaddr) (topic : TopicName) :
    ∃ runloop muxer, (n.dialNext turn addr topic).2 = {n with runloop := runloop, muxer := muxer} := by
  unfold dialNext
  dsimp only
  split <;> exact ⟨_,_,rfl⟩

theorem dialAnother_writes (turn : Turn) (n : Network) (topic : TopicName) (addresses : HashSet Multiaddr) :
    ∃ runloop muxer, n.dialAnother turn topic addresses = {n with runloop := runloop, muxer := muxer} := by
  induction addresses generalizing n with
  | nil => exact ⟨n.runloop,n.muxer,rfl⟩
  | cons addr addresses ih =>
      obtain ⟨runloop,muxer,dialed⟩ := dialNext_writes turn n addr topic
      unfold dialAnother
      split
      · rename_i next equal
        rw [equal] at dialed
        exact ⟨runloop,muxer,dialed⟩
      · rename_i next equal
        rw [equal] at dialed
        obtain ⟨runloop,muxer,rest⟩ := ih next
        exact ⟨runloop,muxer,by rw [rest,show next = _ from dialed]⟩

theorem injectTopic_fed (may : TopicName → TopicEvent → Prop) (found : n.topics[name]? = some topic)
    (allowed : may name event) (injected : n.injectTopic turn name topic event = .ok n') :
    Fed turn may n.topics n'.topics ∧ n'.history = n.history := by
  unfold injectTopic at injected
  obtain ⟨next,handled,injected⟩ := bind_ok.mp injected
  cases injected
  exact ⟨.event .refl found allowed (mapError_ok.mp handled),rfl⟩

def Only (event : TopicEvent) (_ : TopicName) (given : TopicEvent) : Prop := given = event

theorem injectAll_fed (injected : n.injectAll turn event = .ok n') :
    Fed turn (Only event) n.topics n'.topics ∧ n'.history = n.history := by
  unfold injectAll at injected
  refine foldlM_invariant (fun m => Fed turn (Only event) n.topics m.topics ∧ m.history = n.history) ?_ ⟨.refl,rfl⟩
    injected
  intro before name after _ kept handled
  split at handled
  · cases handled
    exact kept
  · rename_i topic found
    obtain ⟨fed,same⟩ := injectTopic_fed (Only event) found rfl handled
    exact ⟨kept.1.trans fed,same.trans kept.2⟩

-- The topic of a dial hears of its connection once the other addresses of the
-- peer are dealt with.
theorem completeConnect_cases (connected : n.completeConnect turn peer connection true = .ok n') :
    ∃ name muxer runloop dialed topic,
      n.muxer.matchDial turn.now peer.peerId connection peer.addresses = (some name,muxer) ∧
      dialAnother turn {n with muxer := muxer} name peer.addresses = {n with runloop := runloop, muxer := dialed} ∧
      n.topics[name]? = some topic ∧
      injectTopic turn {n with runloop := runloop, muxer := dialed} name topic
        (.peerConnected peer connection) = .ok n' := by
  unfold completeConnect at connected
  rw [if_pos rfl] at connected
  split at connected
  · cases connected
  · rename_i name muxer matched
    obtain ⟨runloop,dialed,written⟩ := dialAnother_writes turn {n with muxer := muxer} name peer.addresses
    dsimp only at connected
    rw [written] at connected
    split at connected
    · cases connected
    · rename_i topic found
      exact ⟨name,muxer,runloop,dialed,topic,matched,written,found,connected⟩

theorem completeDisconnect_cases (disconnected : n.completeDisconnect turn peer connection = .ok n') :
    ∃ told, n' = {told with muxer := told.muxer.disconnect peer connection} ∧
      (n.muxer.resolveTopic peer connection = none ∧ told = n ∨
        ∃ name topic, n.muxer.resolveTopic peer connection = some name ∧ n.topics[name]? = some topic ∧
          n.injectTopic turn name topic (.peerDisconnected peer connection) = .ok told) := by
  unfold completeDisconnect at disconnected
  split at disconnected
  · rename_i unbound
    cases disconnected
    exact ⟨n,rfl,.inl ⟨unbound,rfl⟩⟩
  · rename_i name bound
    split at disconnected
    · cases disconnected
    · rename_i topic found
      obtain ⟨told,injected,disconnected⟩ := bind_ok.mp disconnected
      cases disconnected
      exact ⟨told,rfl,.inr ⟨name,topic,bound,found,injected⟩⟩

theorem completeConnect_fed (connected : n.completeConnect turn peer connection dialer = .ok n') :
    Fed turn (Only (.peerConnected peer connection)) n.topics n'.topics ∧ n'.history = n.history := by
  cases dialer with
  | true =>
      obtain ⟨name,muxer,runloop,dialed,topic,_,_,found,injected⟩ := completeConnect_cases connected
      exact injectTopic_fed (n:={n with runloop := runloop, muxer := dialed}) _ found rfl injected
  | false =>
      cases connected
      exact ⟨.refl,rfl⟩

theorem completeDisconnect_fed (disconnected : n.completeDisconnect turn peer connection = .ok n') :
    Fed turn (Only (.peerDisconnected peer connection)) n.topics n'.topics ∧ n'.history = n.history := by
  obtain ⟨told,rfl,⟨_,rfl⟩ | ⟨name,topic,_,found,injected⟩⟩ := completeDisconnect_cases disconnected
  · exact ⟨.refl,rfl⟩
  · obtain ⟨fed,history⟩ := injectTopic_fed (Only (.peerDisconnected peer connection)) found rfl injected
    exact ⟨fed,history⟩

theorem appendLocalAddress_fed (appended : n.appendLocalAddress turn addr = .ok n') :
    Fed turn (Only (.localAddressDiscovered addr)) n.topics n'.topics ∧ n'.history = n.history := by
  unfold appendLocalAddress at appended
  obtain ⟨fed,history⟩ := injectAll_fed appended
  exact ⟨fed,history⟩

-- A tick feeds every topic, forgets what has expired, and dials what is polled.
theorem tick_cases (ticked : n.tick turn = .ok n') : ∃ fed pruned, n.injectAll turn .tick = .ok fed ∧
    pruned = {fed with
      muxer := fed.muxer.pruneExpired turn.now
      history := fed.history.map fun history => history.pruneExpired turn.now} ∧
    (pruned.muxer.pollDial turn.host turn.request = none ∧ n' = pruned ∨
      ∃ topic addr, pruned.muxer.pollDial turn.host turn.request = some (topic,addr) ∧
        n' = (pruned.dialNext turn addr topic).2) := by
  unfold tick at ticked
  obtain ⟨fed,injected,ticked⟩ := bind_ok.mp ticked
  refine ⟨fed,_,injected,rfl,?_⟩
  dsimp only at ticked
  split at ticked
  · rename_i idle
    cases ticked
    exact .inl ⟨idle,rfl⟩
  · rename_i topic addr polled
    cases ticked
    exact .inr ⟨topic,addr,polled,rfl⟩

theorem tick_fed (ticked : n.tick turn = .ok n') : Fed turn (Only .tick) n.topics n'.topics ∧
    n'.history = n.history.map fun history => history.pruneExpired turn.now := by
  obtain ⟨fed,pruned,injected,rfl,ended⟩ := tick_cases ticked
  obtain ⟨topics,history⟩ := injectAll_fed injected
  rw [← history]
  obtain ⟨_,rfl⟩ | ⟨topic,addr,_,rfl⟩ := ended
  · exact ⟨topics,rfl⟩
  · obtain ⟨runloop,muxer,dialed⟩ := dialNext_writes turn _ addr topic
    rw [dialed]
    exact ⟨topics,rfl⟩

theorem remember_writes (turn : Turn) (hash : Message → Multihash) (n : Network) (msg : Message) :
    (n.remember turn hash msg).2 = {n with
      history := n.history.map fun history => (history.insert turn.now (hash msg)).2} := by
  obtain ⟨config,this,runloop,commands,topics,muxer,history⟩ := n
  cases history <;> rfl

theorem unjoined_iff {topics : HashMap TopicName TopicInner} : (!topics.contains name) = true ↔ name ∉ topics := by
  rw [← Std.ExtTreeMap.contains_iff_mem,Bool.not_eq_true',Bool.not_eq_true]

-- A message for a topic that is not joined closes its connection. Any other one
-- is remembered, and it is routed unless it was remembered before.
theorem acceptMessage_cases (accepted : n.acceptMessage turn hash sender connection msg = .ok n') :
    msg.topic ∉ n.topics ∧ n' = n.sendCommand (.disconnect sender connection) ∨
    msg.topic ∈ n.topics ∧ ∃ history, history = n.history.map (fun history => (history.insert turn.now (hash msg)).2) ∧
      ((n.remember turn hash msg).1 = true ∧ n' = {n with history := history} ∨
        (n.remember turn hash msg).1 = false ∧
          routeMessage turn {n with history := history} sender connection msg = .ok n') := by
  unfold acceptMessage at accepted
  split at accepted
  · rename_i absent
    cases accepted
    exact .inl ⟨unjoined_iff.mp absent,rfl⟩
  · rename_i joined
    refine .inr ⟨by simpa using joined,_,rfl,?_⟩
    dsimp only at accepted
    rw [remember_writes] at accepted
    split at accepted
    · rename_i duplicate
      cases accepted
      exact .inl ⟨duplicate,rfl⟩
    · rename_i fresh
      exact .inr ⟨Bool.not_eq_true _ ▸ fresh,accepted⟩

theorem join_cases (now : Nat) (n : Network) (config : TopicConfig) :
    n.join now config = .error (.topicAlreadyJoined config.name) ∨
    n.topics[config.name]? = none ∧ n.join now config = .ok (n.putTopic config.name (.new now config n.config n.this)) := by
  unfold join
  split
  · exact .inl rfl
  · rename_i absent
    exact .inr ⟨Std.ExtTreeMap.getElem?_eq_none (by simpa using absent),rfl⟩

theorem gossip_cases (turn : Turn) (n : Network) (name : TopicName) (data : Bytes) :
    n.gossip turn name data = n ∨ ∃ topic next, n.topics[name]? = some topic ∧
      topic.gossip ((turn.dice name).order .links) data = .ok next ∧ n.gossip turn name data = n.putTopic name next := by
  unfold gossip
  split
  · exact .inl rfl
  · rename_i topic found
    split
    · rename_i next sent
      exact .inr ⟨topic,next,found,sent,rfl⟩
    · exact .inl rfl

-- What a message may cause: a connection is announced to its topic, and the
-- message is handed over.
def Causes (sender : PeerId) (connection : ConnectionId) (msg : Message) (name : TopicName) (event : TopicEvent) : Prop :=
  name = msg.topic ∧
    (event = .messageReceived sender msg connection ∨ ∃ peer, event = .peerConnected peer connection)

theorem announce_fed (announced : n.announce turn msg.topic peer connection = .ok n') :
    Fed turn (Causes sender connection msg) n.topics n'.topics ∧ n'.history = n.history := by
  unfold announce at announced
  split at announced
  · rename_i found
    exact injectTopic_fed _ found ⟨rfl,.inr ⟨_,rfl⟩⟩ announced
  · cases announced
    exact ⟨.refl,rfl⟩

-- A message goes to the topic of its connection, if it names that topic. Else
-- its sender is banned.
theorem deliver_cases (delivered : n.deliver turn sender connection msg = .ok n') :
    ∃ name, n.muxer.resolveTopic sender connection = some name ∧
      (name ≠ msg.topic ∧ n' = n.banPeer sender ∨ name = msg.topic ∧
        (n.topics[msg.topic]? = none ∧ n' = n ∨ ∃ topic, n.topics[msg.topic]? = some topic ∧
          n.injectTopic turn msg.topic topic (.messageReceived sender msg connection) = .ok n')) := by
  unfold deliver at delivered
  split at delivered
  · cases delivered
  · rename_i name bound
    refine ⟨name,bound,?_⟩
    split at delivered
    · rename_i same
      refine .inr ⟨same,?_⟩
      split at delivered
      · rename_i topic found
        exact .inr ⟨topic,found,delivered⟩
      · rename_i absent
        cases delivered
        exact .inl ⟨absent,rfl⟩
    · rename_i other
      cases delivered
      exact .inl ⟨other,rfl⟩

theorem deliver_fed (delivered : n.deliver turn sender connection msg = .ok n') :
    Fed turn (Causes sender connection msg) n.topics n'.topics ∧ n'.history = n.history := by
  obtain ⟨name,_,⟨_,rfl⟩ | ⟨_,⟨_,rfl⟩ | ⟨topic,found,injected⟩⟩⟩ := deliver_cases delivered
  · exact ⟨.refl,rfl⟩
  · exact ⟨.refl,rfl⟩
  · exact injectTopic_fed _ found ⟨rfl,.inl rfl⟩ injected

theorem routeMessage_fed (routed : n.routeMessage turn sender connection msg = .ok n') :
    Fed turn (Causes sender connection msg) n.topics n'.topics ∧ n'.history = n.history := by
  unfold routeMessage at routed
  obtain ⟨announced,announce,deliver⟩ := bind_ok.mp routed
  obtain ⟨first,kept⟩ := announce_fed announce
  obtain ⟨second,same⟩ := deliver_fed deliver
  exact ⟨first.trans second,same.trans kept⟩

theorem acceptMessage_fed (accepted : n.acceptMessage turn hash sender connection msg = .ok n') :
    Fed turn (Causes sender connection msg) n.topics n'.topics ∧
      (n'.history = n.history ∨ n'.history = n.history.map fun history => (history.insert turn.now (hash msg)).2) := by
  obtain ⟨_,rfl⟩ | ⟨_,history,rfl,⟨_,rfl⟩ | ⟨_,routed⟩⟩ := acceptMessage_cases accepted
  · exact ⟨.refl,.inl rfl⟩
  · exact ⟨.refl,.inr rfl⟩
  · obtain ⟨fed,history⟩ := routeMessage_fed routed
    exact ⟨fed,.inr history⟩

theorem routeMessage_bound (bound : n.muxer.bound sender connection msg.topic) (joined : n.topics[msg.topic]? = some topic) :
    n.routeMessage turn sender connection msg =
      n.injectTopic turn msg.topic topic (.messageReceived sender msg connection) := by
  unfold routeMessage announce deliver
  rw [Muxer.assign_bound bound]
  simp only [bind,Except.bind]
  rw [Muxer.resolve_bound bound]
  simp [joined]

theorem acceptMessage_fresh (joined : msg.topic ∈ n.topics) (fresh : (n.remember turn hash msg).1 = false) :
    n.acceptMessage turn hash sender connection msg = (n.remember turn hash msg).2.routeMessage turn sender connection msg := by
  unfold acceptMessage
  simp [Std.ExtTreeMap.contains_iff_mem.mpr joined,fresh]

def Prompts (n : Network) : Input → TopicName → TopicEvent → Prop
  | .tick => Only .tick
  | .command => match n.commands with
    | .injectEvent (.messageReceived sender connection msg) :: _ => Causes sender connection msg
    | .injectEvent (.localAddressDiscovered addr) :: _ => Only (.localAddressDiscovered addr)
    | .injectEvent (.connectionEstablished peer _ connection) :: _ => Only (.peerConnected peer connection)
    | .injectEvent (.connectionClosed peer connection) :: _ => Only (.peerDisconnected peer connection)
    | _ => fun _ _ => False
  | _ => fun _ _ => False

theorem prompts_message (prompted : n.Prompts input name (.messageReceived sender msg connection)) :
    input = .command ∧ name = msg.topic ∧
      ∃ queue, n.commands = .injectEvent (.messageReceived sender connection msg) :: queue := by
  cases input with
  | command =>
      unfold Prompts at prompted
      cases queued : n.commands with
      | nil =>
          rw [queued] at prompted
          exact prompted.elim
      | cons command queue =>
          rw [queued] at prompted
          cases command with
          | injectEvent event =>
              cases event with
              | messageReceived _ _ _ =>
                  obtain ⟨same,given | ⟨peer,given⟩⟩ := prompted
                  · cases given
                    exact ⟨rfl,same,queue,rfl⟩
                  · cases given
              | _ => cases prompted
          | _ => exact prompted.elim
  | tick => cases prompted
  | _ => exact prompted.elim

theorem step_fed (stepped : n.step hash turn input = .ok n') :
    Fed turn (n.Prompts input) n.topics n'.topics ∧ Recalls turn n.history n'.history := by
  cases input with
  | tick =>
      obtain ⟨fed,history⟩ := tick_fed stepped
      exact ⟨fed,history ▸ .prune⟩
  | event event =>
      cases stepped
      exact ⟨.refl,.same⟩
  | join config =>
      unfold step at stepped
      dsimp only at stepped
      obtain refused | ⟨absent,joined⟩ := join_cases turn.now n config
      · rw [refused] at stepped
        cases stepped
        exact ⟨.refl,.same⟩
      · rw [joined] at stepped
        cases stepped
        exact ⟨.join .refl absent,.same⟩
  | gossip name data =>
      cases stepped
      obtain same | ⟨topic,next,found,sent,put⟩ := gossip_cases turn n name data
      · rw [same]
        exact ⟨.refl,.same⟩
      · rw [put]
        exact ⟨.gossip .refl found sent,.same⟩
  | command =>
      unfold step at stepped
      dsimp only at stepped
      split at stepped
      · cases stepped
        exact ⟨.refl,.same⟩
      · rename_i command commands queued
        unfold Prompts
        rw [queued]
        cases command with
        | connect addr topic =>
            cases stepped
            obtain ⟨runloop,muxer,dialed⟩ := dialNext_writes turn ⟨n.config,n.this,n.runloop,commands,n.topics,
              n.muxer.putDial addr topic,n.history⟩ addr topic
            unfold beginConnect
            rw [dialed]
            exact ⟨.refl,.same⟩
        | injectEvent event =>
            cases event with
            | messageReceived sender connection msg =>
                obtain ⟨fed,history | history⟩ := acceptMessage_fed stepped
                · exact ⟨fed,history ▸ .same⟩
                · exact ⟨fed,history ▸ .insert⟩
            | localAddressDiscovered addr =>
                obtain ⟨fed,history⟩ := appendLocalAddress_fed stepped
                exact ⟨fed,history ▸ .same⟩
            | connectionEstablished peer dialer connection =>
                obtain ⟨fed,history⟩ := completeConnect_fed stepped
                exact ⟨fed,history ▸ .same⟩
            | connectionClosed peer connection =>
                obtain ⟨fed,history⟩ := completeDisconnect_fed stepped
                exact ⟨fed,history ▸ .same⟩
        | _ =>
            cases stepped
            exact ⟨.refl,.same⟩

-- What every network that has been run from its start keeps to.
structure Wired (interval : Option Nat) (n : Network) : Prop where
  named : Named n.topics
  window : n.history.map (fun history => history.inner.lifespan) = interval

theorem run_wired (wired : n.Wired interval) (ran : n.run hash inputs = .ok n') : n'.Wired interval := by
  induction inputs generalizing n with
  | nil =>
      cases ran
      exact wired
  | cons head inputs ih =>
      obtain ⟨next,stepped,rest⟩ := bind_ok.mp ran
      obtain ⟨fed,recalls⟩ := step_fed stepped
      exact ih ⟨fed.named wired.named,recalls.lifespan.trans wired.window⟩ rest

theorem new_wired (config : NetworkConfig) (peerId : PeerId) : (new config peerId).Wired config.dedupeInterval := by
  refine ⟨?_,?_⟩
  · intro name topic found
    simp [new] at found
  · unfold new
    cases config.dedupeInterval <;> rfl

theorem run_ends (hash : Message → Multihash) (n : Network) (inputs : List (Turn × Input)) (final : Network → Bool)
    (ends : (n.run hash inputs).toOption.any final = true) :
    ∃ n', n.run hash inputs = .ok n' ∧ final n' = true := by
  cases ran : n.run hash inputs with
  | error panic =>
      rw [ran] at ends
      cases ends
  | ok n' =>
      rw [ran] at ends
      exact ⟨n',rfl,ends⟩

end Network

end AnomaAlpha
