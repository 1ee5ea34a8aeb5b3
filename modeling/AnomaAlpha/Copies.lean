import AnomaAlpha.Gossip
import AnomaAlpha.Acts

-- What a network does about the copies of one gossip.
namespace AnomaAlpha
open Fallible OrderedMap

variable {name : TopicName} {data : Bytes}

abbrev copyOf (name : TopicName) (data : Bytes) : Message := ⟨name,.gossip data⟩

def Unsent (name : TopicName) (data : Bytes) (sent : List Command) : Prop :=
  ∀ p c, .sendMessage p c (copyOf name data) ∉ sent

def Unissued (name : TopicName) (data : Bytes) (issued : List RunloopCommand) : Prop :=
  ∀ p c, .sendMessage p c (copyOf name data) ∉ issued

theorem Unsent.append (first : Unsent name data sent) (second : Unsent name data more) :
    Unsent name data (sent ++ more) := fun p c member =>
  (List.mem_append.mp member).elim (first p c) (second p c)

theorem Unissued.append (first : Unissued name data issued) (second : Unissued name data more) :
    Unissued name data (issued ++ more) := fun p c member =>
  (List.mem_append.mp member).elim (first p c) (second p c)

theorem FedBy.asks (fed : FedBy home turn before log after) (filed : Named before.1) :
    ∃ sent, after.2 = before.2 ++ sent ∧ ∀ event, .injectEvent event ∉ sent := by
  have grows : ∀ {fed : Inside} {next : TopicInner} {sent : List Command},
      (∃ sent, fed.2 = before.2 ++ sent ∧ ∀ event, .injectEvent event ∉ sent) → next.cmdtx = sent →
      (∀ event, .injectEvent event ∉ sent) →
      ∃ sent, fed.2 ++ next.cmdtx = before.2 ++ sent ∧ ∀ event, .injectEvent event ∉ sent := by
    intro fed next sent earlier written clean
    obtain ⟨past,first,before⟩ := earlier
    refine ⟨past ++ sent,by rw [written,first,List.append_assoc],fun event member => ?_⟩
    exact (List.mem_append.mp member).elim (before event) (clean event)
  induction fed with
  | refl => exact ⟨[],(List.append_nil _).symm,fun _ => nofun⟩
  | @event log fed file topic event next earlier found handled ih =>
      obtain ⟨sent,asked,written,items,_⟩ := TopicInner.injectEvent_asks handled
      rw [(earlier.named filed file topic found).2,List.nil_append] at written
      refine grows ih written fun event member => ?_
      have mapped : Command.item (.injectEvent event) ∈ asked.map Linking.Item.ask := items ▸ List.mem_map_of_mem member
      obtain ⟨_,_,same⟩ := List.mem_map.mp mapped
      cases same
  | @join log fed config addresses topic earlier absent built ih =>
      subst built
      obtain ⟨_,dials⟩ := TopicInner.new_sends turn.now config home.1 ⟨home.2,addresses⟩
      refine grows ih rfl fun event member => ?_
      obtain ⟨addr,same⟩ := dials _ member
      cases same
  | @gossip log fed file topic next data earlier found gossiped ih =>
      have quiet : Quiet (fun command => ∀ event, command ≠ .injectEvent event) topic next :=
        TopicInner.gossip_quiet gossiped fun _ _ _ => nofun
      obtain ⟨sent,written,allowed⟩ := quiet.sends
      rw [(earlier.named filed file topic found).2,List.nil_append] at written
      exact grows ih written fun event member => allowed _ member event rfl

namespace TopicInner
variable {s s' : TopicInner} {env : Env}

theorem injectEvent_unsent (name : TopicName) (other : s.topicConfig.name = name → content event ≠ some data)
    (handled : s.injectEvent env event = .ok s') : ∃ sent, s'.cmdtx = s.cmdtx ++ sent ∧ Unsent name data sent := by
  obtain ⟨sent,written,allowed⟩ := (injectEvent_emits handled).sends
  refine ⟨sent,written,fun p c member => ?_⟩
  have emitted := allowed _ member
  generalize same : copyOf name data = msg at emitted
  cases emitted with
  | gossip linked =>
      cases same
      exact other rfl rfl
  | _ => cases same

theorem addToActiveView_keeps (s : TopicInner) (peer : AddressablePeer) (connection : ConnectionId) (linked : s.Linked p c) :
    (s.addToActiveView peer connection).Linked p c := by
  unfold addToActiveView
  split
  · exact linked
  · rename_i absent
    split
    · exact linked
    · obtain ⟨addresses,held⟩ := linked
      refine ⟨addresses,?_⟩
      change (s.activePeers.insert peer.peerId (connection,peer.addresses))[p]? = _
      rw [get_insert,if_neg]
      · exact held
      · intro same
        subst same
        exact absent (linked_active ⟨addresses,held⟩)

theorem handlePeerConnected_keeps (env : Env) (peer : AddressablePeer) (connection : ConnectionId) (linked : s.Linked p c) :
    (s.handlePeerConnected env peer connection).Linked p c := by
  have routine (t : TopicInner) : Routine (fun _ => True) t.topicConfig.name := ⟨fun _ => trivial,fun _ _ => trivial⟩
  have asked : (s.handleNonPendingConnects env peer connection).Linked p c := by
    have quiet : Quiet (fun _ => True) s (s.handleNonPendingConnects env peer connection) :=
      handleNonPendingConnects_quiet env fun _ => trivial
    exact linked_of_active quiet.active.symm linked
  have answered : ((s.handleNonPendingConnects env peer connection).handlePendingNeighbours env peer connection).Linked p c := by
    unfold handlePendingNeighbours
    dsimp only
    split
    · exact addToActiveView_keeps _ peer connection asked
    · exact asked
  have replied : Quiet (fun _ => True) ((s.handleNonPendingConnects env peer connection).handlePendingNeighbours env peer
      connection) (s.handlePeerConnected env peer connection) :=
    (handlePendingShuffleReplies_quiet env (routine _) fun _ => trivial).trans (forgetDials_quiet _ peer.addresses)
  exact linked_of_active replied.active.symm answered

theorem gossip_cmdtx {order : List PeerId → List PeerId} (sent : s.gossip order data = .ok s') :
    s'.cmdtx = s.cmdtx ++ (order s.activePeers.keys).filterMap fun peer =>
      s.activePeers[peer]?.map fun link => .sendMessage peer link.1 ⟨s.topicConfig.name,.gossip data⟩ := by
  have each : ∀ (deal : TopicInner → PeerId → TopicInner) (ids : List PeerId) (t : TopicInner),
      (∀ t peer, deal t peer = t.activePeers[peer]?.elim t fun link => t.sendMessage peer link.1 (.gossip data)) →
      (ids.foldl deal t).cmdtx = t.cmdtx ++ ids.filterMap fun peer =>
        t.activePeers[peer]?.map fun link => .sendMessage peer link.1 ⟨t.topicConfig.name,.gossip data⟩ := by
    intro deal ids
    induction ids with
    | nil => exact fun t _ => (List.append_nil _).symm
    | cons id ids ih =>
        intro t deals
        rw [List.foldl_cons,ih _ deals,List.filterMap_cons,deals]
        cases t.activePeers[id]? with
        | none => rfl
        | some link => simp [sendMessage,send]
  unfold gossip at sent
  split at sent
  · cases sent
  · split at sent
    · cases sent
    · cases sent
      refine each _ _ s ?_
      intro t peer
      cases t.activePeers[peer]? with
      | none => rfl
      | some link => rfl

theorem gossip_fits {order : List PeerId → List PeerId} (sent : s.gossip order data = .ok s') :
    data.length ≤ s.networkConfig.maxTransmitSize := by
  unfold gossip at sent
  split at sent
  · cases sent
  · rename_i fits
    exact Nat.le_of_not_lt fits

theorem gossip_refused {order : List PeerId → List PeerId} (refused : s.gossip order data = .error error)
    (fits : data.length ≤ s.networkConfig.maxTransmitSize) : ∀ p c, ¬s.Linked p c := by
  unfold gossip at refused
  split at refused
  · rename_i large
    omega
  · split at refused
    · rename_i empty
      rintro p c ⟨addresses,held⟩
      rw [Std.ExtTreeMap.isEmpty_iff.mp empty] at held
      simp at held
    · cases refused

end TopicInner

namespace Network
variable {n n' m : Network} {turn : Turn} {hash : Message → Multihash}

-- The memory has an entry for the key, expired or not.
def Recalls (key : Multihash) (n : Network) : Prop := ∃ history, n.history = some history ∧ key ∈ history.inner.data

structure Mute (hash : Message → Multihash) (name : TopicName) (data : Bytes) (n n' : Network) : Prop where
  sent : ∃ sent, n'.commands = n.commands ++ sent ∧ Unsent name data sent
  issued : ∃ issued, n'.runloop = n.runloop ++ issued ∧ Unissued name data issued
  spares : Spares name data n.topics n'.topics
  recalls : n'.Recalls (hash (copyOf name data)) → n.Recalls (hash (copyOf name data))

theorem Dialing.unissued (dials : Dialing issued) : Unissued name data issued := by
  intro p c member
  obtain ⟨addr,same⟩ := dials _ member
  cases same

namespace Mute

theorem trans (first : Mute hash name data n m) (second : Mute hash name data m n') : Mute hash name data n n' := by
  obtain ⟨sent,written,unsent⟩ := first.sent
  obtain ⟨later,written',unsent'⟩ := second.sent
  obtain ⟨issued,told,unissued⟩ := first.issued
  obtain ⟨more,told',unissued'⟩ := second.issued
  refine ⟨⟨sent ++ later,?_,unsent.append unsent'⟩,⟨issued ++ more,?_,unissued.append unissued'⟩,
    first.spares.trans second.spares,fun known => first.recalls (second.recalls known)⟩
  · rw [written',written,List.append_assoc]
  · rw [told',told,List.append_assoc]

theorem of_issued (issued : List RunloopCommand) (commands : n'.commands = n.commands) (told : n'.runloop = n.runloop ++ issued)
    (unissued : Unissued name data issued) (topics : n'.topics = n.topics) (history : n'.history = n.history) :
    Mute hash name data n n' where
  sent := ⟨[],by rw [commands,List.append_nil],fun _ _ => nofun⟩
  issued := ⟨issued,told,unissued⟩
  spares := topics ▸ .refl
  recalls known := by
    obtain ⟨memory,kept,inside⟩ := known
    exact ⟨memory,history ▸ kept,inside⟩

theorem of_silent (commands : n'.commands = n.commands) (runloop : n'.runloop = n.runloop) (topics : n'.topics = n.topics)
    (history : n'.history = n.history) : Mute hash name data n n' :=
  .of_issued [] commands (by rw [runloop,List.append_nil]) (fun _ _ => nofun) topics history

theorem put {topic next : TopicInner} {file : TopicName} {sent : List Command} (found : n.topics[file]? = some topic)
    (drained : topic.cmdtx = []) (written : next.cmdtx = topic.cmdtx ++ sent) (unsent : Unsent name data sent)
    (grows : file = name → ∃ gained, next.outmsgs = topic.outmsgs ++ gained ∧ data ∉ gained) :
    Mute hash name data n (n.putTopic file next) where
  sent := by
    refine ⟨sent,?_,unsent⟩
    change n.commands ++ next.cmdtx = _
    rw [written,drained,List.nil_append]
  issued := ⟨[],(List.append_nil _).symm,fun _ _ => nofun⟩
  spares := by
    refine .insert found fun same => ?_
    obtain ⟨gained,grown,absent⟩ := grows same
    exact ⟨gained,grown,absent⟩
  recalls := id

end Mute

theorem injectTopic_mute (hash : Message → Multihash) (filed : Named n.topics) (found : n.topics[file]? = some topic)
    (other : file = name → TopicInner.content event ≠ some data) (injected : n.injectTopic turn file topic event = .ok n') :
    Mute hash name data n n' := by
  unfold injectTopic at injected
  obtain ⟨next,handled,injected⟩ := bind_ok.mp injected
  cases injected
  have handled := mapError_ok.mp handled
  obtain ⟨named,drained⟩ := filed file topic found
  obtain ⟨sent,written,unsent⟩ := TopicInner.injectEvent_unsent name (fun same => other (named.symm.trans same)) handled
  refine .put found drained written unsent fun same => ?_
  exact TopicInner.injectEvent_delivers handled (other same)

theorem injectAll_mute (hash : Message → Multihash) (filed : Named n.topics) (other : TopicInner.content event ≠ some data)
    (injected : n.injectAll turn event = .ok n') : Mute hash name data n n' := by
  unfold injectAll at injected
  refine (foldlM_invariant (fun m => Mute hash name data n m ∧ Named m.topics) ?_ ⟨.of_silent rfl rfl rfl rfl,filed⟩
    injected).1
  intro before file after _ kept handled
  obtain ⟨mute,filed⟩ := kept
  split at handled
  · cases handled
    exact ⟨mute,filed⟩
  · rename_i topic found
    refine ⟨mute.trans (injectTopic_mute hash filed found (fun _ => other) handled),?_⟩
    exact (injectTopic_ok found handled).1.named filed

theorem dialNext_mute (hash : Message → Multihash) (turn : Turn) (n : Network) (addr : Multiaddr) (topic : TopicName) :
    Mute hash name data n (n.dialNext turn addr topic).2 := by
  obtain ⟨issued,told,dials⟩ := dialNext_issues turn n addr topic
  obtain ⟨runloop,muxer,written⟩ := dialNext_writes turn n addr topic
  exact .of_issued issued (by rw [written]) told dials.unissued (by rw [written]) (by rw [written])

theorem tick_mute (hash : Message → Multihash) (filed : Named n.topics) (ticked : n.tick turn = .ok n') :
    Mute hash name data n n' := by
  obtain ⟨fed,pruned,injected,rfl,ended⟩ := tick_cases ticked
  have fedMute : Mute hash name data n fed := injectAll_mute hash filed (fun brought => by cases brought) injected
  have prunes : Mute hash name data fed {fed with
      muxer := fed.muxer.pruneExpired turn.now
      history := fed.history.map fun history => history.pruneExpired turn.now} := by
    refine ⟨⟨[],(List.append_nil _).symm,fun _ _ => nofun⟩,⟨[],(List.append_nil _).symm,fun _ _ => nofun⟩,.refl,?_⟩
    intro known
    obtain ⟨memory,kept,inside⟩ := known
    obtain ⟨history,before,rfl⟩ := Option.map_eq_some_iff.mp kept
    exact ⟨history,before,Std.ExtTreeMap.mem_of_mem_filter inside⟩
  rcases ended with ⟨_,rfl⟩ | ⟨topic,addr,_,rfl⟩
  · exact fedMute.trans prunes
  · exact (fedMute.trans prunes).trans (dialNext_mute hash turn _ addr topic)

theorem join_mute (hash : Message → Multihash) (name : TopicName) (data : Bytes) (turn : Turn) (n : Network)
    (config : TopicConfig) (performed : n.perform hash turn (.join config) = .ok n') : Mute hash name data n n' := by
  unfold perform at performed
  dsimp only at performed
  obtain refused | ⟨absent,joined⟩ := join_cases turn.now n config
  · rw [refused] at performed
    cases performed
    exact .of_silent rfl rfl rfl rfl
  · rw [joined] at performed
    cases performed
    obtain ⟨_,dials⟩ := TopicInner.new_sends turn.now config n.config n.this
    refine ⟨⟨_,rfl,fun p c member => ?_⟩,⟨[],(List.append_nil _).symm,fun _ _ => nofun⟩,?_,id⟩
    · obtain ⟨addr,same⟩ := dials _ member
      cases same
    · by_cases same : config.name = name
      · subst same
        exact ⟨[],by simp [putTopic,heard,absent],nofun⟩
      · exact ⟨[],by simp [putTopic,heard,same],nofun⟩

theorem gossip_mute (hash : Message → Multihash) (turn : Turn) (filed : Named n.topics) {file : TopicName} {bytes : Bytes}
    (other : ¬(file = name ∧ bytes = data)) : Mute hash name data n (n.gossip turn file bytes) := by
  obtain same | ⟨topic,next,found,gossiped,put⟩ := gossip_cases turn n file bytes
  · rw [same]
    exact .of_silent rfl rfl rfl rfl
  · rw [put]
    obtain ⟨named,drained⟩ := filed file topic found
    have quiet : Quiet (fun command => ∀ p c, command ≠ .sendMessage p c (copyOf name data)) topic next := by
      refine TopicInner.gossip_quiet gossiped fun peer conn _ p c same => other ?_
      cases same
      exact ⟨named.symm,rfl⟩
    obtain ⟨sent,written,allowed⟩ := quiet.sends
    refine .put found drained written (fun p c member => allowed _ member p c rfl) fun _ => ⟨[],?_,nofun⟩
    rw [List.append_nil]
    exact congrArg Overlay.delivered (TopicInner.gossip_overlay gossiped)

theorem announce_mute (hash : Message → Multihash) (name : TopicName) (data : Bytes) (filed : Named n.topics) {peer : Option AddressablePeer}
    (announced : n.announce turn file peer connection = .ok n') : Mute hash name data n n' := by
  unfold announce at announced
  split at announced
  · rename_i found
    exact injectTopic_mute hash filed found (fun _ brought => by cases brought) announced
  · cases announced
    exact .of_silent rfl rfl rfl rfl

theorem announce_named (filed : Named n.topics) {peer : Option AddressablePeer}
    (announced : n.announce turn file peer connection = .ok n') : Named n'.topics := by
  unfold announce at announced
  split at announced
  · rename_i found
    exact (injectTopic_ok found announced).1.named filed
  · cases announced
    exact filed

theorem ban_mute (hash : Message → Multihash) (name : TopicName) (data : Bytes) (n : Network) (peer : PeerId) :
    Mute hash name data n (n.banPeer peer) :=
  .of_issued [.banPeer peer] rfl rfl (fun _ _ member => by cases List.mem_singleton.mp member) rfl rfl

theorem deliver_mute (hash : Message → Multihash) (filed : Named n.topics) (other : msg ≠ copyOf name data)
    (delivered : n.deliver turn sender connection msg = .ok n') : Mute hash name data n n' := by
  obtain ⟨bound,_,⟨_,rfl⟩ | ⟨_,⟨_,rfl⟩ | ⟨topic,found,injected⟩⟩⟩ := deliver_cases delivered
  · exact ban_mute hash name data n sender
  · exact .of_silent rfl rfl rfl rfl
  · refine injectTopic_mute hash filed found (fun same brought => ?_) injected
    obtain ⟨_,_,_,equal⟩ := TopicInner.content_some brought
    obtain ⟨topicName,action⟩ := msg
    cases equal
    exact other (by rw [← same])

theorem routeMessage_cases (routed : n.routeMessage turn sender connection msg = .ok n') : ∃ peer muxer announced,
    n.muxer.assign sender connection msg.topic = (peer,muxer) ∧
    {n with muxer := muxer}.announce turn msg.topic peer connection = .ok announced ∧
    announced.deliver turn sender connection msg = .ok n' := by
  unfold routeMessage at routed
  cases assigned : n.muxer.assign sender connection msg.topic with
  | mk peer muxer =>
      rw [assigned] at routed
      obtain ⟨announced,announce,deliver⟩ := bind_ok.mp routed
      exact ⟨peer,muxer,announced,rfl,announce,deliver⟩

theorem routeMessage_mute (hash : Message → Multihash) (filed : Named n.topics) (other : msg ≠ copyOf name data)
    (routed : n.routeMessage turn sender connection msg = .ok n') : Mute hash name data n n' := by
  obtain ⟨peer,muxer,announced,_,announce,deliver⟩ := routeMessage_cases routed
  have filed : Named {n with muxer := muxer}.topics := filed
  refine .trans (.trans ?_ (announce_mute hash name data filed announce))
    (deliver_mute hash (announce_named filed announce) other deliver)
  exact .of_silent rfl rfl rfl rfl

theorem acceptMessage_mute (filed : Named n.topics) (other : msg ≠ copyOf name data)
    (apart : hash msg ≠ hash (copyOf name data)) (accepted : n.acceptMessage turn hash sender connection msg = .ok n') :
    Mute hash name data n n' := by
  obtain ⟨_,rfl⟩ | ⟨_,history,rfl,routed⟩ := acceptMessage_cases accepted
  · exact .of_issued [.disconnect sender connection] rfl rfl
      (fun _ _ member => by cases List.mem_singleton.mp member) rfl rfl
  · have recorded : Mute hash name data n
        {n with history := n.history.map fun history => (history.insert turn.now (hash msg)).2} := by
      refine ⟨⟨[],(List.append_nil _).symm,fun _ _ => nofun⟩,⟨[],(List.append_nil _).symm,fun _ _ => nofun⟩,.refl,?_⟩
      intro known
      obtain ⟨memory,kept,inside⟩ := known
      obtain ⟨history,before,rfl⟩ := Option.map_eq_some_iff.mp kept
      refine ⟨history,before,?_⟩
      rcases Std.ExtTreeMap.mem_insert.mp inside with same | inside
      · exact (apart (Std.LawfulEqCmp.eq_of_compare same)).elim
      · exact inside
    rcases routed with ⟨_,rfl⟩ | ⟨_,routed⟩
    · exact recorded
    · exact recorded.trans (routeMessage_mute hash filed other routed)

theorem completeConnect_mute (hash : Message → Multihash) (name : TopicName) (data : Bytes) (filed : Named n.topics)
    (connected : n.completeConnect turn peer connection dialer = .ok n') : Mute hash name data n n' := by
  cases dialer with
  | false =>
      cases connected
      exact .of_silent rfl rfl rfl rfl
  | true =>
      obtain ⟨given,muxer,runloop,dialed,topic,_,written,found,injected⟩ := completeConnect_cases connected
      obtain ⟨issued,told,dials⟩ := dialAnother_issues turn {n with muxer := muxer} given peer.addresses
      rw [written] at told
      refine .trans (m:={n with runloop := runloop, muxer := dialed}) ?_ ?_
      · exact .of_issued issued rfl told dials.unissued rfl rfl
      · exact injectTopic_mute (n:={n with runloop := runloop, muxer := dialed}) hash filed found
          (fun _ brought => by cases brought) injected

theorem completeDisconnect_mute (hash : Message → Multihash) (name : TopicName) (data : Bytes) (filed : Named n.topics)
    (disconnected : n.completeDisconnect turn peer connection = .ok n') : Mute hash name data n n' := by
  obtain ⟨told,rfl,⟨_,rfl⟩ | ⟨given,topic,_,found,injected⟩⟩ := completeDisconnect_cases disconnected
  · exact .of_silent rfl rfl rfl rfl
  · exact (injectTopic_mute hash filed found (fun _ brought => by cases brought) injected).trans (.of_silent rfl rfl rfl rfl)

-- What a deed has to do with the copies: it passes one to the runloop, takes one
-- that has arrived, or is the application's.
def Concerns (name : TopicName) (data : Bytes) : Deed → Prop
  | .gossip file bytes => file = name ∧ bytes = data
  | .command (.sendMessage _ _ msg) => msg = copyOf name data
  | .command (.injectEvent (.messageReceived _ _ msg)) => msg = copyOf name data
  | _ => False

theorem perform_mute (unclashed : ∀ msg, hash msg = hash (copyOf name data) → msg = copyOf name data)
    (filed : Named n.topics) (other : ¬Concerns name data deed) (performed : n.perform hash turn deed = .ok n') :
    Mute hash name data n n' := by
  cases deed with
  | tick => exact tick_mute hash filed performed
  | join config => exact join_mute hash name data turn n config performed
  | gossip file bytes =>
      cases performed
      exact gossip_mute hash turn filed other
  | command command =>
      cases command with
      | connect addr topic =>
          cases performed
          exact .trans (m:={n with muxer := n.muxer.putDial addr topic}) (.of_silent rfl rfl rfl rfl)
            (dialNext_mute hash turn _ addr topic)
      | disconnect peer connection =>
          cases performed
          exact .of_issued [.disconnect peer connection] rfl rfl
            (fun _ _ member => by cases List.mem_singleton.mp member) rfl rfl
      | sendMessage peer connection msg =>
          cases performed
          refine .of_issued [.sendMessage peer connection msg] rfl rfl (fun p c member => other ?_) rfl rfl
          cases List.mem_singleton.mp member
          rfl
      | banPeer peer =>
          cases performed
          exact ban_mute hash name data n peer
      | injectEvent event =>
          cases event with
          | localAddressDiscovered addr =>
              exact .trans (m:={n with this := {n.this with addresses := insertAddress n.this.addresses addr}})
                (.of_silent rfl rfl rfl rfl)
                (injectAll_mute (n:={n with this := {n.this with addresses := insertAddress n.this.addresses addr}}) hash filed
                  (fun brought => by cases brought) performed)
          | connectionEstablished peer dialer connection => exact completeConnect_mute hash name data filed performed
          | connectionClosed peer connection => exact completeDisconnect_mute hash name data filed performed
          | messageReceived sender connection msg =>
              exact acceptMessage_mute filed other (fun same => other (unclashed msg same)) performed

-- What a deed makes of the copies of a gossip.
structure Deals (hash : Message → Multihash) (name : TopicName) (data : Bytes) (n : Network) (deed : Deed) (n' : Network)
    (sent : List Command) (issued : List RunloopCommand) (gained : List Bytes) : Prop where
  commands : n'.commands = n.commands ++ sent
  runloop : n'.runloop = n.runloop ++ issued
  grown : heard n'.topics name = heard n.topics name ++ gained
  once : gained.count data ≤ 1
  sends : ∀ p c, .sendMessage p c (copyOf name data) ∈ sent →
    linkOf n'.inside name p = some c ∧
      (deed = .gossip name data ∧ data.length ≤ n.config.maxTransmitSize ∨ data ∈ gained)
  relays : ∀ p c, .sendMessage p c (copyOf name data) ∈ issued ↔ deed = .command (.sendMessage p c (copyOf name data))
  remembers : n'.Recalls (hash (copyOf name data)) → n.Recalls (hash (copyOf name data)) ∨
    ∃ p c, deed = .command (.injectEvent (.messageReceived p c (copyOf name data)))
  takes : ∀ p c, deed = .command (.injectEvent (.messageReceived p c (copyOf name data))) → linkOf n.inside name p ≠ none →
    n.Recalls (hash (copyOf name data)) ∨ data ∈ gained ∨ .banPeer p ∈ issued
  hears : data ∈ gained → ∃ p c, deed = .command (.injectEvent (.messageReceived p c (copyOf name data))) ∧
    ∀ q d, q ≠ p → linkOf n'.inside name q = some d → .sendMessage q d (copyOf name data) ∈ sent
  publishes : deed = .gossip name data → data.length ≤ n.config.maxTransmitSize →
    ∀ q d, linkOf n'.inside name q = some d → .sendMessage q d (copyOf name data) ∈ sent

theorem mute_deals (other : ¬Concerns name data deed) (mute : Mute hash name data n n') :
    ∃ sent issued gained, Deals hash name data n deed n' sent issued gained := by
  obtain ⟨sent,written,unsent⟩ := mute.sent
  obtain ⟨issued,told,unissued⟩ := mute.issued
  obtain ⟨gained,grown,absent⟩ := mute.spares
  refine ⟨sent,issued,gained,written,told,grown,by rw [List.count_eq_zero.mpr absent]; exact Nat.zero_le 1,
    fun p c member => (unsent p c member).elim,fun p c => ?_,
    fun known => .inl (mute.recalls known),?_,fun member => (absent member).elim,?_⟩
  · refine ⟨fun member => (unissued p c member).elim,fun same => (other ?_).elim⟩
    subst same
    rfl
  · intro p c same
    subst same
    exact (other rfl).elim
  · intro same
    subst same
    exact (other ⟨rfl,rfl⟩).elim

theorem relay_deals (hash : Message → Multihash) (turn : Turn) (n : Network) (p : PeerId) (c : ConnectionId)
    (performed : n.perform hash turn (.command (.sendMessage p c (copyOf name data))) = .ok n') :
    ∃ sent issued gained, Deals hash name data n (.command (.sendMessage p c (copyOf name data))) n' sent issued gained := by
  cases performed
  refine ⟨[],[.sendMessage p c (copyOf name data)],[],(List.append_nil _).symm,rfl,(List.append_nil _).symm,Nat.zero_le 1,
    nofun,?_,.inl,nofun,nofun,nofun⟩
  intro q d
  rw [List.mem_singleton]
  constructor
  · intro same
    cases same
    rfl
  · intro same
    cases same
    rfl

theorem linkOf_put (n : Network) (name : TopicName) (next : TopicInner) (p : PeerId) (c : ConnectionId) :
    linkOf (n.putTopic name next).inside name p = some c ↔ next.Linked p c := by
  rw [linkOf_iff]
  change (∃ given, (n.topics.insert name {next with cmdtx := []})[name]? = some given ∧ given.Linked p c) ↔ _
  rw [get_insert,if_pos rfl]
  simp only [Option.some.injEq,exists_eq_left']
  rfl

theorem heard_put (found : n.topics[name]? = some topic) {next : TopicInner} (grown : next.outmsgs = topic.outmsgs ++ gained) :
    heard (n.putTopic name next).topics name = heard n.topics name ++ gained := by
  change heard (n.topics.insert name {next with cmdtx := []}) name = _
  simp [heard,found,grown]

theorem gossip_deals (hash : Message → Multihash) (turn : Turn) (tidy : n.Tidy) (name : TopicName) (data : Bytes) :
    ∃ sent issued gained, Deals hash name data n (.gossip name data) (n.gossip turn name data) sent issued gained := by
  unfold gossip
  cases found : n.topics[name]? with
  | none =>
      refine ⟨[],[],[],(List.append_nil _).symm,(List.append_nil _).symm,(List.append_nil _).symm,Nat.zero_le 1,nofun,
        fun _ _ => ⟨nofun,nofun⟩,.inl,nofun,nofun,?_⟩
      intro _ _ q d linked
      obtain ⟨topic,there,_⟩ := linkOf_iff.mp linked
      cases found.symm.trans there
  | some topic =>
      obtain ⟨named,drained⟩ := tidy.named name topic found
      dsimp only
      cases gossiped : topic.gossip ((turn.dice name).order .links) data with
      | error refused =>
          refine ⟨[],[],[],(List.append_nil _).symm,(List.append_nil _).symm,(List.append_nil _).symm,Nat.zero_le 1,nofun,
            fun _ _ => ⟨nofun,nofun⟩,.inl,nofun,nofun,?_⟩
          intro _ fits q d linked
          obtain ⟨same,there,linked⟩ := linkOf_iff.mp linked
          cases found.symm.trans there
          refine (TopicInner.gossip_refused gossiped ?_ q d linked).elim
          rw [(tidy.homed name topic found).1]
          exact fits
      | ok next =>
          dsimp only
          have active : next.activePeers = topic.activePeers := congrArg Overlay.active (TopicInner.gossip_overlay gossiped)
          have written := TopicInner.gossip_cmdtx gossiped
          rw [drained,List.nil_append,named] at written
          have linkage : ∀ q d, linkOf (n.putTopic name next).inside name q = some d ↔ topic.Linked q d := fun q d =>
            (linkOf_put n name next q d).trans (TopicInner.linked_iff active)
          refine ⟨next.cmdtx,[],[],rfl,(List.append_nil _).symm,?_,Nat.zero_le 1,?_,fun _ _ => ⟨nofun,nofun⟩,.inl,nofun,nofun,?_⟩
          · refine heard_put found (Eq.trans ?_ (List.append_nil _).symm)
            exact congrArg Overlay.delivered (TopicInner.gossip_overlay gossiped)
          · intro p c member
            rw [written] at member
            obtain ⟨peer,_,sent⟩ := List.mem_filterMap.mp member
            obtain ⟨link,held,same⟩ := Option.map_eq_some_iff.mp sent
            cases same
            refine ⟨(linkage _ _).mpr ⟨link.2,held⟩,.inl ⟨rfl,?_⟩⟩
            have fits := TopicInner.gossip_fits gossiped
            rw [(tidy.homed name topic found).1] at fits
            exact fits
          · intro _ _ q d linked
            obtain ⟨addresses,held⟩ := (linkage q d).mp linked
            rw [written]
            refine List.mem_filterMap.mpr ⟨q,?_,by rw [held]; rfl⟩
            refine ((turn.dice name).order_perm .links _).mem_iff.mpr (Std.ExtTreeMap.mem_keys.mpr ?_)
            exact Std.ExtTreeMap.mem_iff_isSome_getElem?.mpr (by rw [held]; rfl)

theorem duplicate_recalled (duplicate : (n.remember turn hash msg).1 = true) : n.Recalls (hash msg) := by
  unfold remember at duplicate
  split at duplicate
  · cases duplicate
  · rename_i history kept
    refine ⟨history,kept,Std.ExtTreeMap.mem_iff_isSome_getElem?.mpr ?_⟩
    change (history.inner.fresh turn.now history.inner.data[hash msg]?).isSome = true at duplicate
    cases held : history.inner.data[hash msg]? with
    | some entry => rfl
    | none =>
        rw [held] at duplicate
        cases duplicate

theorem announce_keeps {peer : Option AddressablePeer} (linked : linkOf n.inside name p = some c)
    (announced : n.announce turn name peer connection = .ok m) : linkOf m.inside name p = some c := by
  obtain ⟨topic,found,held⟩ := linkOf_iff.mp linked
  change n.topics[name]? = some topic at found
  unfold announce at announced
  cases peer with
  | none =>
      cases announced
      exact linked
  | some peer =>
      rw [found] at announced
      dsimp only at announced
      unfold injectTopic at announced
      obtain ⟨next,handled,announced⟩ := bind_ok.mp announced
      cases announced
      cases mapError_ok.mp handled
      exact (linkOf_put n name _ p c).mpr (TopicInner.handlePeerConnected_keeps (turn.env name) peer connection held)

-- A copy from a linked peer is heard, and goes on over every other link.
theorem consumed_goes_on (filed : Named n.topics) (found : n.topics[name]? = some topic)
    (linked : topic.isActive sender = true)
    (injected : n.injectTopic turn name topic (.messageReceived sender (copyOf name data) connection) = .ok n') :
    ∃ sent, n'.commands = n.commands ++ sent ∧ n'.runloop = n.runloop ∧
      heard n'.topics name = heard n.topics name ++ [data] ∧
      ∀ p c, .sendMessage p c (copyOf name data) ∈ sent ↔ p ≠ sender ∧ linkOf n'.inside name p = some c := by
  obtain ⟨named,drained⟩ := filed name topic found
  unfold injectTopic at injected
  obtain ⟨next,handled,injected⟩ := bind_ok.mp injected
  have handled := mapError_ok.mp handled
  have active := TopicInner.mild_active rfl handled
  unfold TopicInner.injectEvent TopicInner.handleMessageReceived at handled
  dsimp only at handled
  rw [if_neg (not_not.mpr named.symm)] at handled
  cases handled
  cases injected
  obtain ⟨outmsgs,cmdtx⟩ := TopicInner.consumeGossip_active (turn.env name) data connection linked
  rw [drained,List.nil_append,named] at cmdtx
  refine ⟨_,rfl,rfl,heard_put found outmsgs,fun p c => ?_⟩
  rw [linkOf_put,TopicInner.linked_iff active,cmdtx,List.mem_map]
  constructor
  · intro given
    obtain ⟨⟨q,d⟩,member,same⟩ := given
    cases same
    obtain ⟨inside,apart⟩ := List.mem_filter.mp member
    exact ⟨of_decide_eq_true apart,TopicInner.activeLinks_linked inside⟩
  · intro given
    obtain ⟨apart,addresses,held⟩ := given
    refine ⟨(p,c),List.mem_filter.mpr ⟨?_,decide_eq_true apart⟩,rfl⟩
    refine TopicInner.activeLinks_perm.mem_iff.mpr (List.mem_map.mpr ⟨(p,c,addresses),?_,rfl⟩)
    exact Std.ExtTreeMap.mem_toList_iff_getElem?_eq_some.mpr held

theorem dropped_mute (hash : Message → Multihash) (filed : Named n.topics) (found : n.topics[name]? = some topic)
    (unlinked : topic.isActive sender = false)
    (injected : n.injectTopic turn name topic (.messageReceived sender (copyOf name data) connection) = .ok n') :
    Mute hash name data n n' := by
  obtain ⟨named,drained⟩ := filed name topic found
  unfold injectTopic at injected
  obtain ⟨next,handled,injected⟩ := bind_ok.mp injected
  have handled := mapError_ok.mp handled
  unfold TopicInner.injectEvent TopicInner.handleMessageReceived at handled
  dsimp only at handled
  rw [if_neg (not_not.mpr named.symm)] at handled
  cases handled
  cases injected
  have quiet : Quiet (fun command => ∀ p c, command ≠ .sendMessage p c (copyOf name data)) topic
      (topic.consumeGossip (turn.env name) sender data connection) := by
    unfold TopicInner.consumeGossip
    rw [unlinked]
    exact TopicInner.disconnect_quiet ⟨fun _ _ _ => nofun,fun _ _ => nofun⟩ sender
  obtain ⟨sent,written,allowed⟩ := quiet.sends
  refine .put found drained written (fun p c member => allowed _ member p c rfl) fun _ => ⟨[],?_,nofun⟩
  rw [List.append_nil]
  exact TopicInner.consumeGossip_inactive unlinked

theorem unheard_deals (hash : Message → Multihash) {sent : List Command} (issued : List RunloopCommand)
    (written : n'.commands = n.commands ++ sent) (unsent : Unsent name data sent)
    (told : n'.runloop = n.runloop ++ issued) (unissued : Unissued name data issued) (spares : Spares name data n.topics n'.topics)
    (refused : linkOf n.inside name sender ≠ none → n.Recalls (hash (copyOf name data)) ∨ .banPeer sender ∈ issued) :
    ∃ sent issued gained, Deals hash name data n (.command (.injectEvent (.messageReceived sender connection (copyOf name data))))
      n' sent issued gained := by
  obtain ⟨gained,grown,absent⟩ := spares
  refine ⟨sent,issued,gained,written,told,grown,by rw [List.count_eq_zero.mpr absent]; exact Nat.zero_le 1,
    fun p c member => (unsent p c member).elim,fun p c => ⟨fun member => (unissued p c member).elim,nofun⟩,fun _ => .inr ⟨sender,connection,rfl⟩,?_,fun member =>
    (absent member).elim,nofun⟩
  intro p c same linked
  cases same
  exact (refused linked).imp_right .inr

theorem routed_deals (hash : Message → Multihash) {memory : Option (ExpiringSet Multihash)} (filed : Named n.topics)
    (routed : {n with history := memory}.routeMessage turn sender connection (copyOf name data) = .ok n') :
    ∃ sent issued gained, Deals hash name data n (.command (.injectEvent (.messageReceived sender connection (copyOf name data))))
      n' sent issued gained := by
  obtain ⟨peer,muxer,announced,_,announce,deliver⟩ := routeMessage_cases routed
  have filed : Named {n with history := memory, muxer := muxer}.topics := filed
  have mute := announce_mute hash name data filed announce
  have named := announce_named filed announce
  have keeps : ∀ {p c}, linkOf n.inside name p = some c → linkOf announced.inside name p = some c := fun linked =>
    announce_keeps (n:={n with history := memory, muxer := muxer}) linked announce
  obtain ⟨sent,written,unsent⟩ := mute.sent
  obtain ⟨issued,told,unissued⟩ := mute.issued
  obtain ⟨_,_,⟨_,rfl⟩ | ⟨_,⟨absent,rfl⟩ | ⟨topic,found,injected⟩⟩⟩ := deliver_cases deliver
  · refine unheard_deals hash (issued ++ [.banPeer sender]) written unsent ?_ ?_ mute.spares fun _ => .inr (by simp)
    · change announced.runloop ++ [.banPeer sender] = _
      rw [told,List.append_assoc]
    · exact unissued.append fun p c member => by cases List.mem_singleton.mp member
  · refine unheard_deals hash issued written unsent told unissued mute.spares fun linked => ?_
    obtain ⟨c,linked⟩ := Option.ne_none_iff_exists'.mp linked
    obtain ⟨topic,found,_⟩ := linkOf_iff.mp (keeps linked)
    cases absent.symm.trans found
  · cases linked : topic.isActive sender with
    | false =>
        have whole := mute.trans (dropped_mute hash named found linked injected)
        obtain ⟨sent,written,unsent⟩ := whole.sent
        obtain ⟨issued,told,unissued⟩ := whole.issued
        refine unheard_deals hash issued written unsent told unissued whole.spares fun known => ?_
        obtain ⟨c,known⟩ := Option.ne_none_iff_exists'.mp known
        obtain ⟨same,there,held⟩ := linkOf_iff.mp (keeps known)
        cases found.symm.trans there
        rw [TopicInner.linked_active held] at linked
        cases linked
    | true =>
        obtain ⟨more,forwarded,quiet,pushed,goesOn⟩ := consumed_goes_on named found linked injected
        obtain ⟨gained,grown,absent⟩ := mute.spares
        refine ⟨sent ++ more,issued,gained ++ [data],?_,quiet.trans told,?_,by simp [List.count_eq_zero.mpr absent],?_,?_,?_,?_,?_,nofun⟩
        · rw [forwarded,written,List.append_assoc]
        · rw [pushed,grown,List.append_assoc]
        · intro p c member
          rcases List.mem_append.mp member with member | member
          · exact (unsent p c member).elim
          · exact ⟨((goesOn p c).mp member).2,.inr (by simp)⟩
        · exact fun p c => ⟨fun member => (unissued p c member).elim,nofun⟩
        · exact fun _ => .inr ⟨sender,connection,rfl⟩
        · exact fun _ _ _ _ => .inr (.inl (by simp))
        · exact fun _ => ⟨sender,connection,rfl,fun q d apart linked =>
            List.mem_append_right _ ((goesOn q d).mpr ⟨apart,linked⟩)⟩

theorem receive_deals (hash : Message → Multihash) (filed : Named n.topics)
    (accepted : n.acceptMessage turn hash sender connection (copyOf name data) = .ok n') :
    ∃ sent issued gained, Deals hash name data n (.command (.injectEvent (.messageReceived sender connection (copyOf name data))))
      n' sent issued gained := by
  have same : ∀ {l : List Command}, l = l ++ [] := (List.append_nil _).symm
  have still : ∀ {l : List RunloopCommand}, l = l ++ [] := (List.append_nil _).symm
  obtain ⟨absent,rfl⟩ | ⟨joined,history,rfl,⟨duplicate,rfl⟩ | ⟨fresh,routed⟩⟩ := acceptMessage_cases accepted
  · refine unheard_deals hash [.disconnect sender connection] same (fun _ _ => nofun) rfl
      (fun _ _ member => by cases List.mem_singleton.mp member) .refl fun linked => ?_
    obtain ⟨c,linked⟩ := Option.ne_none_iff_exists'.mp linked
    obtain ⟨topic,found,_⟩ := linkOf_iff.mp linked
    exact (absent (Std.ExtTreeMap.mem_iff_isSome_getElem?.mpr (by rw [show n.topics[name]? = _ from found]; rfl))).elim
  · exact unheard_deals hash [] same (fun _ _ => nofun) still (fun _ _ => nofun) .refl fun _ => .inl (duplicate_recalled duplicate)
  · exact routed_deals hash filed routed

theorem perform_deals (unclashed : ∀ msg, hash msg = hash (copyOf name data) → msg = copyOf name data) (tidy : n.Tidy)
    (performed : n.perform hash turn deed = .ok n') : ∃ sent issued gained, Deals hash name data n deed n' sent issued gained := by
  by_cases other : Concerns name data deed
  · cases deed with
    | gossip file bytes =>
        obtain ⟨rfl,rfl⟩ := other
        cases performed
        exact gossip_deals hash turn tidy file bytes
    | command command =>
        cases command with
        | sendMessage p c msg =>
            cases (show msg = copyOf name data from other)
            exact relay_deals hash turn n p c performed
        | injectEvent event => cases event with
          | messageReceived sender connection msg =>
              cases (show msg = copyOf name data from other)
              exact receive_deals hash tidy.named performed
          | _ => exact other.elim
        | _ => exact other.elim
    | _ => exact other.elim
  · exact mute_deals other (perform_mute unclashed tidy.named other performed)

theorem accept_once {interval : Nat} (wired : n.Wired (some interval))
    (accepted : n.acceptMessage turn hash sender connection (copyOf name data) = .ok n') :
    Spares name data n.topics n'.topics ∨ Remembers turn.now interval (hash (copyOf name data)) n'.history := by
  obtain ⟨_,rfl⟩ | ⟨_,history,rfl,⟨_,rfl⟩ | ⟨_,routed⟩⟩ := acceptMessage_cases accepted
  · exact .inl .refl
  · exact .inl .refl
  · obtain ⟨_,same⟩ := routeMessage_fed routed
    obtain ⟨history,kept,lifespan⟩ := Option.map_eq_some_iff.mp wired.window
    refine .inr ⟨(history.insert turn.now (hash (copyOf name data))).2,turn.now,?_,lifespan,?_,Nat.le_refl _⟩
    · rw [same]
      exact congrArg (Option.map _) kept
    · simp [ExpiringSet.insert,ExpiringMap.insert]

theorem step_once {interval : Nat} (wired : n.Wired (some interval)) (stepped : n.step hash turn input = .ok n') :
    Spares name data n.topics n'.topics ∨ Remembers turn.now interval (hash (copyOf name data)) n'.history ∧
      ∃ gained, heard n'.topics name = heard n.topics name ++ gained ∧ gained.count data ≤ 1 := by
  by_cases copy : input = .command ∧ ∃ sender connection queue,
      n.commands = .injectEvent (.messageReceived sender connection (copyOf name data)) :: queue
  · obtain ⟨rfl,sender,connection,queue,queued⟩ := copy
    unfold step at stepped
    dsimp only at stepped
    rw [queued] at stepped
    obtain ⟨_,_,gained,deals⟩ := receive_deals (n:={n with commands := queue}) hash wired.named stepped
    refine (accept_once (n:={n with commands := queue}) ⟨wired.named,wired.window⟩ stepped).imp_right fun known => ?_
    exact ⟨known,gained,deals.grown,deals.once⟩
  · obtain ⟨fed,_⟩ := step_fed stepped
    refine .inl (.of_fed ?_ fed)
    intro event prompted brought
    obtain ⟨sender,topic,connection,rfl⟩ := TopicInner.content_some brought
    obtain ⟨rfl,rfl,queue,queued⟩ := prompts_message prompted
    exact copy ⟨rfl,sender,connection,queue,queued⟩

theorem perform_wired {interval : Option Nat} {queue : List Command} (wired : n.Wired interval)
    (performed : {n with commands := queue}.perform hash turn deed = .ok n') : n'.Wired interval := by
  have stepped : ∃ commands input, {n with commands := commands}.step hash turn input = .ok n' := by
    cases deed with
    | tick => exact ⟨queue,.tick,performed⟩
    | command command => exact ⟨command :: queue,.command,performed⟩
    | join config => exact ⟨queue,.join config,performed⟩
    | gossip file bytes => exact ⟨queue,.gossip file bytes,performed⟩
  obtain ⟨commands,input,stepped⟩ := stepped
  obtain ⟨fed,recalls⟩ := step_fed stepped
  exact ⟨fed.named wired.named,recalls.lifespan.trans wired.window⟩

end Network

theorem Performed.wired {hash : Message → Multihash} {interval : Option Nat} {start n : Network}
    (performed : Performed hash fit start deeds log n) (wired : start.Wired interval) : n.Wired interval := by
  induction performed with
  | nil => exact wired
  | snoc _ _ did ih => exact Network.perform_wired ih did

end AnomaAlpha
