import AnomaAlpha.Handshake

namespace AnomaAlpha
open Fallible OrderedMap Linking

-- The connection over which a topic is linked to a peer.
def linkOf (inside : Inside) (name : TopicName) (peer : PeerId) : Option ConnectionId :=
  inside.1[name]?.bind fun topic => topic.activePeers[peer]?.map Prod.fst

theorem linkOf_iff {inside : Inside} : linkOf inside name p = some c ↔
    ∃ topic, inside.1[name]? = some topic ∧ topic.Linked p c := by
  unfold linkOf
  rw [Option.bind_eq_some_iff]
  constructor
  · intro given
    obtain ⟨topic,found,linked⟩ := given
    obtain ⟨⟨conn,addresses⟩,held,rfl⟩ := Option.map_eq_some_iff.mp linked
    exact ⟨topic,found,addresses,held⟩
  · intro given
    obtain ⟨topic,found,addresses,held⟩ := given
    exact ⟨topic,found,Option.map_eq_some_iff.mpr ⟨_,held,rfl⟩⟩

-- What some events did to the links of a topic, and what they asked for.
structure Shakes (name : TopicName) (before : Inside) (events : List TopicEvent) (asks : List (Ask PeerId ConnectionId))
    (after : Inside) : Prop where
  sent : ∃ sent, after.2 = before.2 ++ sent ∧ sent.map Command.item = asks.map .ask
  keeps : ∀ p c, linkOf before name p = some c →
    linkOf after name p = some c ∨ .peerDisconnected p c ∈ events ∨ .ban p ∈ asks
  gains : ∀ p c, linkOf after name p = some c → linkOf before name p = some c ∨
    ∃ event ∈ events, event.brings p c ∧ (.send p c .offer ∈ asks ∨ ∃ event ∈ events, event.Offers p c)
  offers : ∀ p c, .send p c .offer ∈ asks →
    (∃ event ∈ events, event.brings p c) ∧ (linkOf after name p = some c ∨ .ban p ∈ asks)
  accepts : ∀ p c, ∀ event ∈ events, event.Offers p c →
    linkOf after name p = some c ∨ .ban p ∈ asks ∨ .cut p c ∈ asks

def Shakes.Silent (asks : List (Ask PeerId ConnectionId)) : Prop := ∀ ask ∈ asks, ∀ p c, ask ≠ .send p c .offer

namespace Shakes
variable {name : TopicName} {a b c : Inside} {events more : List TopicEvent} {asks later : List (Ask PeerId ConnectionId)}

theorem refl (name : TopicName) (inside : Inside) : Shakes name inside [] [] inside where
  sent := ⟨[],(List.append_nil _).symm,rfl⟩
  keeps _ _ linked := .inl linked
  gains _ _ linked := .inl linked
  offers _ _ := nofun
  accepts _ _ _ := nofun

theorem trans (first : Shakes name a events asks b) (second : Shakes name b more later c)
    (stays : ∀ p d, .peerDisconnected p d ∉ more) : Shakes name a (events ++ more) (asks ++ later) c := by
  have keeps : ∀ p d, linkOf b name p = some d → linkOf c name p = some d ∨ .ban p ∈ asks ++ later := by
    intro p d linked
    rcases second.keeps p d linked with linked | left | banned
    · exact .inl linked
    · exact (stays p d left).elim
    · exact .inr (List.mem_append_right _ banned)
  refine ⟨?_,?_,?_,?_,?_⟩
  · obtain ⟨sent,written,same⟩ := first.sent
    obtain ⟨sent',written',same'⟩ := second.sent
    refine ⟨sent ++ sent',?_,?_⟩
    · rw [written',written,List.append_assoc]
    · rw [List.map_append,List.map_append,same,same']
  · intro p d linked
    rcases first.keeps p d linked with linked | left | banned
    · exact (keeps p d linked).imp_right .inr
    · exact .inr (.inl (List.mem_append_left _ left))
    · exact .inr (.inr (List.mem_append_left _ banned))
  · intro p d linked
    rcases second.gains p d linked with linked | ⟨event,member,brings,entered⟩
    · refine (first.gains p d linked).imp_right fun given => ?_
      obtain ⟨event,member,brings,entered⟩ := given
      refine ⟨event,List.mem_append_left _ member,brings,entered.imp (List.mem_append_left _) fun offered => ?_⟩
      obtain ⟨offer,inside,offers⟩ := offered
      exact ⟨offer,List.mem_append_left _ inside,offers⟩
    · refine .inr ⟨event,List.mem_append_right _ member,brings,entered.imp (List.mem_append_right _) fun offered => ?_⟩
      obtain ⟨offer,inside,offers⟩ := offered
      exact ⟨offer,List.mem_append_right _ inside,offers⟩
  · intro p d asked
    rcases List.mem_append.mp asked with asked | asked
    · obtain ⟨⟨event,member,brings⟩,outcome⟩ := first.offers p d asked
      refine ⟨⟨event,List.mem_append_left _ member,brings⟩,?_⟩
      exact outcome.elim (keeps p d) fun banned => .inr (List.mem_append_left _ banned)
    · obtain ⟨⟨event,member,brings⟩,outcome⟩ := second.offers p d asked
      exact ⟨⟨event,List.mem_append_right _ member,brings⟩,outcome.imp_right (List.mem_append_right _)⟩
  · intro p d event member offered
    rcases List.mem_append.mp member with member | member
    · rcases first.accepts p d event member offered with linked | banned | cut
      · exact (keeps p d linked).imp_right .inl
      · exact .inr (.inl (List.mem_append_left _ banned))
      · exact .inr (.inr (List.mem_append_left _ cut))
    · rcases second.accepts p d event member offered with linked | banned | cut
      · exact .inl linked
      · exact .inr (.inl (List.mem_append_right _ banned))
      · exact .inr (.inr (List.mem_append_right _ cut))

theorem of_same {sent : List Command} (same : ∀ p, linkOf b name p = linkOf a name p) (written : b.2 = a.2 ++ sent)
    (items : sent.map Command.item = asks.map .ask) (silent : Silent asks) : Shakes name a [] asks b where
  sent := ⟨sent,written,items⟩
  keeps p _ linked := .inl ((same p).trans linked)
  gains p _ linked := .inl ((same p).symm.trans linked)
  offers p c asked := (silent _ asked p c rfl).elim
  accepts _ _ _ := nofun

theorem of_topic {topic next : TopicInner} {event : TopicEvent} (found : a.1[name]? = some topic)
    (drained : topic.cmdtx = []) (shakes : TopicInner.Shakes topic next event asks) :
    Shakes name a [event] asks (a.1.insert name {next with cmdtx := []},a.2 ++ next.cmdtx) := by
  have before : ∀ p c, linkOf a name p = some c ↔ topic.Linked p c := by
    intro p c
    rw [linkOf_iff,found]
    simp
  have after : ∀ p c, linkOf (a.1.insert name {next with cmdtx := []},a.2 ++ next.cmdtx) name p = some c ↔
      next.Linked p c := by
    intro p c
    rw [linkOf_iff]
    dsimp only
    rw [get_insert,if_pos rfl]
    simp only [Option.some.injEq,exists_eq_left']
    rfl
  obtain ⟨sent,written,items⟩ := shakes.sent
  rw [drained,List.nil_append] at written
  refine ⟨⟨sent,by rw [written],items⟩,?_,?_,?_,?_⟩
  · intro p c linked
    rw [after]
    exact (shakes.keeps p c ((before p c).mp linked)).imp_right fun left =>
      left.imp_left fun same => List.mem_singleton.mpr same.symm
  · intro p c linked
    rw [before]
    refine (shakes.gains p c ((after p c).mp linked)).imp_right fun given => ?_
    obtain ⟨brings,entered⟩ := given
    exact ⟨event,List.mem_singleton_self _,brings,entered.imp_right fun offers => ⟨event,List.mem_singleton_self _,offers⟩⟩
  · intro p c asked
    obtain ⟨brings,linked⟩ := shakes.offers p c asked
    exact ⟨⟨event,List.mem_singleton_self _,brings⟩,.inl ((after p c).mpr linked)⟩
  · intro p c given member offers
    cases List.mem_singleton.mp member
    rw [after]
    exact shakes.accepts p c offers

theorem insert_same {file : TopicName} {next : TopicInner} (kept : next.activePeers = (a.1[file]?.elim ∅ (·.activePeers)))
    (commands : List Command) (p : PeerId) : linkOf (a.1.insert file next,commands) name p = linkOf a name p := by
  unfold linkOf
  dsimp only
  rw [get_insert]
  split
  · rename_i same
    subst same
    rw [Option.bind_some,kept]
    cases a.1[file]? with
    | none => simp
    | some topic => rfl
  · rfl

theorem puts {sent : List Command} {next : TopicInner} {file : TopicName} (shakes : Shakes name a [] asks b)
    (silent : Silent asks) (kept : next.activePeers = (b.1[file]?.elim ∅ (·.activePeers))) (written : next.cmdtx = sent)
    (items : sent.map Command.item = later.map .ask) (quiet : Silent later) :
    ∃ asks, Silent asks ∧ Shakes name a [] asks (b.1.insert file {next with cmdtx := []},b.2 ++ next.cmdtx) := by
  refine ⟨asks ++ later,fun ask member => (List.mem_append.mp member).elim (silent ask) (quiet ask),?_⟩
  have still : ({next with cmdtx := []} : TopicInner).activePeers = b.1[file]?.elim ∅ (·.activePeers) := kept
  refine shakes.trans (.of_same (insert_same still _) ?_ items quiet) (fun _ _ => nofun)
  rw [written]

end Shakes

theorem FedBy.shakes (fed : FedBy home turn a log b) (filed : Named a.1)
    (calm : ∀ entry ∈ log, TopicInner.mild entry.2 = true) (name : TopicName) :
    ∃ asks, Shakes.Silent asks ∧ Shakes name a [] asks b := by
  induction fed with
  | refl => exact ⟨[],nofun,.refl name _⟩
  | @event log fed file topic event next earlier found handled ih =>
      obtain ⟨asks,silent,shakes⟩ := ih fun entry member => calm entry (List.mem_append_left _ member)
      have mild : TopicInner.mild event = true := calm _ (List.mem_append_right _ (List.mem_singleton_self _))
      obtain ⟨sent,asked,written,items,offers⟩ := TopicInner.injectEvent_asks handled
      rw [(earlier.named filed file topic found).2,List.nil_append] at written
      refine shakes.puts silent ?_ written items ?_
      · rw [found]
        exact TopicInner.mild_active mild handled
      · intro ask member p c same
        obtain ⟨peer,rfl,_⟩ := offers ask member p c same
        cases mild
  | @join log fed config addresses topic earlier absent built ih =>
      obtain ⟨asks,silent,shakes⟩ := ih calm
      obtain ⟨unlinked,connects⟩ := TopicInner.new_sends turn.now config home.1 ⟨home.2,addresses⟩
      rw [built] at unlinked connects
      have dials : ∀ command ∈ topic.cmdtx, ∃ ask, command.item = .ask ask ∧ ∀ p c, ask ≠ .send p c .offer := by
        intro command member
        obtain ⟨addr,rfl⟩ := connects command member
        exact ⟨_,rfl,fun p c => nofun⟩
      obtain ⟨asked,items,quiet⟩ := TopicInner.asks_of dials
      refine shakes.puts silent ?_ rfl items quiet
      rw [absent]
      exact unlinked
  | @gossip log fed file topic next data earlier found sent ih =>
      obtain ⟨asks,silent,shakes⟩ := ih calm
      have quiet : Quiet (fun command => ∃ ask, command.item = .ask ask ∧ ∀ p c, ask ≠ .send p c .offer) topic next :=
        TopicInner.gossip_quiet sent fun peer conn _ => ⟨_,rfl,fun p c => nofun⟩
      obtain ⟨given,written,allowed⟩ := quiet.sends
      rw [(earlier.named filed file topic found).2,List.nil_append] at written
      obtain ⟨asked,items,unoffered⟩ := TopicInner.asks_of allowed
      refine shakes.puts silent ?_ written items unoffered
      rw [found]
      exact quiet.active

def TopicInner.allSmooth (env : Env) : TopicInner → List TopicEvent → Bool
  | _,[] => true
  | s,event :: events => s.smooth env event && match s.injectEvent env event with
    | .ok s => allSmooth env {s with cmdtx := []} events
    | .error _ => true

namespace Network
variable {n n' : Network} {turn : Turn} {hash : Message → Multihash} {name : TopicName} {topic : TopicInner}

-- No NEIGHBOUR is dropped as a duplicate, unless the link is there.
def heeds (hash : Message → Multihash) (name : TopicName) (n : Network) (turn : Turn) : Deed → Bool
  | .command (.injectEvent (.messageReceived sender connection msg)) => match msg.action with
    | .neighbour _ => !n.topics.contains msg.topic || !(n.remember turn hash msg).1 ||
        linkOf n.inside name sender == some connection
    | _ => true
  | _ => true

def smooth (hash : Message → Multihash) (name : TopicName) (n : Network) (turn : Turn) (deed : Deed) : Bool :=
  n.heeds hash name turn deed && n.topics[name]?.all fun topic =>
    topic.allSmooth (turn.env name) ((n.injections hash turn deed).map Prod.snd)

theorem injectTopic_shakes (tidy : n.Tidy) (found : n.topics[name]? = some topic)
    (smooth : topic.allSmooth (turn.env name) (event :: events) = true)
    (foreign : ∀ p c, event.brings p c → p ≠ n.this.peerId) (injected : n.injectTopic turn name topic event = .ok n') :
    (∃ asks, Shakes name n.inside [event] asks n'.inside) ∧ ∃ next, n'.topics[name]? = some next ∧
      next.allSmooth (turn.env name) events = true := by
  unfold injectTopic at injected
  obtain ⟨next,handled,injected⟩ := bind_ok.mp injected
  cases injected
  have handled := mapError_ok.mp handled
  unfold TopicInner.allSmooth at smooth
  rw [handled] at smooth
  obtain ⟨here,later⟩ := Bool.and_eq_true_iff.mp smooth
  constructor
  · have own : topic.thisNode.peerId = n.this.peerId := (tidy.homed name topic found).2
    obtain ⟨asks,shakes⟩ := TopicInner.injectEvent_shakes (own ▸ foreign) here handled
    exact ⟨asks,Shakes.of_topic (a:=n.inside) found (tidy.named name topic found).2 shakes⟩
  · refine ⟨_,?_,later⟩
    change (n.topics.insert name _)[name]? = _
    rw [get_insert,if_pos rfl]

def Dialing (issued : List RunloopCommand) : Prop := ∀ command ∈ issued, ∃ addr, command = .connect addr

theorem dialNext_issues (turn : Turn) (n : Network) (addr : Multiaddr) (topic : TopicName) :
    ∃ issued, (n.dialNext turn addr topic).2.runloop = n.runloop ++ issued ∧ Dialing issued := by
  unfold dialNext
  dsimp only
  split
  · exact ⟨[.connect addr],rfl,fun command member => ⟨addr,List.mem_singleton.mp member⟩⟩
  · exact ⟨[],(List.append_nil _).symm,nofun⟩

theorem dialAnother_issues (turn : Turn) (n : Network) (topic : TopicName) (addresses : HashSet Multiaddr) :
    ∃ issued, (n.dialAnother turn topic addresses).runloop = n.runloop ++ issued ∧ Dialing issued := by
  induction addresses generalizing n with
  | nil => exact ⟨[],(List.append_nil _).symm,nofun⟩
  | cons addr addresses ih =>
      obtain ⟨issued,told,dials⟩ := dialNext_issues turn n addr topic
      unfold dialAnother
      split
      · rename_i next equal
        rw [equal] at told
        exact ⟨issued,told,dials⟩
      · rename_i next equal
        rw [equal] at told
        obtain ⟨more,later,others⟩ := ih next
        refine ⟨issued ++ more,later.trans (by rw [told,List.append_assoc]),?_⟩
        intro command member
        exact (List.mem_append.mp member).elim (dials command) (others command)

-- What a network makes of something that the runloop tells it.
structure Answers (name : TopicName) (n : Network) (event : SwarmEvent) (events : List TopicEvent)
    (asks : List (Ask PeerId ConnectionId)) (issued : List RunloopCommand) (n' : Network) : Prop where
  shakes : Shakes name n.inside events asks n'.inside
  runloop : n'.runloop = n.runloop ++ issued
  silent : Shakes.Silent (issued.map RunloopCommand.ask)
  heard : ∀ given ∈ events, ∀ p c, given.brings p c → Hears (some (.notice event.notice)) p c
  closed : ∀ p c, .peerDisconnected p c ∈ events → event.notice = .closed p c
  offered : ∀ given ∈ events, ∀ p c, given.Offers p c → event.notice = .arrived p c .offer
  accepts : ∀ p c, event.notice = .arrived p c .offer → linkOf n'.inside name p = some c ∨
    .ban p ∈ asks ++ issued.map RunloopCommand.ask ∨ .cut p c ∈ asks ++ issued.map RunloopCommand.ask

theorem Dialing.silent (dials : Dialing issued) : Shakes.Silent (issued.map RunloopCommand.ask) := by
  intro ask member p c
  obtain ⟨command,inside,rfl⟩ := List.mem_map.mp member
  obtain ⟨addr,rfl⟩ := dials command inside
  exact nofun

def Sole (n : Network) (name : TopicName) : Prop := ∀ other ∈ n.topics, other = name

theorem connected_answers (tidy : n.Tidy) (sole : n.Sole name)
    (smooth : n.smooth hash name turn (.command (.injectEvent (.connectionEstablished peer true connection))) = true)
    (foreign : peer.peerId ≠ n.this.peerId) (connected : n.completeConnect turn peer connection true = .ok n') :
    ∃ asks issued, Answers name n (.connectionEstablished peer true connection) [.peerConnected peer connection]
      asks issued n' := by
  have smooth := (Bool.and_eq_true_iff.mp smooth).2
  unfold injections at smooth
  dsimp only at smooth
  obtain ⟨given,muxer,runloop,dialed,topic,matched,written,found,injected⟩ := completeConnect_cases connected
  obtain rfl := sole given (Std.ExtTreeMap.mem_iff_isSome_getElem?.mpr (by rw [found]; rfl))
  rw [matched] at smooth
  dsimp only at smooth
  rw [found] at smooth
  obtain ⟨issued,told,dials⟩ := dialAnother_issues turn {n with muxer := muxer} given peer.addresses
  rw [written] at told
  obtain ⟨⟨asks,shakes⟩,_⟩ := injectTopic_shakes (n:={n with runloop := runloop, muxer := dialed})
    ⟨tidy.named,tidy.homed⟩ found smooth (by
      intro p c brings
      rw [← brings.1]
      exact foreign) injected
  have kept : n'.runloop = runloop :=
    (injectTopic_ok (n:={n with runloop := runloop, muxer := dialed}) found injected).2.2.1
  refine ⟨asks,issued,shakes,kept.trans told,dials.silent,?_,?_,?_,?_⟩
  · intro event member p c brings
    cases List.mem_singleton.mp member
    obtain ⟨rfl,rfl⟩ := brings
    exact .inl rfl
  · intro p c member
    cases List.mem_singleton.mp member
  · intro event member p c offers
    cases List.mem_singleton.mp member
    obtain ⟨_,_,told⟩ := offers
    cases told
  · intro p c arrived
    cases arrived

theorem closed_answers (tidy : n.Tidy) (sole : n.Sole name)
    (smooth : n.smooth hash name turn (.command (.injectEvent (.connectionClosed peer connection))) = true)
    (disconnected : n.completeDisconnect turn peer connection = .ok n') :
    ∃ events asks, Answers name n (.connectionClosed peer connection) events asks [] n' := by
  have smooth := (Bool.and_eq_true_iff.mp smooth).2
  unfold injections at smooth
  dsimp only at smooth
  obtain ⟨told,rfl,⟨_,rfl⟩ | ⟨given,topic,bound,found,injected⟩⟩ := completeDisconnect_cases disconnected
  · exact ⟨[],[],.refl name _,(List.append_nil _).symm,nofun,nofun,nofun,nofun,nofun⟩
  · obtain rfl := sole given (Std.ExtTreeMap.mem_iff_isSome_getElem?.mpr (by rw [found]; rfl))
    rw [bound] at smooth
    dsimp only at smooth
    rw [found] at smooth
    obtain ⟨⟨asks,shakes⟩,_⟩ := injectTopic_shakes tidy found smooth (fun p c brings => brings.elim) injected
    refine ⟨[.peerDisconnected peer connection],asks,shakes,?_,nofun,?_,?_,?_,nofun⟩
    · exact (injectTopic_ok found injected).2.2.1.trans (List.append_nil _).symm
    · intro event member p c brings
      cases List.mem_singleton.mp member
      exact brings.elim
    · intro p c member
      cases List.mem_singleton.mp member
      rfl
    · intro event member p c offers
      cases List.mem_singleton.mp member
      obtain ⟨_,_,told⟩ := offers
      cases told

theorem assign_peer {muxer : Muxer} {peer : AddressablePeer} (neat : n.muxer.Neat)
    (assigned : n.muxer.assign sender connection name = (some peer,muxer)) : peer.peerId = sender := by
  cases waiting : n.muxer.waits sender connection with
  | false =>
      rw [Muxer.assign_settled waiting] at assigned
      cases assigned
  | true =>
      obtain ⟨entry,found,chosen,_⟩ := Muxer.assign_waiting waiting name
      rw [assigned] at chosen
      cases chosen
      exact (neat.queued _ _ found).2

-- The last of the events that a message is for.
theorem deliver_answers {events : List TopicEvent} {asks : List (Ask PeerId ConnectionId)} {m : Network} (tidy : m.Tidy)
    (found : m.topics[msg.topic]? = some topic) (own : m.this.peerId = n.this.peerId) (foreign : sender ≠ n.this.peerId)
    (smooth : m.muxer.resolveTopic sender connection = some msg.topic →
      topic.allSmooth (turn.env msg.topic) [.messageReceived sender msg connection] = true)
    (before : Shakes msg.topic n.inside events asks m.inside) (quiet : m.runloop = n.runloop)
    (opening : ∀ event ∈ events, ∃ peer, event = .peerConnected peer connection ∧ peer.peerId = sender)
    (delivered : m.deliver turn sender connection msg = .ok n') :
    ∃ events asks issued, Answers msg.topic n (.messageReceived sender connection msg) events asks issued n' := by
  have heard : ∀ event ∈ events, ∀ p c, event.brings p c →
      Hears (some (.notice (SwarmEvent.messageReceived sender connection msg).notice)) p c := by
    intro event member p c brings
    obtain ⟨peer,rfl,same⟩ := opening event member
    obtain ⟨rfl,rfl⟩ := brings
    exact .inr ⟨msg.parcel,by rw [same]; rfl⟩
  have unclosed : ∀ p c, .peerDisconnected p c ∉ events := by
    intro p c member
    obtain ⟨_,told,_⟩ := opening _ member
    cases told
  have unoffered : ∀ event ∈ events, ∀ p c, ¬event.Offers p c := by
    intro event member p c offers
    obtain ⟨_,rfl,_⟩ := opening event member
    obtain ⟨_,_,told⟩ := offers
    cases told
  obtain ⟨bound,resolved,⟨_,rfl⟩ | ⟨rfl,⟨absent,_⟩ | ⟨receiver,joined,injected⟩⟩⟩ := deliver_cases delivered
  · refine ⟨events,asks,[.banPeer sender],before,congrArg (· ++ _) quiet,?_,heard,?_,?_,?_⟩
    · intro ask member p c
      cases List.mem_singleton.mp member
      exact nofun
    · exact fun p c member => (unclosed p c member).elim
    · exact fun event member p c offers => (unoffered event member p c offers).elim
    · intro p c arrived
      injection arrived with same _ _
      exact .inr (.inl (List.mem_append_right _ (List.mem_singleton.mpr (by rw [same]; rfl))))
  · rw [found] at absent
    cases absent
  · rw [found] at joined
    cases joined
    obtain ⟨⟨more,after⟩,_⟩ := injectTopic_shakes tidy found (smooth resolved) (by
      intro p c brings
      rw [← brings.1,own]
      exact foreign) injected
    refine ⟨_,_,[],before.trans after fun p d member => ?_,?_,nofun,?_,?_,?_,?_⟩
    · cases List.mem_singleton.mp member
    · exact (injectTopic_ok found injected).2.2.1.trans (quiet.trans (List.append_nil _).symm)
    · intro event member p c brings
      rcases List.mem_append.mp member with member | member
      · exact heard event member p c brings
      · cases List.mem_singleton.mp member
        obtain ⟨rfl,rfl⟩ := brings
        exact .inr ⟨_,rfl⟩
    · intro p c member
      rcases List.mem_append.mp member with member | member
      · exact (unclosed p c member).elim
      · cases List.mem_singleton.mp member
    · intro event member p c offers
      rcases List.mem_append.mp member with member | member
      · exact (unoffered event member p c offers).elim
      · cases List.mem_singleton.mp member
        obtain ⟨_,_,told⟩ := offers
        cases told
        rfl
    · intro p c arrived
      obtain ⟨topicName,action⟩ := msg
      cases action with
      | neighbour neighbour =>
          cases arrived
          refine (after.accepts sender connection _ (List.mem_singleton_self _) ⟨_,_,rfl⟩).imp_right fun refused => ?_
          rw [List.map_nil,List.append_nil]
          exact refused.imp (List.mem_append_right _) (List.mem_append_right _)
      | _ => cases arrived

theorem duplicate_answers {history : Option (ExpiringSet Multihash)} (joined : msg.topic ∈ n.topics)
    (duplicate : (n.remember turn hash msg).1 = true)
    (heeds : n.heeds hash msg.topic turn (.command (.injectEvent (.messageReceived sender connection msg))) = true) :
    Answers msg.topic n (.messageReceived sender connection msg) [] [] [] {n with history := history} := by
  refine ⟨.refl _ _,(List.append_nil _).symm,nofun,nofun,nofun,nofun,?_⟩
  intro p c arrived
  obtain ⟨topicName,action⟩ := msg
  cases action with
  | neighbour neighbour =>
      cases arrived
      unfold Network.heeds at heeds
      have linked : linkOf n.inside topicName sender = some connection := by
        simpa [Std.ExtTreeMap.contains_iff_mem.mpr joined,duplicate] using heeds
      exact .inl linked
  | _ => cases arrived

theorem routed_answers {history : Option (ExpiringSet Multihash)} (tidy : n.Tidy) (neat : n.muxer.Neat)
    (found : n.topics[msg.topic]? = some topic) (fresh : (n.remember turn hash msg).1 = false)
    (smooth : topic.allSmooth (turn.env msg.topic)
      ((n.injections hash turn (.command (.injectEvent (.messageReceived sender connection msg)))).map Prod.snd) = true)
    (foreign : sender ≠ n.this.peerId)
    (routed : {n with history := history}.routeMessage turn sender connection msg = .ok n') :
    ∃ events asks issued, Answers msg.topic n (.messageReceived sender connection msg) events asks issued n' := by
  have joined : msg.topic ∈ n.topics := Std.ExtTreeMap.mem_iff_isSome_getElem?.mpr (by rw [found]; rfl)
  unfold injections at smooth
  dsimp only at smooth
  rw [if_neg (by simp [joined,fresh])] at smooth
  unfold routeMessage at routed
  cases assigned : n.muxer.assign sender connection msg.topic with
  | mk peer muxer =>
      dsimp only at routed
      rw [assigned] at routed smooth
      obtain ⟨announced,announce,deliver⟩ := bind_ok.mp routed
      cases peer with
      | none =>
          cases announce
          refine deliver_answers (m:={n with muxer := muxer, history := history}) ⟨tidy.named,tidy.homed⟩ found rfl
            foreign ?_ (.refl _ _) rfl nofun deliver
          intro resolved
          change muxer.resolveTopic sender connection = some msg.topic at resolved
          dsimp only at smooth
          rw [if_pos resolved] at smooth
          exact smooth
      | some peer =>
          have own := assign_peer neat assigned
          unfold Network.announce at announce
          dsimp only at announce
          rw [found] at announce
          dsimp only at announce
          obtain ⟨⟨asks,shakes⟩,next,found',later⟩ := injectTopic_shakes
            (n:={n with muxer := muxer, history := history}) ⟨tidy.named,tidy.homed⟩ found smooth (by
              intro p c brings
              rw [← brings.1,own]
              exact foreign) announce
          obtain ⟨fed,kept,sent,home⟩ := injectTopic_ok (n:={n with muxer := muxer, history := history}) found announce
          refine deliver_answers (m:=announced) (Tidy.fed (m:={n with muxer := muxer, history := history})
            ⟨tidy.named,tidy.homed⟩ fed home) found' (congrArg Prod.snd home) foreign ?_ shakes sent ?_ deliver
          · intro resolved
            rw [kept] at resolved
            change muxer.resolveTopic sender connection = some msg.topic at resolved
            rw [if_pos resolved] at later
            exact later
          · intro event member
            cases List.mem_singleton.mp member
            exact ⟨peer,rfl,own⟩

theorem message_answers (tidy : n.Tidy) (neat : n.muxer.Neat) (sole : n.Sole name)
    (smooth : n.smooth hash name turn (.command (.injectEvent (.messageReceived sender connection msg))) = true)
    (foreign : sender ≠ n.this.peerId) (accepted : n.acceptMessage turn hash sender connection msg = .ok n') :
    ∃ events asks issued, Answers name n (.messageReceived sender connection msg) events asks issued n' := by
  obtain ⟨heeds,smooth⟩ := Bool.and_eq_true_iff.mp smooth
  obtain ⟨_,rfl⟩ | ⟨joined,history,_,routed⟩ := acceptMessage_cases accepted
  · refine ⟨[],[],[.disconnect sender connection],.refl name _,rfl,?_,nofun,nofun,nofun,?_⟩
    · intro ask member p c
      cases List.mem_singleton.mp member
      exact nofun
    · intro p c arrived
      injection arrived with same conn _
      exact .inr (.inr (List.mem_singleton.mpr (by rw [same,conn]; rfl)))
  · obtain rfl := sole _ joined
    obtain ⟨topic,found⟩ := joined_some joined
    obtain ⟨duplicate,rfl⟩ | ⟨fresh,routed⟩ := routed
    · exact ⟨[],[],[],duplicate_answers joined duplicate heeds⟩
    · rw [found] at smooth
      exact routed_answers tidy neat found fresh smooth foreign routed

end Network

def Deed.taken : Deed → List Command
  | .command given => [given]
  | _ => []

def Deed.item : Deed → Option (Item PeerId ConnectionId)
  | .command given => some given.item
  | _ => none

def Network.node (n : Network) (name : TopicName) (handled : Nat)
    (sides : ConnectionId → Option (Side PeerId ConnectionId)) : Node PeerId ConnectionId where
  active := linkOf n.inside name
  bound p c := n.muxer.resolveTopic p c = some name
  channel := n.commands.map Command.item
  out := (n.runloop.drop handled).map RunloopCommand.ask
  sides := sides

namespace Network
variable {n n' : Network} {turn : Turn} {hash : Message → Multihash} {name : TopicName} {deed : Deed}

-- What a deed does is an act of the node, and topics put asks into the channel only.
def Acts (name : TopicName) (handled : Nat) (sides : ConnectionId → Option (Side PeerId ConnectionId)) (n : Network)
    (deed : Deed) (n' : Network) : Prop :=
  ∃ (sent : List Command) (asks issued : List (Ask PeerId ConnectionId)), n'.commands = n.commands ++ sent ∧
    sent.map Command.item = asks.map .ask ∧ n'.runloop.length = n.runloop.length + issued.length ∧
    Act deed.item asks issued ({n with commands := deed.taken ++ n.commands}.node name handled sides)
      (n'.node name handled sides)

theorem act_of {events : List TopicEvent} {asks : List (Ask PeerId ConnectionId)} {issued : List RunloopCommand}
    (shakes : Shakes name n.inside events asks n'.inside) (runloop : n'.runloop = n.runloop ++ issued)
    (passes : ∀ ask, deed.item = some (.ask ask) → ask ≠ .other → ask ∈ issued.map RunloopCommand.ask)
    (relays : ∀ p c, .send p c .offer ∈ issued.map RunloopCommand.ask → deed.item = some (.ask (.send p c .offer)))
    (heard : ∀ given ∈ events, ∀ p c, given.brings p c → Hears deed.item p c)
    (closed : ∀ p c, .peerDisconnected p c ∈ events → deed.item = some (.notice (.closed p c)))
    (offered : ∀ given ∈ events, ∀ p c, given.Offers p c → deed.item = some (.notice (.arrived p c .offer)))
    (accepts : ∀ p c, deed.item = some (.notice (.arrived p c .offer)) → linkOf n'.inside name p = some c ∨
      .ban p ∈ asks ++ issued.map RunloopCommand.ask ∨ .cut p c ∈ asks ++ issued.map RunloopCommand.ask)
    (live : n'.Live) (holds : ∀ p c, n.muxer.resolveTopic p c = some name →
      n'.muxer.resolveTopic p c = some name ∨ deed.item = some (.notice (.closed p c)))
    (drops : ∀ p c, deed.item = some (.notice (.closed p c)) → n'.muxer.resolveTopic p c ≠ some name)
    {handled : Nat} (behind : handled ≤ n.runloop.length) (sides : ConnectionId → Option (Side PeerId ConnectionId)) :
    n.Acts name handled sides deed n' := by
  obtain ⟨sent,written,items⟩ := shakes.sent
  have written : n'.commands = n.commands ++ sent := written
  refine ⟨sent,asks,issued.map RunloopCommand.ask,written,items,by rw [runloop]; simp,?_⟩
  have bound : ∀ p c, linkOf n'.inside name p = some c → n'.muxer.resolveTopic p c = some name := by
    intro p c linked
    obtain ⟨topic,found,linked⟩ := linkOf_iff.mp linked
    exact live name topic p c found linked
  refine ⟨⟨n.commands.map Command.item,?_,?_⟩,?_,rfl,passes,relays,?_,?_,?_,accepts,holds,?_⟩
  · cases deed <;> rfl
  · change n'.commands.map Command.item = _
    rw [written,List.map_append,items]
  · change (n'.runloop.drop handled).map RunloopCommand.ask = _
    rw [runloop,List.drop_append_of_le_length behind,List.map_append]
    rfl
  · intro p c asked
    obtain ⟨⟨event,member,brings⟩,outcome⟩ := shakes.offers p c asked
    exact outcome.imp_right fun banned => ⟨heard event member p c brings,banned⟩
  · intro p c linked
    exact (shakes.keeps p c linked).imp_right fun left => left.imp_left (closed p c)
  · intro p c linked
    refine (shakes.gains p c linked).imp_right fun given => ?_
    obtain ⟨event,member,brings,entered⟩ := given
    refine ⟨bound p c linked,heard event member p c brings,entered.imp_right fun offers => ?_⟩
    obtain ⟨offer,inside,offers⟩ := offers
    exact offered offer inside p c offers
  · intro p c told _ linked
    exact drops p c told (bound p c linked)

theorem tick_issues (ticked : n.tick turn = .ok n') : ∃ issued, n'.runloop = n.runloop ++ issued ∧ Dialing issued := by
  obtain ⟨fed,pruned,injected,cleared,ended⟩ := tick_cases ticked
  have kept : pruned.runloop = n.runloop := by rw [cleared,(injectAll_ok injected).2.2.1]
  obtain ⟨_,rfl⟩ | ⟨topic,addr,_,rfl⟩ := ended
  · exact ⟨[],kept.trans (List.append_nil _).symm,nofun⟩
  · rw [← kept]
    exact dialNext_issues turn pruned addr topic

def quietly : Deed → Bool
  | .tick | .join _ | .gossip _ _ => true
  | .command (.injectEvent (.localAddressDiscovered _)) => true
  | .command (.injectEvent (.connectionEstablished _ false _)) => true
  | _ => false

theorem quiet_issues (quiet : quietly deed = true) (performed : n.perform hash turn deed = .ok n') :
    ∃ issued, n'.runloop = n.runloop ++ issued ∧ Dialing issued := by
  cases deed with
  | tick => exact tick_issues performed
  | join config =>
      unfold perform at performed
      dsimp only at performed
      obtain refused | ⟨_,joined⟩ := join_cases turn.now n config
      · rw [refused] at performed
        cases performed
        exact ⟨[],(List.append_nil _).symm,nofun⟩
      · rw [joined] at performed
        cases performed
        exact ⟨[],(List.append_nil _).symm,nofun⟩
  | gossip topic data =>
      cases performed
      refine ⟨[],?_,nofun⟩
      obtain same | ⟨_,_,_,_,put⟩ := gossip_cases turn n topic data
      · rw [same]
        exact (List.append_nil _).symm
      · rw [put]
        exact (List.append_nil _).symm
  | command command =>
      cases command with
      | injectEvent event =>
          cases event with
          | localAddressDiscovered addr =>
              exact ⟨[],(injectAll_ok performed).2.2.1.trans (List.append_nil _).symm,nofun⟩
          | connectionEstablished peer dialer connection =>
              cases dialer with
              | true => cases quiet
              | false =>
                  cases performed
                  exact ⟨[],(List.append_nil _).symm,nofun⟩
          | _ => cases quiet
      | _ => cases quiet

theorem quiet_mild (quiet : quietly deed = true) :
    ∀ entry ∈ n.injections hash turn deed, TopicInner.mild entry.2 = true := by
  rintro ⟨name,event⟩ member
  cases Network.injections_injected member with
  | tick => rfl
  | address => rfl
  | _ => cases quiet

theorem quiet_item (quiet : quietly deed = true) : (∀ ask, deed.item ≠ some (.ask ask)) ∧
    (∀ p c, deed.item ≠ some (.notice (.closed p c))) ∧ ∀ p c parcel, deed.item ≠ some (.notice (.arrived p c parcel)) := by
  cases deed with
  | command command =>
      cases command with
      | injectEvent event => cases event with
        | localAddressDiscovered addr => exact ⟨nofun,nofun,nofun⟩
        | connectionEstablished peer dialer connection => exact ⟨nofun,nofun,nofun⟩
        | _ => cases quiet
      | _ => cases quiet
  | _ => exact ⟨nofun,nofun,nofun⟩

theorem relay_issues {command : Command} (ask : Ask PeerId ConnectionId) (is : command.item = .ask ask)
    (performed : n.perform hash turn (.command command) = .ok n') : ∃ issued, n'.runloop = n.runloop ++ issued ∧
      n'.inside = n.inside ∧ (ask = .other ∧ Dialing issued ∨ issued.map RunloopCommand.ask = [ask]) := by
  cases command with
  | connect addr topic =>
      cases is
      cases performed
      obtain ⟨issued,told,dials⟩ := dialNext_issues turn {n with muxer := n.muxer.putDial addr topic} addr topic
      obtain ⟨runloop,dialed,written⟩ := dialNext_writes turn {n with muxer := n.muxer.putDial addr topic} addr topic
      refine ⟨issued,told,?_,.inl ⟨rfl,dials⟩⟩
      unfold beginConnect
      rw [written]
      rfl
  | injectEvent event => cases is
  | disconnect peer connection =>
      cases is
      cases performed
      exact ⟨[.disconnect peer connection],rfl,rfl,.inr rfl⟩
  | sendMessage peer connection msg =>
      cases is
      cases performed
      exact ⟨[.sendMessage peer connection msg],rfl,rfl,.inr rfl⟩
  | banPeer peer =>
      cases is
      cases performed
      exact ⟨[.banPeer peer],rfl,rfl,.inr rfl⟩

def Within (n n' : Network) : Prop := ∀ other ∈ n'.topics, other ∈ n.topics

theorem putTopic_within (found : n.topics[name]? = some topic) (next : TopicInner) : n.Within (n.putTopic name next) := by
  intro other inside
  rcases Std.ExtTreeMap.mem_insert.mp inside with same | inside
  · rw [← Std.LawfulEqCmp.eq_of_compare same]
    exact Std.ExtTreeMap.mem_iff_isSome_getElem?.mpr (by rw [found]; rfl)
  · exact inside

theorem injectTopic_within (found : n.topics[name]? = some topic)
    (injected : n.injectTopic turn name topic event = .ok n') : n.Within n' := by
  unfold injectTopic at injected
  obtain ⟨next,_,injected⟩ := bind_ok.mp injected
  cases injected
  exact putTopic_within found next

theorem injectAll_within (injected : n.injectAll turn event = .ok n') : n.Within n' := by
  unfold injectAll at injected
  generalize turn.topics n.topics.keys = names at injected
  induction names generalizing n with
  | nil =>
      obtain rfl := foldlM_nil_ok.mp injected
      exact fun _ => id
  | cons file names ih =>
      obtain ⟨middle,first,rest⟩ := foldlM_cons_ok.mp injected
      refine fun other inside => (?_ : n.Within middle) other (ih rest other inside)
      split at first
      · cases first
        exact fun _ => id
      · rename_i topic found
        exact injectTopic_within found first

theorem announce_within {peer : Option AddressablePeer} (announced : n.announce turn name peer connection = .ok n') :
    n.Within n' := by
  unfold announce at announced
  split at announced
  · rename_i found
    exact injectTopic_within found announced
  · cases announced
    exact fun _ => id

theorem deliver_within (delivered : n.deliver turn sender connection msg = .ok n') : n.Within n' := by
  obtain ⟨name,_,⟨_,rfl⟩ | ⟨_,⟨_,rfl⟩ | ⟨topic,found,injected⟩⟩⟩ := deliver_cases delivered
  · exact fun _ => id
  · exact fun _ => id
  · exact injectTopic_within found injected

theorem injectEvent_within {event : SwarmEvent} (injected : n.injectEvent turn hash event = .ok n') : n.Within n' := by
  cases event with
  | localAddressDiscovered addr =>
      exact injectAll_within (n:={n with this := {n.this with addresses := insertAddress n.this.addresses addr}}) injected
  | connectionEstablished peer dialer connection =>
      change n.completeConnect turn peer connection dialer = .ok n' at injected
      cases dialer with
      | true =>
          obtain ⟨given,muxer,runloop,dialed,topic,_,_,found,injected⟩ := completeConnect_cases injected
          exact injectTopic_within (n:={n with runloop := runloop, muxer := dialed}) found injected
      | false =>
          cases injected
          exact fun _ => id
  | connectionClosed peer connection =>
      change n.completeDisconnect turn peer connection = .ok n' at injected
      obtain ⟨told,rfl,⟨_,rfl⟩ | ⟨given,topic,_,found,injected⟩⟩ := completeDisconnect_cases injected
      · exact fun _ => id
      · have within := injectTopic_within found injected
        exact within
  | messageReceived sender connection msg =>
      change n.acceptMessage turn hash sender connection msg = .ok n' at injected
      obtain ⟨_,rfl⟩ | ⟨_,_,_,⟨_,rfl⟩ | ⟨_,routed⟩⟩ := acceptMessage_cases injected
      · exact fun _ => id
      · exact fun _ => id
      · unfold routeMessage at routed
        obtain ⟨announced,first,rest⟩ := bind_ok.mp routed
        intro other inside
        have within := announce_within first
        exact within other (deliver_within rest other inside)

theorem perform_within (performed : n.perform hash turn deed = .ok n') (unjoined : ∀ config, deed ≠ .join config) :
    n.Within n' := by
  cases deed with
  | tick =>
      obtain ⟨fed,pruned,injected,rfl,ended⟩ := tick_cases performed
      have within := injectAll_within injected
      obtain ⟨_,rfl⟩ | ⟨topic,addr,_,rfl⟩ := ended
      · exact within
      · obtain ⟨runloop,dialed,written⟩ := dialNext_writes turn _ addr topic
        rw [written]
        exact within
  | join config => exact (unjoined config rfl).elim
  | gossip file data =>
      cases performed
      obtain same | ⟨topic,next,found,_,put⟩ := gossip_cases turn n file data
      · rw [same]
        exact fun _ => id
      · rw [put]
        exact putTopic_within found _
  | command command =>
      cases command with
      | injectEvent event => exact injectEvent_within performed
      | connect addr file =>
          cases performed
          obtain ⟨runloop,dialed,written⟩ := dialNext_writes turn {n with muxer := n.muxer.putDial addr file} addr file
          unfold beginConnect
          rw [written]
          exact fun _ => id
      | _ =>
          cases performed
          exact fun _ => id

theorem sole_kept (sole : n.Sole name) (performed : n.perform hash turn deed = .ok n')
    (ours : ∀ config, deed = .join config → config.name = name) : n'.Sole name := by
  by_cases joins : ∃ config, deed = .join config
  · obtain ⟨config,rfl⟩ := joins
    unfold perform at performed
    dsimp only at performed
    obtain refused | ⟨_,joined⟩ := join_cases turn.now n config
    · rw [refused] at performed
      cases performed
      exact sole
    · rw [joined] at performed
      cases performed
      intro other inside
      rcases Std.ExtTreeMap.mem_insert.mp inside with same | inside
      · rw [← Std.LawfulEqCmp.eq_of_compare same]
        exact ours config rfl
      · exact sole other inside
  · have within := perform_within performed fun config same => joins ⟨config,same⟩
    exact fun other inside => sole other (within other inside)

section
variable {handled : Nat} (behind : handled ≤ n.runloop.length) (sides : ConnectionId → Option (Side PeerId ConnectionId))
  (live : n'.Live) (holds : ∀ p c, n.muxer.resolveTopic p c = some name →
    n'.muxer.resolveTopic p c = some name ∨ deed.item = some (.notice (.closed p c)))
include behind live holds

theorem answers_act {event : SwarmEvent} {events : List TopicEvent} {asks : List (Ask PeerId ConnectionId)}
    {issued : List RunloopCommand} (same : deed = .command (.injectEvent event))
    (answers : Answers name n event events asks issued n')
    (drops : ∀ p c, event.notice = .closed p c → n'.muxer.resolveTopic p c ≠ some name) :
    n.Acts name handled sides deed n' := by
  subst same
  refine act_of answers.shakes answers.runloop ?_ ?_ ?_ ?_ ?_ ?_ live holds ?_ behind sides
  · intro ask taken
    cases taken
  · exact fun p c asked => (answers.silent _ asked p c rfl).elim
  · exact answers.heard
  · exact fun p c member => by rw [← answers.closed p c member]; rfl
  · exact fun given member p c offers => by rw [← answers.offered given member p c offers]; rfl
  · exact fun p c told => answers.accepts p c (by injection told with told; injection told)
  · exact fun p c told => drops p c (by injection told with told; injection told)

theorem quiet_act (tidy : n.Tidy) (quiet : quietly deed = true) (performed : n.perform hash turn deed = .ok n') :
    n.Acts name handled sides deed n' := by
  obtain ⟨fed,_,_⟩ := perform_ok performed
  obtain ⟨asks,_,shakes⟩ := fed.shakes tidy.named (quiet_mild quiet) name
  obtain ⟨issued,told,dials⟩ := quiet_issues quiet performed
  obtain ⟨unasked,unclosed,unheard⟩ := quiet_item quiet
  refine act_of shakes told ?_ ?_ nofun nofun nofun ?_ live holds ?_ behind sides
  · exact fun ask is => (unasked ask is).elim
  · exact fun p c asked => (dials.silent _ asked p c rfl).elim
  · exact fun p c arrived => (unheard p c _ arrived).elim
  · exact fun p c closed => (unclosed p c closed).elim

theorem relay_act {ask : Ask PeerId ConnectionId} (is : deed.item = some (.ask ask))
    (performed : n.perform hash turn deed = .ok n') : n.Acts name handled sides deed n' := by
  cases deed with
  | command command =>
      obtain ⟨issued,told,same,relayed⟩ := relay_issues ask (Option.some.inj is) performed
      have shakes : Shakes name n.inside [] [] n'.inside := same ▸ .refl name _
      refine act_of shakes told ?_ ?_ nofun nofun nofun ?_ live holds ?_ behind sides
      · intro given taken other
        rw [is] at taken
        cases taken
        rcases relayed with ⟨rfl,_⟩ | same
        · exact (other rfl).elim
        · rw [same]
          exact List.mem_singleton_self _
      · intro p c asked
        rcases relayed with ⟨_,dials⟩ | same
        · exact (dials.silent _ asked p c rfl).elim
        · rw [same] at asked
          rw [is,List.mem_singleton.mp asked]
      · intro p c arrived
        rw [is] at arrived
        cases arrived
      · intro p c closed
        rw [is] at closed
        cases closed
  | _ => cases is

end

-- Whatever a network does that goes smoothly is an act of its node.
theorem perform_act (tidy : n.Tidy) (booked : n.muxer.Booked past) (live : n.Live) (sole : n.Sole name)
    (admitted : ∀ event ∈ deed.event, admits past event = true)
    (foreign : ∀ notice p c, deed.item = some (.notice notice) → notice.about = some (p,c) → p ≠ n.this.peerId)
    (smooth : quietly deed = false → n.smooth hash name turn deed = true) (performed : n.perform hash turn deed = .ok n')
    {handled : Nat} (behind : handled ≤ n.runloop.length) (sides : ConnectionId → Option (Side PeerId ConnectionId)) :
    n.Acts name handled sides deed n' := by
  have live' := (live_step live tidy.named booked admitted performed).1
  obtain ⟨_,follows,_⟩ := perform_ok performed
  have holds : ∀ p c, n.muxer.resolveTopic p c = some name →
      n'.muxer.resolveTopic p c = some name ∨ deed.item = some (.notice (.closed p c)) := by
    intro p c resolved
    by_cases closing : deed.event = some (.connectionClosed p c)
    · rw [event_some closing]
      exact .inr rfl
    · exact .inl (booked.keeps admitted follows resolved closing)
  cases quiet : quietly deed with
  | true => exact quiet_act behind sides live' holds tidy quiet performed
  | false =>
      cases deed with
      | command command =>
          cases is : command.item with
          | ask ask => exact relay_act behind sides live' holds (congrArg some is) performed
          | notice notice =>
              cases command with
              | injectEvent event =>
                  cases event with
                  | localAddressDiscovered addr => cases quiet
                  | connectionEstablished peer dialer connection =>
                      cases dialer with
                      | false => cases quiet
                      | true =>
                          obtain ⟨asks,issued,answers⟩ := connected_answers tidy sole (smooth quiet) (foreign _ _ _ rfl rfl)
                            performed
                          exact answers_act behind sides live' holds rfl answers fun p c => nofun
                  | connectionClosed peer connection =>
                      obtain ⟨events,asks,answers⟩ := closed_answers tidy sole (smooth quiet) performed
                      refine answers_act behind sides live' holds rfl answers ?_
                      intro p c told
                      cases told
                      rw [Muxer.resolve_same follows,Muxer.resolve_disconnect,if_pos ⟨rfl,rfl⟩]
                      exact nofun
                  | messageReceived sender connection msg =>
                      obtain ⟨events,asks,issued,answers⟩ := message_answers tidy booked.neat sole (smooth quiet)
                        (foreign _ _ _ rfl rfl) performed
                      exact answers_act behind sides live' holds rfl answers fun p c => nofun
              | _ => cases is
      | _ => cases quiet

end Network
end AnomaAlpha
