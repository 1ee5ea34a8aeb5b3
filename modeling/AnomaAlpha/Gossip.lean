import AnomaAlpha.NetworkRuns

namespace AnomaAlpha
open Fallible OrderedMap

namespace TopicInner
variable {s : TopicInner} {env : Env}

theorem sendAll_cmdtx (s : TopicInner) (links : List (PeerId × ConnectionId)) (action : Action) :
    (links.foldl (fun s link => s.sendMessage link.1 link.2 action) s).cmdtx =
      s.cmdtx ++ links.map fun link => .sendMessage link.1 link.2 ⟨s.topicConfig.name,action⟩ := by
  induction links generalizing s with
  | nil => simp
  | cons link links ih =>
      rw [List.foldl_cons,ih,List.map_cons,← List.singleton_append,← List.append_assoc]
      rfl

def links (s : TopicInner) : List (PeerId × ConnectionId) := s.activePeers.toList.map fun entry => (entry.1,entry.2.1)

theorem activeLinks_perm : (s.activeLinks env).Perm s.links := by
  unfold activeLinks links
  refine ((env.dice.order_perm _ _).filterMap _).trans (.of_eq ?_)
  rw [← Std.ExtTreeMap.map_fst_toList_eq_keys,List.filterMap_map,← List.filterMap_eq_map]
  refine List.filterMap_congr fun entry member => ?_
  have found := Std.ExtTreeMap.mem_toList_iff_getElem?_eq_some.mp member
  simp [found]

def onward (env : Env) (s : TopicInner) (sender : PeerId) : List (PeerId × ConnectionId) :=
  (s.activeLinks env).filter fun link => link.1 ≠ sender

theorem consumeGossip_active (env : Env) (bytes : Bytes) (connection : ConnectionId) (active : s.isActive sender) :
    (s.consumeGossip env sender bytes connection).outmsgs = s.outmsgs ++ [bytes] ∧
    (s.consumeGossip env sender bytes connection).cmdtx =
      s.cmdtx ++ (s.onward env sender).map fun link => .sendMessage link.1 link.2 ⟨s.topicConfig.name,.gossip bytes⟩ := by
  have same := congrArg Overlay.delivered (sendAll_overlay s (s.onward env sender) (.gossip bytes))
  unfold consumeGossip
  rw [active]
  exact ⟨congrArg (· ++ [bytes]) same,sendAll_cmdtx s (s.onward env sender) (.gossip bytes)⟩

theorem consumeGossip_inactive (inactive : s.isActive sender = false) :
    (s.consumeGossip env sender bytes connection).outmsgs = s.outmsgs := by
  unfold consumeGossip
  rw [inactive]
  exact congrArg Overlay.delivered (disconnect_overlay env s sender connection)

end TopicInner

-- The memory of the messages over a window.

def Remembers (start interval : Nat) (key : Multihash) (memory : Option (ExpiringSet Multihash)) : Prop :=
  ∃ history since, memory = some history ∧ history.inner.lifespan = interval ∧
    history.inner.data[key]? = some ((),since) ∧ start ≤ since

theorem recalls_remembers (remembers : Remembers start interval key before) (late : start ≤ turn.now)
    (early : turn.now < start + interval) (recalls : Recalls turn before after) : Remembers start interval key after := by
  obtain ⟨history,since,rfl,lifespan,kept,recent⟩ := remembers
  cases recalls with
  | same => exact ⟨history,since,rfl,lifespan,kept,recent⟩
  | @insert other =>
      by_cases same : other = key
      · refine ⟨_,turn.now,rfl,lifespan,?_,late⟩
        simp [ExpiringSet.insert,ExpiringMap.insert,same]
      · refine ⟨_,since,rfl,lifespan,?_,recent⟩
        simp [ExpiringSet.insert,ExpiringMap.insert,same,kept]
  | prune =>
      refine ⟨_,since,rfl,lifespan,?_,recent⟩
      have young : turn.now - since < history.inner.lifespan := by omega
      simp [ExpiringSet.pruneExpired,ExpiringMap.pruneExpired,Std.ExtTreeMap.getElem?_filter,kept,young]

namespace Network
variable {n n' before after : Network} {turn : Turn} {hash : Message → Multihash} {name : TopicName} {bytes : Bytes}
  {start interval : Nat}

theorem remembers_duplicate (remembers : Remembers start interval (hash msg) n.history)
    (early : turn.now < start + interval) : (n.remember turn hash msg).1 = true := by
  obtain ⟨history,since,memory,lifespan,kept,recent⟩ := remembers
  have young : ¬turn.now - since > history.inner.lifespan := by omega
  simp [remember,memory,ExpiringSet.insert,ExpiringMap.insert,ExpiringMap.fresh,kept,young]

theorem duplicate_dropped (remembers : Remembers start interval (hash msg) n.history)
    (early : turn.now < start + interval) (accepted : n.acceptMessage turn hash sender connection msg = .ok n') :
    n'.topics = n.topics := by
  obtain ⟨_,rfl⟩ | ⟨_,_,_,⟨_,rfl⟩ | ⟨fresh,_⟩⟩ := acceptMessage_cases accepted
  · rfl
  · rfl
  · rw [remembers_duplicate remembers early] at fresh
    cases fresh

end Network

def heard (topics : HashMap TopicName TopicInner) (name : TopicName) : List Bytes :=
  (topics[name]?.map TopicInner.outmsgs).getD []

def Spares (name : TopicName) (bytes : Bytes) (before after : HashMap TopicName TopicInner) : Prop :=
  ∃ gained, heard after name = heard before name ++ gained ∧ bytes ∉ gained

namespace Spares
variable {name : TopicName} {bytes : Bytes} {topics : HashMap TopicName TopicInner}

theorem refl : Spares name bytes topics topics := ⟨[],by simp,by simp⟩

theorem trans (first : Spares name bytes a b) (second : Spares name bytes b c) : Spares name bytes a c := by
  obtain ⟨early,grown,absent⟩ := first
  obtain ⟨late,rest,missing⟩ := second
  exact ⟨early ++ late,by rw [rest,grown,List.append_assoc],by simp [absent,missing]⟩

theorem insert {next topic : TopicInner} {other : TopicName} (found : topics[other]? = some topic)
    (grows : other = name → ∃ gained, next.outmsgs = topic.outmsgs ++ gained ∧ bytes ∉ gained) :
    Spares name bytes topics (topics.insert other next) := by
  by_cases same : other = name
  · obtain ⟨gained,grown,absent⟩ := grows same
    subst same
    exact ⟨gained,by simp [heard,found,grown],absent⟩
  · exact ⟨[],by simp [heard,same],by simp⟩

theorem of_fed (other : ∀ event, may name event → TopicInner.content event ≠ some bytes)
    (fed : Fed turn may before after) : Spares name bytes before after := by
  induction fed with
  | refl => exact refl
  | event _ found allowed handled ih =>
      refine ih.trans (insert found ?_)
      intro same
      subst same
      have delivers := TopicInner.injectEvent_delivers handled (other _ allowed)
      exact delivers
  | @join _ _ config _ _ _ absent ih =>
      refine ih.trans ?_
      by_cases same : config.name = name
      · subst same
        exact ⟨[],by simp [heard,absent],by simp⟩
      · exact ⟨[],by simp [heard,same],by simp⟩
  | gossip _ found sent ih =>
      have same := congrArg Overlay.delivered (TopicInner.gossip_overlay sent)
      refine ih.trans (insert found fun _ => ⟨[],?_,by simp⟩)
      rw [List.append_nil]
      exact same

end Spares

namespace Network
variable {n n' : Network} {turn : Turn} {hash : Message → Multihash} {name : TopicName} {bytes : Bytes} {start interval : Nat}

theorem window_step (remembers : Remembers start interval (hash ⟨name,.gossip bytes⟩) n.history)
    (late : start ≤ turn.now) (early : turn.now < start + interval) (stepped : n.step hash turn input = .ok n') :
    Remembers start interval (hash ⟨name,.gossip bytes⟩) n'.history ∧ Spares name bytes n.topics n'.topics := by
  obtain ⟨fed,recalls⟩ := step_fed stepped
  refine ⟨recalls_remembers remembers late early recalls,?_⟩
  by_cases copy : input = .command ∧ ∃ sender connection queue,
      n.commands = .injectEvent (.messageReceived sender connection ⟨name,.gossip bytes⟩) :: queue
  · obtain ⟨rfl,sender,connection,queue,queued⟩ := copy
    unfold step at stepped
    dsimp only at stepped
    rw [queued] at stepped
    have dropped := duplicate_dropped (n:={n with commands := queue}) remembers early stepped
    rw [dropped]
    exact .refl
  · refine .of_fed ?_ fed
    intro event prompted brought
    obtain ⟨sender,topic,connection,rfl⟩ := TopicInner.content_some brought
    obtain ⟨rfl,rfl,queue,queued⟩ := prompts_message prompted
    exact copy ⟨rfl,sender,connection,queue,queued⟩

theorem window_run (remembers : Remembers start interval (hash ⟨name,.gossip bytes⟩) n.history)
    (within : ∀ entry ∈ window, start ≤ entry.1.now ∧ entry.1.now < start + interval)
    (ran : n.run hash window = .ok n') :
    Remembers start interval (hash ⟨name,.gossip bytes⟩) n'.history ∧ Spares name bytes n.topics n'.topics := by
  induction window generalizing n with
  | nil =>
      cases ran
      exact ⟨remembers,.refl⟩
  | cons head window ih =>
      obtain ⟨next,stepped,rest⟩ := bind_ok.mp ran
      obtain ⟨late,early⟩ := within head (by simp)
      obtain ⟨kept,spared⟩ := window_step remembers late early stepped
      obtain ⟨remembered,later⟩ := ih kept (fun entry member => within entry (List.mem_cons_of_mem _ member)) rest
      exact ⟨remembered,spared.trans later⟩

-- A copy that is not remembered and comes over a bound connection is handed to
-- its topic.
theorem first_copy_handled (turn : Turn) (wired : n.Wired (some interval)) (joined : n.topics[name]? = some topic)
    (arrives : n.commands = .injectEvent (.messageReceived sender connection ⟨name,.gossip bytes⟩) :: queue)
    (bound : n.muxer.bound sender connection name)
    (fresh : ∀ history, n.history = some history → history.contains turn.now (hash ⟨name,.gossip bytes⟩) = false) :
    ∃ n', n.step hash turn .command = .ok n' ∧
      n'.topics = n.topics.insert name {topic.consumeGossip (turn.env name) sender bytes connection with cmdtx := []} ∧
      n'.commands = queue ++ (topic.consumeGossip (turn.env name) sender bytes connection).cmdtx ∧
      Remembers turn.now interval (hash ⟨name,.gossip bytes⟩) n'.history := by
  obtain ⟨config,this,runloop,commands,topics,muxer,memory⟩ := n
  have lifespan := wired.window
  cases memory with
  | none => cases lifespan
  | some history =>
      subst arrives
      have kept : history.inner.lifespan = interval := Option.some.inj lifespan
      obtain ⟨named,drained⟩ := wired.named name topic joined
      have handled : (topic.injectEvent (turn.env name) (.messageReceived sender ⟨name,.gossip bytes⟩ connection)).mapError
          NetworkPanic.topic = .ok (topic.consumeGossip (turn.env name) sender bytes connection) := by
        unfold TopicInner.injectEvent TopicInner.handleMessageReceived
        simp [named,Except.mapError]
      have taken : (Network.mk config this runloop queue topics muxer (some history)).acceptMessage turn hash sender
          connection ⟨name,.gossip bytes⟩ =
            (Network.mk config this runloop queue topics muxer
              (some (history.insert turn.now (hash ⟨name,.gossip bytes⟩)).2)).injectTopic turn name topic
                (.messageReceived sender ⟨name,.gossip bytes⟩ connection) := by
        refine (acceptMessage_fresh ?_ ?_).trans ?_
        · exact Std.ExtTreeMap.mem_iff_isSome_getElem?.mpr (by rw [joined]; rfl)
        · exact fresh history rfl
        · rw [remember_writes]
          exact routeMessage_bound (n:=⟨_,_,_,_,_,_,_⟩) bound joined
      refine ⟨putTopic ⟨config,this,runloop,queue,topics,muxer,
        some (history.insert turn.now (hash ⟨name,.gossip bytes⟩)).2⟩ name
          (topic.consumeGossip (turn.env name) sender bytes connection),?_,rfl,rfl,?_⟩
      · refine Eq.trans taken ?_
        unfold injectTopic
        rw [handled]
        rfl
      · refine ⟨_,turn.now,rfl,kept,?_,Nat.le_refl _⟩
        simp [ExpiringSet.insert,ExpiringMap.insert]

-- The step that pushes a copy also forwards it to every active peer but its
-- sender, and sends nothing else.
def Forwards (before after : Network) (name : TopicName) (bytes : Bytes) : Prop :=
  ∃ sender connection queue topic, ∃ links : List (PeerId × ConnectionId),
    before.commands = .injectEvent (.messageReceived sender connection ⟨name,.gossip bytes⟩) :: queue ∧
    before.topics[name]? = some topic ∧
    heard after.topics name = heard before.topics name ++ [bytes] ∧
    links.Perm (topic.links.filter fun link => link.1 ≠ sender) ∧
    after.commands = queue ++ links.map fun link => .sendMessage link.1 link.2 ⟨name,.gossip bytes⟩

structure DeliveredOnce (hash : Message → Multihash) (n : Network) (window : List (Turn × Input)) (name : TopicName)
    (bytes : Bytes) : Prop where
  once : ∀ final, n.run hash window = .ok final →
    ∃ gained, heard final.topics name = heard n.topics name ++ gained ∧ gained.count bytes = 1
  pushed : ∃ front turn back before after, window = front ++ (turn,.command) :: back ∧
    n.run hash front = .ok before ∧ before.step hash turn .command = .ok after ∧ before.Forwards after name bytes

theorem not_spares_pushed {before after : HashMap TopicName TopicInner} (spares : Spares name bytes before after) :
    heard after name ≠ heard before name ++ [bytes] := by
  intro pushed
  obtain ⟨gained,grown,absent⟩ := spares
  rw [pushed] at grown
  have same := List.append_cancel_left grown
  simp [← same] at absent

theorem gossip_delivered_once_iff (interval : Nat) {past rest : List (Turn × Input)} {config : NetworkConfig}
    (dedupes : config.dedupeInterval = some interval) (reached : (new config peerId).run hash past = .ok n)
    (joined : n.topics[name]? = some topic)
    (arrives : n.commands = .injectEvent (.messageReceived sender connection ⟨name,.gossip bytes⟩) :: queue)
    (bound : n.muxer.bound sender connection name)
    (fresh : ∀ history, n.history = some history → history.contains turn.now (hash ⟨name,.gossip bytes⟩) = false)
    (within : ∀ entry ∈ rest, turn.now ≤ entry.1.now ∧ entry.1.now < turn.now + interval) :
    DeliveredOnce hash n ((turn,.command) :: rest) name bytes ↔ topic.isActive sender := by
  have wired : n.Wired (some interval) := dedupes ▸ run_wired (new_wired config peerId) reached
  obtain ⟨named,drained⟩ := wired.named name topic joined
  obtain ⟨next,stepped,topics,commands,remembers⟩ := first_copy_handled turn wired joined arrives bound fresh
  have later : ∀ final, n.run hash ((turn,.command) :: rest) = .ok final → Spares name bytes next.topics final.topics := by
    intro final ran
    obtain ⟨middle,first,ran⟩ := bind_ok.mp ran
    obtain rfl := Except.ok.inj (stepped.symm.trans first)
    exact (window_run remembers within ran).2
  constructor
  · -- An inactive sender leaves the whole window without a push.
    intro delivered
    by_contra silent
    have inactive : topic.isActive sender = false := by simpa using silent
    have first : Spares name bytes n.topics next.topics := by
      rw [topics]
      refine .insert joined fun _ => ⟨[],?_,by simp⟩
      rw [List.append_nil]
      exact TopicInner.consumeGossip_inactive inactive
    obtain ⟨front,turn',back,before,after,window,ran,push,forwards⟩ := delivered.pushed
    obtain ⟨_,_,_,_,_,_,_,pushed,_,_⟩ := forwards
    cases front with
    | nil =>
        cases ran
        obtain ⟨same,_⟩ := Prod.mk.inj (List.cons.inj window).1
        rw [← same] at push
        obtain rfl := Except.ok.inj (stepped.symm.trans push)
        exact not_spares_pushed first pushed
    | cons head front =>
        obtain ⟨same,tail⟩ := List.cons.inj window
        subst same
        obtain ⟨middle,start,ran⟩ := bind_ok.mp ran
        obtain rfl := Except.ok.inj (stepped.symm.trans start)
        have early := fun entry member => within entry (tail ▸ List.mem_append_left _ member)
        obtain ⟨remembered,_⟩ := window_run remembers early ran
        obtain ⟨late,soon⟩ := within (turn',.command) (tail ▸ by simp)
        exact not_spares_pushed (window_step remembered late soon push).2 pushed
  · intro active
    obtain ⟨outmsgs,cmdtx⟩ := TopicInner.consumeGossip_active (turn.env name) bytes connection active
    have pushed : heard next.topics name = heard n.topics name ++ [bytes] := by
      simp [heard,topics,joined,outmsgs]
    refine ⟨?_,[],turn,rest,n,next,rfl,rfl,stepped,sender,connection,queue,topic,
      topic.onward (turn.env name) sender,arrives,joined,pushed,TopicInner.activeLinks_perm.filter _,?_⟩
    · intro final ran
      obtain ⟨gained,grown,absent⟩ := later final ran
      refine ⟨bytes :: gained,?_,?_⟩
      · rw [grown,pushed,List.append_assoc]
        rfl
      · simp [List.count_eq_zero_of_not_mem absent]
    · rw [commands,cmdtx,drained,named]
      rfl

theorem linked_copy_delivered : ∃ n, NetworkExample.start.run NetworkExample.hash (NetworkExample.tells 1 2) = .ok n ∧
    DeliveredOnce NetworkExample.hash n NetworkExample.window "topic" [7] := by
  obtain ⟨n,ran,facts⟩ := run_ends NetworkExample.hash NetworkExample.start (NetworkExample.tells 1 2)
    (fun n => NetworkExample.copyArrives n 1000 1 && NetworkExample.linked n 1 = some true) (by decide)
  simp only [NetworkExample.copyArrives,Bool.and_eq_true,decide_eq_true_eq] at facts
  obtain ⟨⟨⟨queued,bound⟩,fresh⟩,linked⟩ := facts
  obtain ⟨queue,arrives⟩ := List.head?_eq_some_iff.mp queued
  obtain ⟨topic,joined,active⟩ := Option.map_eq_some_iff.mp linked
  refine ⟨n,ran,(gossip_delivered_once_iff 5000 rfl ran joined arrives bound ?_ (by decide)).mpr active⟩
  intro history kept
  have forgotten : history.contains 1000 (NetworkExample.hash NetworkExample.gossip) = false := by simpa [kept] using fresh
  exact forgotten

-- The first copy comes from a peer that is not linked, the second from one that
-- is.
theorem unlinked_copy_drops_gossip : ∃ n middle final,
    NetworkExample.start.run NetworkExample.hash (NetworkExample.tells 2 1) = .ok n ∧
    NetworkExample.copyArrives n 1000 2 ∧ n.step NetworkExample.hash (.first 1000) .command = .ok middle ∧
    middle.commands.head? = some (.injectEvent (NetworkExample.arrival 1 NetworkExample.gossip)) ∧
    middle.muxer.bound (TopicExample.peer 1).peerId 1 "topic" ∧ NetworkExample.linked middle 1 = some true ∧
    n.run NetworkExample.hash NetworkExample.window = .ok final ∧ heard final.topics "topic" = [] ∧
    ¬DeliveredOnce NetworkExample.hash n NetworkExample.window "topic" [7] := by
  obtain ⟨n,ran,facts⟩ := run_ends NetworkExample.hash NetworkExample.start (NetworkExample.tells 2 1)
    (fun n => NetworkExample.copyArrives n 1000 2 &&
      (n.step NetworkExample.hash (.first 1000) .command).toOption.any fun middle =>
        middle.commands.head? = some (.injectEvent (NetworkExample.arrival 1 NetworkExample.gossip)) &&
          middle.muxer.bound (TopicExample.peer 1).peerId 1 "topic" && NetworkExample.linked middle 1 = some true &&
          (middle.run NetworkExample.hash [(.first 2000,.command)]).toOption.any fun final =>
            heard final.topics "topic" = []) (by decide)
  simp only [Bool.and_eq_true] at facts
  obtain ⟨arrives,facts⟩ := facts
  cases first : n.step NetworkExample.hash (.first 1000) .command with
  | error panic =>
      rw [first] at facts
      cases facts
  | ok middle =>
      rw [first] at facts
      simp only [Except.toOption,Option.any_some,Bool.and_eq_true,decide_eq_true_eq] at facts
      obtain ⟨⟨⟨queued,bound⟩,linked⟩,ends⟩ := facts
      obtain ⟨final,second,silent⟩ := run_ends NetworkExample.hash middle [(.first 2000,.command)] _ ends
      have whole : n.run NetworkExample.hash NetworkExample.window = .ok final := bind_ok.mpr ⟨middle,first,second⟩
      have silent : heard final.topics "topic" = [] := of_decide_eq_true silent
      refine ⟨n,middle,final,ran,arrives,first,queued,bound,linked,whole,silent,?_⟩
      intro delivered
      obtain ⟨gained,grown,one⟩ := delivered.once final whole
      rw [silent] at grown
      obtain ⟨_,rfl⟩ := List.append_eq_nil_iff.mp grown.symm
      cases one

end Network

end AnomaAlpha
