import AnomaAlpha.Topic

namespace AnomaAlpha
open Fallible OrderedMap

-- What membership is about: the linked peers, those that could replace a link,
-- and those with which a link was begun. The first three parts never change.
structure Overlay where
  topicConfig : TopicConfig
  networkConfig : NetworkConfig
  this : PeerId
  delivered : List Bytes
  active : HashMap PeerId (ConnectionId × HashSet Multiaddr)
  passive : HashMap PeerId (HashSet Multiaddr)
  courted : ExpiringSet PeerId

-- Who may be linked over which connection, who may be courted, who may be learnt
-- of beside given links, and what may be delivered.
structure Rules where
  link : PeerId → ConnectionId → Prop
  court : PeerId → Prop
  learn : HashMap PeerId (ConnectionId × HashSet Multiaddr) → PeerId → Prop
  deliver : Bytes → Prop

inductive Move (rules : Rules) : Overlay → Overlay → Prop where
  | link : rules.link peer connection → peer ∉ o.active → peer ≠ o.this →
      Move rules o {o with active := o.active.insert peer (connection,addresses), passive := o.passive.erase peer}
  | leave : Move rules o {o with active := o.active.erase peer}
  | demote : peer ∈ o.active →
      Move rules o {o with active := o.active.erase peer, passive := o.passive.insert peer addresses}
  | learn : rules.learn o.active peer → Move rules o {o with passive := o.passive.insert peer addresses}
  | forget (peer : PeerId) : Move rules o {o with passive := o.passive.erase peer}
  | resample : (∀ peer ∈ view, peer ∈ o.passive ∨ rules.learn o.active peer) → Move rules o {o with passive := view}
  | court : rules.court peer → Move rules o {o with courted := (o.courted.insert now peer).2}
  | settle : Move rules o {o with courted := (o.courted.remove now peer).2}
  | prune : Move rules o {o with courted := o.courted.pruneExpired now}
  | deliver : rules.deliver bytes → Move rules o {o with delivered := o.delivered ++ [bytes]}

inductive Moves (rules : Rules) : Overlay → Overlay → Prop where
  | refl : Moves rules o o
  | step : Moves rules o o' → Move rules o' o'' → Moves rules o o''

namespace Moves

theorem single (move : Move rules o o') : Moves rules o o' := .step .refl move

theorem trans (first : Moves rules o o') (second : Moves rules o' o'') : Moves rules o o'' := by
  induction second with
  | refl => exact first
  | step _ move ih => exact .step ih move

theorem invariant (P : Overlay → Prop) (kept : ∀ o o', P o → Move rules o o' → P o') (holds : P o)
    (moves : Moves rules o o') : P o' := by
  induction moves with
  | refl => exact holds
  | step _ move ih => exact kept _ _ ih move

theorem frame (moves : Moves rules o o') :
    o'.topicConfig = o.topicConfig ∧ o'.networkConfig = o.networkConfig ∧ o'.this = o.this := by
  refine moves.invariant (fun o' => o'.topicConfig = o.topicConfig ∧ o'.networkConfig = o.networkConfig ∧
    o'.this = o.this) ?_ ⟨rfl,rfl,rfl⟩
  intro before after same move
  cases move <;> exact same

end Moves

namespace TopicInner
variable {rules : Rules} {env : Env} {s s' : TopicInner} {draw : Draw} {peer : AddressablePeer}

def overlay (s : TopicInner) : Overlay :=
  ⟨s.topicConfig,s.networkConfig,s.thisNode.peerId,s.outmsgs,s.activePeers,s.passivePeers,s.pendingNeighbours⟩

theorem overlay_config (same : s'.overlay = s.overlay) : s'.networkConfig = s.networkConfig :=
  congrArg Overlay.networkConfig same

theorem overlay_active (same : s'.overlay = s.overlay) : s'.activePeers = s.activePeers :=
  congrArg Overlay.active same

@[simp] theorem send_overlay (s : TopicInner) (command : Command) : (s.send command).overlay = s.overlay := rfl

@[simp] theorem sendMessage_overlay (s : TopicInner) (peer : PeerId) (connection : ConnectionId) (action : Action) :
    (s.sendMessage peer connection action).overlay = s.overlay := rfl

@[simp] theorem disconnect_overlay (env : Env) (s : TopicInner) (peer : PeerId) (connection : ConnectionId) :
    (s.disconnect env peer connection).overlay = s.overlay := by
  unfold disconnect
  split
  split <;> rfl

@[simp] theorem dialAddr_overlay (env : Env) (s : TopicInner) (addr : Multiaddr) :
    (s.dialAddr env addr).overlay = s.overlay := by
  unfold dialAddr
  split
  · rfl
  · split
    split <;> rfl

theorem foldl_overlay {f : TopicInner → X → TopicInner} (same : ∀ s x, (f s x).overlay = s.overlay) (l : List X)
    (s : TopicInner) : (l.foldl f s).overlay = s.overlay := by
  induction l generalizing s with
  | nil => rfl
  | cons x l ih => rw [List.foldl_cons,ih,same]

theorem foldlM_overlay {X : Type} {f : TopicInner → X → Except TopicPanic TopicInner}
    (same : ∀ s x s', f s x = .ok s' → s'.overlay = s.overlay) {l : List X} (ran : l.foldlM f s = .ok s') :
    s'.overlay = s.overlay :=
  foldlM_invariant (fun s' => s'.overlay = s.overlay) (fun b x c _ kept round => (same b x c round).trans kept) rfl ran

@[simp] theorem dialAll_overlay (env : Env) (s : TopicInner) (addresses : HashSet Multiaddr) :
    (addresses.foldl (dialAddr env) s).overlay = s.overlay := foldl_overlay (dialAddr_overlay env) addresses s

theorem sendAll_overlay (s : TopicInner) (links : List (PeerId × ConnectionId)) (action : Action) :
    (links.foldl (fun s link => s.sendMessage link.1 link.2 action) s).overlay = s.overlay := by
  refine foldl_overlay ?_ links s
  intro s link
  rfl

@[simp] theorem forgetDials_overlay (env : Env) (s : TopicInner) (addresses : HashSet Multiaddr) :
    (addresses.foldl (forgetDial env) s).overlay = s.overlay := by
  refine foldl_overlay ?_ addresses s
  intro s addr
  unfold forgetDial
  split <;> rfl

theorem mem_keys {m : HashMap PeerId V} {peer : PeerId} : peer ∈ m.keys ↔ peer ∈ m := by
  simp [Std.ExtTreeMap.mem_keys]

@[simp] theorem isActive_iff {id : PeerId} : s.isActive id = true ↔ id ∈ s.activePeers :=
  Std.ExtTreeMap.contains_iff_mem

@[simp] theorem isActive_false {id : PeerId} : s.isActive id = false ↔ id ∉ s.activePeers := by
  rw [← isActive_iff,Bool.not_eq_true]

theorem expect_ok {value : Option α} {panic : TopicPanic} : expect value panic = .ok a ↔ value = some a := by
  cases value <;> simp [expect]

-- One spec for every function that writes to the views.

theorem addToPassiveView_cases (added : s.addToPassiveView env draw peer = .ok s') :
    (s' = {s with passivePeers := s.passivePeers.insert peer.peerId peer.addresses} ∧
      (peer.peerId ∈ s.passivePeers ∨ ∃ max, s.networkConfig.maxPassiveViewSize = .ok max ∧
        (s.passivePeers.insert peer.peerId peer.addresses).size ≤ max)) ∨
    ∃ random, random ∈ s.passivePeers.insert peer.peerId peer.addresses ∧
      s' = {s with passivePeers := (s.passivePeers.insert peer.peerId peer.addresses).erase random} := by
  unfold addToPassiveView at added
  dsimp only at added
  split at added
  · rename_i known
    cases added
    exact .inl ⟨rfl,.inl (Std.ExtTreeMap.mem_iff_isSome_getElem?.mpr (by simp [known]))⟩
  · obtain ⟨max,limit,added⟩ := bind_ok.mp added
    split at added
    · obtain ⟨random,chosen,added⟩ := bind_ok.mp added
      cases added
      exact .inr ⟨random,mem_keys.mp (env.dice.choose_mem _ _ _ (expect_ok.mp chosen)),rfl⟩
    · rename_i room
      cases added
      exact .inl ⟨rfl,.inr ⟨max,limit,Nat.not_lt.mp room⟩⟩

theorem addToPassiveView_writes (added : s.addToPassiveView env draw peer = .ok s') :
    ∃ view, s' = {s with passivePeers := view} := by
  rcases addToPassiveView_cases added with ⟨same,_⟩ | ⟨_,_,same⟩ <;> exact ⟨_,same⟩

theorem addToPassiveView_evicts (added : s.addToPassiveView env draw peer = .ok s')
    (filed : Move rules o {s.overlay with passive := s.passivePeers.insert peer.peerId peer.addresses}) :
    Moves rules o s'.overlay := by
  rcases addToPassiveView_cases added with ⟨rfl,_⟩ | ⟨random,_,rfl⟩
  · exact .single filed
  · exact .step (.single filed) (.forget random)

theorem addToPassiveView_moves (added : s.addToPassiveView env draw peer = .ok s')
    (allowed : rules.learn s.activePeers peer.peerId) : Moves rules s.overlay s'.overlay :=
  addToPassiveView_evicts added (.learn allowed)

theorem addToActiveView_moves (allowed : rules.link peer.peerId connection) :
    Moves rules s.overlay (s.addToActiveView peer connection).overlay := by
  unfold addToActiveView
  split
  · exact .refl
  · rename_i inactive
    split
    · exact .refl
    · rename_i other
      refine .single (.link allowed ?_ other)
      simpa [overlay] using inactive

theorem moveActiveToPassive_moves (moved : s.moveActiveToPassive env peerId = .ok s') :
    Moves rules s.overlay s'.overlay := by
  unfold moveActiveToPassive at moved
  split at moved
  · cases moved
    exact .refl
  · rename_i addresses linked
    refine addToPassiveView_evicts moved (.demote ?_)
    exact Std.ExtTreeMap.mem_iff_isSome_getElem?.mpr (by simp [overlay,linked])

theorem tryNeighbouringWith_overlay (env : Env) (s : TopicInner) (peer : AddressablePeer) :
    (s.tryNeighbouringWith env peer).2.overlay = s.overlay ∨
    (s.tryNeighbouringWith env peer).2.overlay =
      {s.overlay with courted := (s.pendingNeighbours.insert env.now peer.peerId).2} := by
  unfold tryNeighbouringWith
  split
  · exact .inl rfl
  · dsimp only
    split
    · exact .inr rfl
    · exact .inr (dialAll_overlay env _ _)

theorem tryNeighbouringWith_moves (allowed : rules.court peer.peerId) :
    Moves rules s.overlay (s.tryNeighbouringWith env peer).2.overlay := by
  rcases tryNeighbouringWith_overlay env s peer with same | courted
  · rw [same]
    exact .refl
  · rw [courted]
    exact .single (.court allowed)

theorem tryNeighbouringWith_active : (s.tryNeighbouringWith env peer).2.activePeers = s.activePeers := by
  rcases tryNeighbouringWith_overlay env s peer with same | courted
  · exact congrArg Overlay.active same
  · exact congrArg Overlay.active courted

theorem tryNeighbouringWith_config : (s.tryNeighbouringWith env peer).2.networkConfig = s.networkConfig := by
  rcases tryNeighbouringWith_overlay env s peer with same | courted
  · exact congrArg Overlay.networkConfig same
  · exact congrArg Overlay.networkConfig courted

theorem candidate_known {candidate : AddressablePeer}
    (drawn : ((env.dice.choose .candidate s.passivePeers.keys).bind fun peer =>
      s.passivePeers[peer]?.map fun addrs => (⟨peer,addrs⟩ : AddressablePeer)) = some candidate) :
    candidate.peerId ∈ s.passivePeers := by
  obtain ⟨peer,chosen,found⟩ := Option.bind_eq_some_iff.mp drawn
  obtain ⟨addresses,_,rfl⟩ := Option.map_eq_some_iff.mp found
  exact mem_keys.mp (env.dice.choose_mem _ _ _ chosen)

theorem tryStabilizeActiveView_cases (stabilized : s.tryStabilizeActiveView env = .ok s') :
    (∃ peer : AddressablePeer, peer.peerId ∈ s.passivePeers ∧ s' = (s.tryNeighbouringWith env peer).2) ∨
    s' = s.topicConfig.bootstrap.foldl (dialAddr env) s ∨ (∃ id connection, s' = s.disconnect env id connection) ∨
    s' = s := by
  unfold tryStabilizeActiveView at stabilized
  split at stabilized
  · split at stabilized
    · rename_i drawn
      cases stabilized
      exact .inl ⟨_,candidate_known drawn,rfl⟩
    · split at stabilized
      · cases stabilized
        exact .inr (.inl rfl)
      · cases stabilized
        exact .inr (.inr (.inr rfl))
  · split at stabilized
    · obtain ⟨id,_,stabilized⟩ := bind_ok.mp stabilized
      obtain ⟨link,_,stabilized⟩ := bind_ok.mp stabilized
      cases stabilized
      exact .inr (.inr (.inl ⟨id,_,rfl⟩))
    · cases stabilized
      exact .inr (.inr (.inr rfl))

theorem tryStabilizeActiveView_moves (stabilized : s.tryStabilizeActiveView env = .ok s')
    (allowed : ∀ id ∈ s.passivePeers, rules.court id) : Moves rules s.overlay s'.overlay := by
  rcases tryStabilizeActiveView_cases stabilized with ⟨peer,known,rfl⟩ | rfl | ⟨id,connection,rfl⟩ | rfl
  · exact tryNeighbouringWith_moves (allowed _ known)
  · rw [dialAll_overlay]
    exact .refl
  · rw [disconnect_overlay]
    exact .refl
  · exact .refl

theorem initiateShuffle_overlay (shuffled : s.initiateShuffle env = .ok s') : s'.overlay = s.overlay := by
  unfold initiateShuffle at shuffled
  dsimp only at shuffled
  split at shuffled
  · cases shuffled
    rfl
  · obtain ⟨size,_,shuffled⟩ := bind_ok.mp shuffled
    split at shuffled
    · cases shuffled
      rfl
    · obtain ⟨peers,_,shuffled⟩ := bind_ok.mp shuffled
      cases shuffled
      rfl

theorem handlePendingNeighbours_moves (allowed : rules.link peer.peerId connection) :
    Moves rules s.overlay (s.handlePendingNeighbours env peer connection).overlay := by
  have settled : Move rules s.overlay
      {s.overlay with courted := (s.pendingNeighbours.remove env.now peer.peerId).2} := .settle
  unfold handlePendingNeighbours
  dsimp only
  split
  · refine Moves.trans ?_ (addToActiveView_moves allowed)
    exact .single settled
  · exact .single settled

@[simp] theorem handleNonPendingConnects_overlay :
    (s.handleNonPendingConnects env peer connection).overlay = s.overlay := by
  unfold handleNonPendingConnects
  split <;> rfl

@[simp] theorem handlePendingShuffleReplies_overlay :
    (s.handlePendingShuffleReplies env peer connection).overlay = s.overlay := by
  unfold handlePendingShuffleReplies
  dsimp only
  split
  · rfl
  · split
    · rfl
    · rw [disconnect_overlay]
      rfl

theorem handlePeerConnected_moves (allowed : rules.link peer.peerId connection) :
    Moves rules s.overlay (s.handlePeerConnected env peer connection).overlay := by
  unfold handlePeerConnected
  dsimp only
  rw [forgetDials_overlay,handlePendingShuffleReplies_overlay]
  rw [← handleNonPendingConnects_overlay (s:=s)]
  exact handlePendingNeighbours_moves allowed

theorem handlePeerDisconnected_moves (handled : s.handlePeerDisconnected env peerId = .ok s') :
    Moves rules s.overlay s'.overlay := by
  unfold handlePeerDisconnected at handled
  obtain ⟨moved,inner,handled⟩ := bind_ok.mp handled
  cases handled
  have moves : Moves rules s.overlay moved.overlay := moveActiveToPassive_moves inner
  exact moves

-- A tick prunes, then perhaps shuffles, then perhaps stabilizes a view that is
-- not full.
theorem handleTick_cases (handled : s.handleTick env = .ok s') : ∃ shuffled : TopicInner,
    (shuffled = s.prune env ∨ (s.prune env).initiateShuffle env = .ok shuffled) ∧
    (s' = shuffled ∨ shuffled.activeViewFull = false ∧ shuffled.tryStabilizeActiveView env = .ok s') := by
  have stabilize : ∀ shuffled : TopicInner,
      (if !shuffled.activeViewFull && shuffled.pendingDials.isEmpty && shuffled.pendingNeighbours.isEmpty then
        shuffled.tryStabilizeActiveView env else .ok shuffled) = .ok s' →
      s' = shuffled ∨ shuffled.activeViewFull = false ∧ shuffled.tryStabilizeActiveView env = .ok s' := by
    intro shuffled handled
    split at handled
    · rename_i roomy
      refine .inr ⟨?_,handled⟩
      simp only [Bool.and_eq_true,Bool.not_eq_true'] at roomy
      exact roomy.1.1
    · cases handled
      exact .inl rfl
  unfold handleTick at handled
  dsimp only at handled
  split at handled
  · obtain ⟨shuffled,shuffle,handled⟩ := bind_ok.mp handled
    exact ⟨shuffled,.inr shuffle,stabilize shuffled handled⟩
  · exact ⟨s.prune env,.inl rfl,stabilize _ handled⟩

theorem handleTick_moves (handled : s.handleTick env = .ok s') (allowed : ∀ id ∈ s.passivePeers, rules.court id) :
    Moves rules s.overlay s'.overlay := by
  obtain ⟨shuffled,before,after⟩ := handleTick_cases handled
  have same : shuffled.overlay = (s.prune env).overlay := by
    rcases before with rfl | shuffle
    · rfl
    · exact initiateShuffle_overlay shuffle
  have pruned : Moves rules s.overlay (s.prune env).overlay := .single .prune
  rw [← same] at pruned
  rcases after with rfl | ⟨_,stabilized⟩
  · exact pruned
  · refine pruned.trans (tryStabilizeActiveView_moves stabilized ?_)
    have passive : shuffled.passivePeers = s.passivePeers := congrArg Overlay.passive same
    rwa [passive]

theorem ban_moves (s : TopicInner) (id : PeerId) : Moves rules s.overlay (s.ban id).overlay := by
  have left : Move rules s.overlay {s.overlay with active := s.activePeers.erase id} := .leave
  exact .step (.single left) (.forget id)

theorem consumeJoin_moves {msg : Join} (consumed : s.consumeJoin env sender msg connection = .ok s')
    (allowed : s.isActive sender = false → sender = msg.node.peerId → rules.court sender ∧ rules.learn s.activePeers sender) :
    Moves rules s.overlay s'.overlay := by
  unfold consumeJoin at consumed
  split at consumed
  · cases consumed
    exact ban_moves s sender
  · rename_i own
    split at consumed
    · cases consumed
      exact .refl
    · rename_i inactive
      obtain rfl : sender = msg.node.peerId := not_not.mp own
      obtain ⟨court,learn⟩ := allowed (by simpa using inactive) rfl
      dsimp only at consumed
      generalize told : ((s.activeLinks env).foldl
        (fun s link => s.sendMessage link.1 link.2 (.forwardJoin ⟨1,msg.node⟩)) s).disconnect env msg.node.peerId
          connection = after at consumed
      have same : after.overlay = s.overlay := by
        rw [← told,disconnect_overlay]
        exact sendAll_overlay s _ _
      have links : after.activePeers = s.activePeers := overlay_active same
      rw [← same]
      split at consumed
      · exact addToPassiveView_moves consumed (links ▸ learn)
      · refine (tryNeighbouringWith_moves court).trans (addToPassiveView_moves consumed ?_)
        rwa [tryNeighbouringWith_active,links]

theorem makeSpace_moves (made : s.makeSpace env = .ok s')
    (allowed : ∀ id ∈ s.activePeers, rules.learn s.activePeers id) :
    Moves rules s.overlay s'.overlay ∧ s'.activePeers = s.activePeers := by
  unfold makeSpace at made
  obtain ⟨random,chosen,made⟩ := bind_ok.mp made
  obtain ⟨link,_,made⟩ := bind_ok.mp made
  obtain ⟨addresses,_,added⟩ := bind_ok.mp made
  have slot : random ∈ s.activePeers := mem_keys.mp (env.dice.choose_mem _ _ _ (expect_ok.mp chosen))
  have same : (s.disconnect env random link.1).overlay = s.overlay := disconnect_overlay env s random link.1
  have links : (s.disconnect env random link.1).activePeers = s.activePeers := congrArg Overlay.active same
  obtain ⟨view,rfl⟩ := addToPassiveView_writes added
  refine ⟨?_,links⟩
  rw [← same]
  refine addToPassiveView_moves added ?_
  rw [links]
  exact allowed random slot

theorem forward_overlay {hop : UInt16} {action : UInt16 → Action}
    (forwarded : s.forward env sender hop action = .ok s') : s'.overlay = s.overlay := by
  unfold forward at forwarded
  refine foldlM_overlay ?_ forwarded
  intro before link after sent
  obtain ⟨next,_,sent⟩ := bind_ok.mp sent
  cases sent
  rfl

@[simp] theorem respond_overlay (env : Env) (s : TopicInner) (origin : AddressablePeer) (reply : ShuffleReply) :
    (s.respond env origin reply).overlay = s.overlay := by
  unfold respond
  split
  · rfl
  · rw [dialAll_overlay]
    rfl

def heeds (s : TopicInner) (sender : PeerId) (msg : ForwardJoin) : Bool :=
  s.isActive sender && sender != msg.node.peerId && msg.node.peerId != s.thisNode.peerId

def crowds (env : Env) (s : TopicInner) (msg : ForwardJoin) : Bool :=
  decide (s.networkConfig.randomWalkLength ≤ msg.hop.toNat) && !s.pendingNeighbours.contains env.now msg.node.peerId &&
    s.activeViewFull

theorem consumeForwardJoin_moves {msg : ForwardJoin} (consumed : s.consumeForwardJoin env sender msg = .ok s')
    (allowed : s.heeds sender msg → rules.court msg.node.peerId ∧ rules.learn s.activePeers msg.node.peerId ∧
      (s.crowds env msg → ∀ id ∈ s.activePeers, rules.learn s.activePeers id)) :
    Moves rules s.overlay s'.overlay := by
  unfold consumeForwardJoin at consumed
  split at consumed
  · cases consumed
    exact .refl
  · rename_i active
    split at consumed
    · cases consumed
      exact .refl
    · rename_i other
      split at consumed
      · cases consumed
        exact .refl
      · rename_i foreign
        obtain ⟨court,learn,space⟩ := allowed (by simpa [heeds,other,foreign] using active)
        obtain ⟨learnt,added,consumed⟩ := bind_ok.mp consumed
        have moves : Moves rules s.overlay learnt.overlay := addToPassiveView_moves added learn
        obtain ⟨view,rfl⟩ := addToPassiveView_writes added
        split at consumed
        · rename_i last
          split at consumed
          · cases consumed
            exact moves
          · rename_i fresh
            split at consumed
            · rename_i full
              obtain ⟨spacious,made,consumed⟩ := bind_ok.mp consumed
              cases consumed
              have crowded : s.crowds env msg := by
                simp only [crowds,Bool.and_eq_true,decide_eq_true_eq,Bool.not_eq_true']
                exact ⟨⟨last,by simpa using fresh⟩,full⟩
              exact (moves.trans (makeSpace_moves made (space crowded)).1).trans (tryNeighbouringWith_moves court)
            · cases consumed
              exact moves.trans (tryNeighbouringWith_moves court)
        · rw [forward_overlay consumed]
          split
          · exact moves
          · exact moves.trans (tryNeighbouringWith_moves court)

theorem consumeNeighbor_moves {msg : Neighbour} (consumed : s.consumeNeighbor env sender msg connection = .ok s')
    (allowed : s.isActive sender = false → sender = msg.peer.peerId → rules.link sender connection) :
    Moves rules s.overlay s'.overlay := by
  unfold consumeNeighbor at consumed
  split at consumed
  · cases consumed
    exact .refl
  · rename_i inactive
    split at consumed
    · cases consumed
      exact ban_moves s sender
    · rename_i own
      obtain rfl : sender = msg.peer.peerId := not_not.mp own
      have link := allowed (by simpa using inactive) rfl
      have accept : ∀ free : TopicInner, free.overlay = s.overlay →
          (if !free.activeViewFull then Except.ok (ε:=TopicPanic) (free.addToActiveView msg.peer connection)
            else .ok (free.disconnect env msg.peer.peerId connection)) = .ok s' → Moves rules s.overlay s'.overlay := by
        intro free same accepted
        rw [← same]
        split at accepted
        · cases accepted
          exact addToActiveView_moves link
        · cases accepted
          rw [disconnect_overlay]
          exact .refl
      split at consumed
      · obtain ⟨random,_,consumed⟩ := bind_ok.mp consumed
        obtain ⟨old,_,consumed⟩ := bind_ok.mp consumed
        exact accept _ (disconnect_overlay env s random old.1) consumed
      · exact accept s rfl consumed

theorem collected_moves {ids : List PeerId} {look : PeerId → Except TopicPanic (PeerId × List Multiaddr)}
    {view : List (PeerId × List Multiaddr)} (collected : ids.mapM look = .ok view)
    (keyed : ∀ id ∈ ids, ∀ entry, look id = .ok entry → entry.1 = id)
    (allowed : ∀ id ∈ ids, id ∈ s.passivePeers ∨ rules.learn s.activePeers id) :
    Move rules s.overlay {s.overlay with passive := Std.ExtTreeMap.ofList view compare} := by
  refine .resample fun id inside => ?_
  have listed : id ∈ view.map Prod.fst := by
    simpa [Std.ExtTreeMap.mem_ofList,List.contains_iff_mem] using inside
  obtain ⟨entry,member,rfl⟩ := List.mem_map.mp listed
  obtain ⟨id,known,found⟩ := (mapM_mem collected entry).mp member
  rw [keyed id known entry found]
  exact allowed id known

theorem consumeShuffle_moves {msg : Shuffle} (consumed : s.consumeShuffle env sender msg = .ok s')
    (allowed : s.isActive sender → ∀ ids, s.shuffledView env msg = .ok ids →
      ∀ id ∈ ids, id ∈ s.passivePeers ∨ rules.learn s.activePeers id) : Moves rules s.overlay s'.overlay := by
  unfold consumeShuffle at consumed
  split at consumed
  · cases consumed
    exact .refl
  · rename_i active
    obtain ⟨reply,_,consumed⟩ := bind_ok.mp consumed
    obtain ⟨ids,drawn,consumed⟩ := bind_ok.mp consumed
    obtain ⟨view,collected,consumed⟩ := bind_ok.mp consumed
    have resampled : Move rules s.overlay {s.overlay with passive := Std.ExtTreeMap.ofList view compare} := by
      refine collected_moves collected ?_ (allowed (by simpa using active) ids drawn)
      intro id _ entry found
      obtain ⟨addresses,_,found⟩ := bind_ok.mp found
      cases found
      rfl
    dsimp only at consumed
    split at consumed
    · rw [forward_overlay consumed,respond_overlay]
      exact .single resampled
    · cases consumed
      rw [respond_overlay]
      exact .single resampled

theorem consumeShuffleReply_moves {msg : ShuffleReply}
    (consumed : s.consumeShuffleReply env sender msg connection = .ok s') : Moves rules s.overlay s'.overlay := by
  unfold consumeShuffleReply at consumed
  obtain ⟨max,_,consumed⟩ := bind_ok.mp consumed
  obtain ⟨view,collected,consumed⟩ := bind_ok.mp consumed
  have resampled : Move rules s.overlay {s.overlay with passive := Std.ExtTreeMap.ofList view compare} := by
    refine collected_moves collected ?_ fun id chosen => .inl ?_
    · intro id _ entry found
      split at found
      · cases found
        rfl
      · obtain ⟨peer,_,found⟩ := bind_ok.mp found
        cases found
        rfl
    · rcases List.mem_append.mp ((env.dice.chooseMultiple_mem _ _ _).subset chosen) with inside | rest
      · exact mem_keys.mp inside
      · exact mem_keys.mp (List.mem_filter.mp rest).1
  dsimp only at consumed
  split at consumed
  · cases consumed
    exact .single resampled
  · cases consumed
    rw [disconnect_overlay]
    exact .single resampled

theorem consumeGossip_moves (allowed : s.isActive sender → rules.deliver bytes) :
    Moves rules s.overlay (s.consumeGossip env sender bytes connection).overlay := by
  unfold consumeGossip
  split
  · rw [disconnect_overlay]
    exact .refl
  · rename_i active
    dsimp only
    have forwarded := sendAll_overlay s ((s.activeLinks env).filter fun link => link.1 ≠ sender) (.gossip bytes)
    generalize ((s.activeLinks env).filter fun link => link.1 ≠ sender).foldl
      (fun s link => s.sendMessage link.1 link.2 (.gossip bytes)) s = after at forwarded
    rw [← forwarded]
    exact .single (.deliver (allowed (by simpa using active)))

-- What the rules have to allow for an event to keep to them.
def Allows (rules : Rules) (s : TopicInner) (env : Env) : TopicEvent → Prop
  | .peerConnected peer connection => rules.link peer.peerId connection
  | .tick => ∀ id ∈ s.passivePeers, rules.court id
  | .messageReceived sender msg connection => match msg.action with
    | .join join => s.isActive sender = false → sender = join.node.peerId →
        rules.court sender ∧ rules.learn s.activePeers sender
    | .forwardJoin flood => s.heeds sender flood → rules.court flood.node.peerId ∧
        rules.learn s.activePeers flood.node.peerId ∧
        (s.crowds env flood → ∀ id ∈ s.activePeers, rules.learn s.activePeers id)
    | .neighbour neighbour => s.isActive sender = false → sender = neighbour.peer.peerId → rules.link sender connection
    | .shuffle shuffle => s.isActive sender → ∀ ids, s.shuffledView env shuffle = .ok ids →
        ∀ id ∈ ids, id ∈ s.passivePeers ∨ rules.learn s.activePeers id
    | .shuffleReply _ => True
    | .gossip bytes => s.isActive sender → rules.deliver bytes
  | _ => True

theorem injectEvent_moves (handled : s.injectEvent env event = .ok s') (allowed : Allows rules s env event) :
    Moves rules s.overlay s'.overlay := by
  cases injectEvent_handled handled with
  | localAddressDiscovered addr => exact .refl
  | peerConnected peer connection => exact handlePeerConnected_moves allowed
  | peerDisconnected peer connection handled => exact handlePeerDisconnected_moves handled
  | tick handled => exact handleTick_moves handled allowed
  | join sender join connection handled => exact consumeJoin_moves handled allowed
  | forwardJoin sender flood connection handled => exact consumeForwardJoin_moves handled allowed
  | neighbour sender neighbour connection handled => exact consumeNeighbor_moves handled allowed
  | shuffle sender shuffle connection handled => exact consumeShuffle_moves handled allowed
  | shuffleReply sender reply connection handled => exact consumeShuffleReply_moves handled
  | gossip sender bytes connection => exact consumeGossip_moves allowed

end TopicInner

end AnomaAlpha
