import AnomaAlpha.ViewInvariants

namespace AnomaAlpha
open Fallible OrderedMap

-- A view has a slot, the sizes fit in a `usize`, and a hop in a `u16`.
structure NetworkConfig.Sound (c : NetworkConfig) : Prop where
  slot : 1 ≤ c.optimalActiveViewSize
  fits : c.optimalActiveViewSize * c.passiveViewFactor < 2^64
  walk : c.randomWalkLength < 2^16

namespace NetworkConfig

theorem maxPassiveViewSize_total {c : NetworkConfig} (sound : c.Sound) :
    c.maxPassiveViewSize = .ok (c.optimalActiveViewSize * c.passiveViewFactor) := by
  unfold maxPassiveViewSize
  rw [if_pos sound.fits]

theorem shuffleSampleSize_total {c : NetworkConfig} (sound : c.Sound) : ∃ size, c.shuffleSampleSize = .ok size := by
  unfold shuffleSampleSize
  rw [maxPassiveViewSize_total sound]
  exact ⟨_,rfl⟩

end NetworkConfig

namespace TopicInner
variable {s s' : TopicInner} {env : Env} {draw : Draw}

-- What the `expect`s rely on.

theorem choose_total (panic : TopicPanic) (filled : ids ≠ []) :
    ∃ id, expect (env.dice.choose draw ids) panic = .ok id := by
  cases chosen : env.dice.choose draw ids with
  | none => exact absurd chosen (env.dice.choose_some draw ids filled)
  | some id => exact ⟨id,rfl⟩

theorem chosen_inside {m : HashMap PeerId V} {panic : TopicPanic} {id : PeerId}
    (chosen : expect (env.dice.choose draw m.keys) panic = .ok id) : id ∈ m :=
  mem_keys.mp (env.dice.choose_mem draw _ _ (expect_ok.mp chosen))

theorem found_inside {m : HashMap PeerId V} {id : PeerId} (inside : id ∈ m) : ∃ value, m[id]? = some value :=
  Option.isSome_iff_exists.mp (Std.ExtTreeMap.mem_iff_isSome_getElem?.mp inside)

theorem lookup_total {m : HashMap PeerId V} {id : PeerId} (panic : TopicPanic) (inside : id ∈ m) :
    ∃ value, expect m[id]? panic = .ok value := by
  obtain ⟨value,found⟩ := found_inside inside
  exact ⟨value,expect_ok.mpr found⟩

theorem keys_filled {m : HashMap PeerId V} (filled : 0 < m.size) : m.keys ≠ [] := by
  intro none
  have length : m.keys.length = m.size := Std.ExtTreeMap.length_keys
  rw [none,List.length_nil] at length
  omega

theorem full_filled (sound : s.networkConfig.Sound) (full : s.activeViewFull) : s.activePeers.keys ≠ [] := by
  unfold activeViewFull at full
  have enough := of_decide_eq_true full
  exact keys_filled (Nat.lt_of_lt_of_le sound.slot enough)

theorem nextHop_total {hop : UInt16} {bound : Nat} (short : hop.toNat < bound) (fits : bound < 2^16) :
    ∃ next, nextHop hop = .ok next := by
  unfold nextHop
  rw [if_pos (by omega)]
  exact ⟨_,rfl⟩

theorem localPeer_addresses {id : PeerId} (known : id ∈ s.activePeers.keys ++ s.passivePeers.keys) :
    ∃ addresses, (s.activePeers[id]?.map Prod.snd).or s.passivePeers[id]? = some addresses := by
  rcases List.mem_append.mp known with active | passive
  · obtain ⟨link,found⟩ := found_inside (mem_keys.mp active)
    exact ⟨link.2,by rw [found]; rfl⟩
  · obtain ⟨addresses,found⟩ := found_inside (mem_keys.mp passive)
    cases linked : s.activePeers[id]? with
    | none => exact ⟨addresses,by rw [found]; rfl⟩
    | some link => exact ⟨link.2,rfl⟩

theorem forward_total {action : UInt16 → Action} {hop : UInt16} {bound : Nat} (short : hop.toNat < bound)
    (fits : bound < 2^16) : ∃ s', s.forward env sender hop action = .ok s' :=
  foldlM_total fun _ _ _ => bind_total (nextHop_total short fits) fun _ _ => ⟨_,rfl⟩

theorem addToPassiveView_total {peer : AddressablePeer} (sound : s.networkConfig.Sound) :
    ∃ s', s.addToPassiveView env draw peer = .ok s' := by
  unfold addToPassiveView
  dsimp only
  split
  · exact ⟨_,rfl⟩
  · refine bind_total ⟨_,NetworkConfig.maxPassiveViewSize_total sound⟩ ?_
    intro max _
    split
    · rename_i crowded
      exact bind_total (choose_total .emptyView (keys_filled (Nat.zero_lt_of_lt crowded))) fun _ _ => ⟨_,rfl⟩
    · exact ⟨_,rfl⟩

theorem moveActiveToPassive_total (sound : s.networkConfig.Sound) : ∃ s', s.moveActiveToPassive env peer = .ok s' := by
  unfold moveActiveToPassive
  split
  · exact ⟨_,rfl⟩
  · exact addToPassiveView_total sound

theorem tryStabilizeActiveView_total : ∃ s', s.tryStabilizeActiveView env = .ok s' := by
  unfold tryStabilizeActiveView
  split
  · split
    · exact ⟨_,rfl⟩
    · split <;> exact ⟨_,rfl⟩
  · split
    · rename_i surplus
      simp only [activeViewOverconnected,Bool.and_eq_true,decide_eq_true_eq] at surplus
      refine bind_total (choose_total .emptyView (keys_filled (Nat.zero_lt_of_lt surplus.1))) ?_
      intro peer chosen
      exact bind_total (lookup_total .emptyView (chosen_inside chosen)) fun _ _ => ⟨_,rfl⟩
    · exact ⟨_,rfl⟩

theorem initiateShuffle_total (sound : s.networkConfig.Sound) : ∃ s', s.initiateShuffle env = .ok s' := by
  unfold initiateShuffle
  dsimp only
  split
  · exact ⟨_,rfl⟩
  · refine bind_total (NetworkConfig.shuffleSampleSize_total sound) ?_
    intro size _
    split
    · exact ⟨_,rfl⟩
    · refine bind_total (mapM_total ?_) fun _ _ => ⟨_,rfl⟩
      intro id sampled
      obtain ⟨addresses,found⟩ := localPeer_addresses ((env.dice.chooseMultiple_mem _ _ _).subset sampled)
      exact bind_total ⟨addresses,expect_ok.mpr found⟩ fun _ _ => ⟨_,rfl⟩

theorem handlePeerDisconnected_total (sound : s.networkConfig.Sound) :
    ∃ s', s.handlePeerDisconnected env peer = .ok s' := by
  unfold handlePeerDisconnected
  exact bind_total (moveActiveToPassive_total sound) fun _ _ => ⟨_,rfl⟩

theorem handleTick_total (sound : s.networkConfig.Sound) : ∃ s', s.handleTick env = .ok s' := by
  have stabilize : ∀ shuffled : TopicInner,
      ∃ s', (if !shuffled.activeViewFull && shuffled.pendingDials.isEmpty && shuffled.pendingNeighbours.isEmpty then
        shuffled.tryStabilizeActiveView env else .ok shuffled) = .ok s' := by
    intro shuffled
    split
    · exact tryStabilizeActiveView_total
    · exact ⟨_,rfl⟩
  unfold handleTick
  dsimp only
  split
  · exact bind_total (initiateShuffle_total sound) fun shuffled _ => stabilize shuffled
  · exact stabilize (s.prune env)

theorem consumeJoin_total {msg : Join} (sound : s.networkConfig.Sound) :
    ∃ s', s.consumeJoin env sender msg connection = .ok s' := by
  unfold consumeJoin
  split
  · exact ⟨_,rfl⟩
  · split
    · exact ⟨_,rfl⟩
    · dsimp only
      refine addToPassiveView_total ?_
      have told := sendAll_overlay s (s.activeLinks env) (.forwardJoin ⟨1,msg.node⟩)
      rw [← disconnect_overlay env _ sender connection] at told
      have config := overlay_config told
      rw [← config] at sound
      split
      · exact sound
      · rw [tryNeighbouringWith_config]
        exact sound

theorem makeSpace_total (sound : s.networkConfig.Sound) (full : s.activeViewFull) : ∃ s', s.makeSpace env = .ok s' := by
  unfold makeSpace
  refine bind_total (choose_total .emptyView (full_filled sound full)) ?_
  intro random chosen
  have linked := chosen_inside chosen
  refine bind_total (lookup_total .emptyView linked) ?_
  intro link _
  have same := disconnect_overlay env s random link.1
  refine bind_total ?_ fun _ _ => addToPassiveView_total (overlay_config same ▸ sound)
  obtain ⟨addresses,found⟩ := found_inside linked
  refine ⟨addresses.2,expect_ok.mpr ?_⟩
  rw [overlay_active same,found]
  rfl

theorem consumeForwardJoin_total {msg : ForwardJoin} (sound : s.networkConfig.Sound) :
    ∃ s', s.consumeForwardJoin env sender msg = .ok s' := by
  unfold consumeForwardJoin
  split
  · exact ⟨_,rfl⟩
  · split
    · exact ⟨_,rfl⟩
    · split
      · exact ⟨_,rfl⟩
      · refine bind_total (addToPassiveView_total sound) ?_
        intro learnt added
        obtain ⟨view,rfl⟩ := addToPassiveView_writes added
        split
        · split
          · exact ⟨_,rfl⟩
          · split
            · rename_i full
              exact bind_total (makeSpace_total sound full) fun _ _ => ⟨_,rfl⟩
            · exact ⟨_,rfl⟩
        · rename_i short
          exact forward_total (Nat.not_le.mp short) sound.walk

theorem consumeNeighbor_total {msg : Neighbour} (sound : s.networkConfig.Sound) :
    ∃ s', s.consumeNeighbor env sender msg connection = .ok s' := by
  have accept : ∀ free : TopicInner, ∃ s',
      (if !free.activeViewFull then Except.ok (ε:=TopicPanic) (free.addToActiveView msg.peer connection)
        else .ok (free.disconnect env sender connection)) = .ok s' := by
    intro free
    split <;> exact ⟨_,rfl⟩
  unfold consumeNeighbor
  split
  · exact ⟨_,rfl⟩
  · split
    · exact ⟨_,rfl⟩
    · split
      · rename_i crowded
        rw [Bool.and_eq_true] at crowded
        refine bind_total (choose_total .emptyView (full_filled sound crowded.1)) ?_
        intro random chosen
        exact bind_total (lookup_total .emptyView (chosen_inside chosen)) fun _ _ => accept _
      · exact accept s

theorem collectPeerAddrs_total {peers : HashSet AddressablePeer} {id : PeerId}
    (known : id ∈ s.localPeerIds ∨ id ∈ peers.map AddressablePeer.peerId) :
    ∃ addresses, s.collectPeerAddrs peers id = .ok addresses := by
  unfold collectPeerAddrs
  split
  · exact ⟨_,rfl⟩
  · exact ⟨_,rfl⟩
  · rename_i passive active
    have listed : id ∈ peers.map AddressablePeer.peerId := by
      refine known.resolve_left fun here => ?_
      obtain ⟨addresses,found⟩ := localPeer_addresses (List.mem_dedup.mp here)
      rw [active,passive] at found
      cases found
    obtain ⟨peer,member,same⟩ := List.mem_map.mp listed
    cases looked : lookupPeer peers id with
    | none =>
        unfold lookupPeer at looked
        have absent := List.find?_eq_none.mp looked peer member
        exact absurd (beq_iff_eq.mpr same) absent
    | some peer => exact ⟨peer.addresses,rfl⟩

theorem answerShuffle_total {msg : Shuffle} (sound : s.networkConfig.Sound) :
    ∃ reply, s.answerShuffle env msg = .ok reply := by
  unfold answerShuffle
  refine bind_total (NetworkConfig.shuffleSampleSize_total sound) ?_
  intro size _
  refine bind_total (mapM_total ?_) fun _ _ => ⟨_,rfl⟩
  intro id ordered
  have here := (List.mem_filter.mp ((env.dice.order_perm _ _).mem_iff.mp ordered)).1
  exact bind_total (collectPeerAddrs_total (.inl here)) fun _ _ => ⟨_,rfl⟩

theorem shuffledView_total {msg : Shuffle} (sound : s.networkConfig.Sound) :
    ∃ ids, s.shuffledView env msg = .ok ids := by
  unfold shuffledView
  refine bind_total (NetworkConfig.shuffleSampleSize_total sound) ?_
  intro size _
  exact bind_total ⟨_,NetworkConfig.maxPassiveViewSize_total sound⟩ fun _ _ => ⟨_,rfl⟩

theorem shuffledView_known {msg : Shuffle} (drawn : s.shuffledView env msg = .ok ids) :
    ∀ id ∈ ids, id ∈ s.localPeerIds ∨ id ∈ msg.peers.map AddressablePeer.peerId := by
  unfold shuffledView at drawn
  obtain ⟨size,_,drawn⟩ := bind_ok.mp drawn
  obtain ⟨max,_,drawn⟩ := bind_ok.mp drawn
  cases drawn
  intro id member
  rcases List.mem_append.mp ((env.dice.chooseMultiple_mem _ _ _).subset member) with here | new
  · exact .inl here
  · have received := List.mem_dedup.mp (List.mem_filter.mp new).1
    exact .inr ((env.dice.chooseMultiple_mem _ _ _).subset received)

theorem consumeShuffle_total {msg : Shuffle} (sound : s.networkConfig.Sound) :
    ∃ s', s.consumeShuffle env sender msg = .ok s' := by
  unfold consumeShuffle
  split
  · exact ⟨_,rfl⟩
  · refine bind_total (answerShuffle_total sound) ?_
    intro reply _
    refine bind_total (shuffledView_total sound) ?_
    intro ids drawn
    refine bind_total (mapM_total ?_) ?_
    · intro id member
      exact bind_total (collectPeerAddrs_total (shuffledView_known drawn id member)) fun _ _ => ⟨_,rfl⟩
    · intro view _
      dsimp only
      split
      · rename_i short
        refine forward_total short ?_
        rw [overlay_config (respond_overlay env _ msg.origin reply)]
        exact sound.walk
      · exact ⟨_,rfl⟩

theorem consumeShuffleReply_total {msg : ShuffleReply} (sound : s.networkConfig.Sound) :
    ∃ s', s.consumeShuffleReply env sender msg connection = .ok s' := by
  unfold consumeShuffleReply
  refine bind_total ⟨_,NetworkConfig.maxPassiveViewSize_total sound⟩ ?_
  intro max _
  refine bind_total (mapM_total ?_) ?_
  · intro id drawn
    have passive : id ∈ s.passivePeers := by
      rcases List.mem_append.mp ((env.dice.chooseMultiple_mem _ _ _).subset drawn) with inside | rest
      · exact mem_keys.mp inside
      · exact mem_keys.mp (List.mem_filter.mp rest).1
    obtain ⟨addresses,found⟩ := found_inside passive
    exact ⟨(id,addresses),by rw [found]⟩
  · intro view _
    dsimp only
    split <;> exact ⟨_,rfl⟩

def onTopic (name : String) : TopicEvent → Bool
  | .messageReceived _ msg _ => msg.topic = name
  | _ => true

theorem injectEvent_total (sound : s.networkConfig.Sound) (named : onTopic s.topicConfig.name event) :
    ∃ s', s.injectEvent env event = .ok s' := by
  cases event with
  | localAddressDiscovered addr => exact ⟨_,rfl⟩
  | peerConnected peer connection => exact ⟨_,rfl⟩
  | peerDisconnected peer connection => exact handlePeerDisconnected_total sound
  | tick => exact handleTick_total sound
  | messageReceived sender msg connection =>
      obtain ⟨topic,action⟩ := msg
      unfold injectEvent handleMessageReceived
      dsimp only
      rw [if_neg (not_not.mpr (of_decide_eq_true named))]
      cases action with
      | join join => exact consumeJoin_total sound
      | forwardJoin flood => exact consumeForwardJoin_total sound
      | neighbour neighbour => exact consumeNeighbor_total sound
      | shuffle shuffle => exact consumeShuffle_total sound
      | shuffleReply reply => exact consumeShuffleReply_total sound
      | gossip bytes => exact ⟨_,rfl⟩

theorem run_total (sound : s.networkConfig.Sound) (named : ∀ entry ∈ events, onTopic s.topicConfig.name entry.2) :
    ∃ final, s.run events = .ok final := by
  induction events generalizing s with
  | nil => exact ⟨s,rfl⟩
  | cons head events ih =>
      unfold run
      refine bind_total (injectEvent_total sound (named head (by simp))) ?_
      intro next handled
      obtain ⟨topic,config⟩ := injectEvent_config handled
      refine ih (config ▸ sound) ?_
      rw [topic]
      exact fun entry member => named entry (List.mem_cons_of_mem _ member)

theorem topic_never_panics (now : Nat) (topicConfig : TopicConfig) (networkConfig : NetworkConfig)
    (thisNode : AddressablePeer) (events : List (Env × TopicEvent)) (sound : networkConfig.Sound)
    (named : ∀ entry ∈ events, onTopic topicConfig.name entry.2) :
    ∃ final, (new now topicConfig networkConfig thisNode).run events = .ok final := by
  refine run_total ?_ ?_
  · rw [new_networkConfig]
    exact sound
  · rw [new_topicConfig]
    exact named

theorem visits_never_panic : ∃ final, TopicExample.topic.run TopicExample.visits = .ok final :=
  topic_never_panics 0 ⟨"topic",[]⟩ TopicExample.config (TopicExample.peer 0) TopicExample.visits
    ⟨by decide,by decide,by decide⟩ (by decide)

end TopicInner

end AnomaAlpha
