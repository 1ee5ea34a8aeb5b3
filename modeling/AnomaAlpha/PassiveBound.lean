import AnomaAlpha.ViewInvariants

namespace AnomaAlpha
open Fallible OrderedMap

def Overlay.Fits (o : Overlay) : Prop :=
  o.passive.size ≤ o.networkConfig.optimalActiveViewSize * o.networkConfig.passiveViewFactor

theorem NetworkConfig.maxPassiveViewSize_ok {c : NetworkConfig} {max : Nat} (sized : c.maxPassiveViewSize = .ok max) :
    max = c.optimalActiveViewSize * c.passiveViewFactor := by
  unfold maxPassiveViewSize at sized
  split at sized
  · cases sized
    rfl
  · cases sized

namespace TopicInner
variable {s s' : TopicInner} {env : Env} {draw : Draw} {peer : AddressablePeer}

theorem smaller_fits (fits : s.overlay.Fits) (config : s'.networkConfig = s.networkConfig)
    (fewer : s'.passivePeers.size ≤ s.passivePeers.size) : s'.overlay.Fits := by
  have limit : s'.overlay.networkConfig = s.overlay.networkConfig := config
  unfold Overlay.Fits at fits ⊢
  rw [limit]
  exact fewer.trans fits

-- A peer that is new to a full view takes the place of one that is in it.
theorem addToPassiveView_fits (fits : s.overlay.Fits) (added : s.addToPassiveView env draw peer = .ok s') :
    s'.overlay.Fits := by
  rcases addToPassiveView_cases added with ⟨rfl,known | ⟨max,sized,room⟩⟩ | ⟨random,inside,rfl⟩
  · refine smaller_fits fits rfl ?_
    dsimp only
    rw [Std.ExtTreeMap.size_insert,if_pos (Std.ExtTreeMap.contains_iff_mem.mpr known)]
  · exact room.trans (Nat.le_of_eq (NetworkConfig.maxPassiveViewSize_ok sized))
  · refine smaller_fits fits rfl ?_
    dsimp only
    rw [Std.ExtTreeMap.size_erase,if_pos (Std.ExtTreeMap.contains_iff_mem.mpr inside)]
    have grown := Std.ExtTreeMap.size_insert_le (t:=s.passivePeers) (k:=peer.peerId) (v:=peer.addresses)
    omega

theorem moveActiveToPassive_fits (fits : s.overlay.Fits) (moved : s.moveActiveToPassive env peerId = .ok s') :
    s'.overlay.Fits := by
  unfold moveActiveToPassive at moved
  split at moved
  · cases moved
    exact fits
  · exact addToPassiveView_fits (s:={s with activePeers := s.activePeers.erase peerId}) fits moved

theorem removed_fits (fits : s.overlay.Fits) (id : PeerId) : (s.removeFromPassiveView id).overlay.Fits := by
  refine smaller_fits fits rfl ?_
  exact Std.ExtTreeMap.size_erase_le

theorem addToActiveView_fits (fits : s.overlay.Fits) (peer : AddressablePeer) (connection : ConnectionId) :
    (s.addToActiveView peer connection).overlay.Fits := by
  unfold addToActiveView
  split
  · exact fits
  · split
    · exact fits
    · exact removed_fits (s:={s with activePeers := s.activePeers.insert peer.peerId (connection,peer.addresses)}) fits _

theorem ban_fits (fits : s.overlay.Fits) (id : PeerId) : (s.ban id).overlay.Fits :=
  removed_fits (s:={s with activePeers := s.activePeers.erase id}) fits id

theorem tryNeighbouringWith_fits (fits : s.overlay.Fits) (peer : AddressablePeer) :
    (s.tryNeighbouringWith env peer).2.overlay.Fits := by
  rcases tryNeighbouringWith_overlay env s peer with same | courted
  · rw [same]
    exact fits
  · rw [courted]
    exact fits

theorem tryStabilizeActiveView_fits (fits : s.overlay.Fits) (stabilized : s.tryStabilizeActiveView env = .ok s') :
    s'.overlay.Fits := by
  rcases tryStabilizeActiveView_cases stabilized with ⟨peer,_,rfl⟩ | rfl | ⟨id,connection,rfl⟩ | rfl
  · exact tryNeighbouringWith_fits fits peer
  · rw [dialAll_overlay]
    exact fits
  · rw [disconnect_overlay]
    exact fits
  · exact fits

theorem handlePendingNeighbours_fits (fits : s.overlay.Fits) (peer : AddressablePeer) (connection : ConnectionId) :
    (s.handlePendingNeighbours env peer connection).overlay.Fits := by
  unfold handlePendingNeighbours
  dsimp only
  split
  · refine addToActiveView_fits ?_ peer connection
    exact fits
  · exact fits

theorem handlePeerConnected_fits (fits : s.overlay.Fits) (peer : AddressablePeer) (connection : ConnectionId) :
    (s.handlePeerConnected env peer connection).overlay.Fits := by
  unfold handlePeerConnected
  dsimp only
  rw [forgetDials_overlay,handlePendingShuffleReplies_overlay]
  refine handlePendingNeighbours_fits ?_ peer connection
  rw [handleNonPendingConnects_overlay]
  exact fits

theorem handleTick_fits (fits : s.overlay.Fits) (handled : s.handleTick env = .ok s') : s'.overlay.Fits := by
  obtain ⟨shuffled,before,after⟩ := handleTick_cases handled
  have kept : shuffled.overlay.Fits := by
    rcases before with rfl | shuffle
    · exact fits
    · rw [initiateShuffle_overlay shuffle]
      exact fits
  rcases after with rfl | ⟨_,stabilized⟩
  · exact kept
  · exact tryStabilizeActiveView_fits kept stabilized

theorem consumeJoin_fits {msg : Join} (fits : s.overlay.Fits) (consumed : s.consumeJoin env sender msg connection = .ok s') :
    s'.overlay.Fits := by
  unfold consumeJoin at consumed
  split at consumed
  · cases consumed
    exact ban_fits fits sender
  · split at consumed
    · cases consumed
      exact fits
    · dsimp only at consumed
      refine addToPassiveView_fits ?_ consumed
      have told : (((s.activeLinks env).foldl (fun s link => s.sendMessage link.1 link.2 (.forwardJoin ⟨1,msg.node⟩)) s).disconnect
          env sender connection).overlay.Fits := by
        rw [disconnect_overlay,sendAll_overlay]
        exact fits
      split
      · exact told
      · exact tryNeighbouringWith_fits told msg.node

theorem makeSpace_fits (fits : s.overlay.Fits) (made : s.makeSpace env = .ok s') : s'.overlay.Fits := by
  unfold makeSpace at made
  obtain ⟨random,_,made⟩ := bind_ok.mp made
  obtain ⟨link,_,made⟩ := bind_ok.mp made
  obtain ⟨addresses,_,added⟩ := bind_ok.mp made
  refine addToPassiveView_fits ?_ added
  rw [disconnect_overlay]
  exact fits

theorem consumeForwardJoin_fits {msg : ForwardJoin} (fits : s.overlay.Fits)
    (consumed : s.consumeForwardJoin env sender msg = .ok s') : s'.overlay.Fits := by
  unfold consumeForwardJoin at consumed
  split at consumed
  · cases consumed
    exact fits
  · split at consumed
    · cases consumed
      exact fits
    · split at consumed
      · cases consumed
        exact fits
      · obtain ⟨learnt,added,consumed⟩ := bind_ok.mp consumed
        have learnt_fits : learnt.overlay.Fits := addToPassiveView_fits fits added
        split at consumed
        · split at consumed
          · cases consumed
            exact learnt_fits
          · split at consumed
            · obtain ⟨spacious,made,consumed⟩ := bind_ok.mp consumed
              cases consumed
              exact tryNeighbouringWith_fits (makeSpace_fits learnt_fits made) msg.node
            · cases consumed
              exact tryNeighbouringWith_fits learnt_fits msg.node
        · rw [forward_overlay consumed]
          split
          · exact learnt_fits
          · exact tryNeighbouringWith_fits learnt_fits msg.node

theorem consumeNeighbor_fits {msg : Neighbour} (fits : s.overlay.Fits)
    (consumed : s.consumeNeighbor env sender msg connection = .ok s') : s'.overlay.Fits := by
  have accept : ∀ free : TopicInner, free.overlay.Fits →
      (if !free.activeViewFull then Except.ok (ε:=TopicPanic) (free.addToActiveView msg.peer connection)
        else .ok (free.disconnect env sender connection)) = .ok s' → s'.overlay.Fits := by
    intro free fits accepted
    split at accepted
    · cases accepted
      exact addToActiveView_fits fits msg.peer connection
    · cases accepted
      rw [disconnect_overlay]
      exact fits
  unfold consumeNeighbor at consumed
  split at consumed
  · cases consumed
    exact fits
  · split at consumed
    · cases consumed
      exact ban_fits fits sender
    · split at consumed
      · obtain ⟨random,_,consumed⟩ := bind_ok.mp consumed
        obtain ⟨old,_,consumed⟩ := bind_ok.mp consumed
        refine accept _ ?_ consumed
        rw [disconnect_overlay]
        exact fits
      · exact accept s fits consumed

theorem sampled_fits {max : Nat} {ids : List PeerId} {view : List (PeerId × HashSet Multiaddr)}
    {look : PeerId → Except TopicPanic (PeerId × HashSet Multiaddr)} (sized : s.networkConfig.maxPassiveViewSize = .ok max)
    (few : ids.length ≤ max) (collected : ids.mapM look = .ok view) :
    ({s with passivePeers := Std.ExtTreeMap.ofList view compare} : TopicInner).overlay.Fits := by
  have entries : (Std.ExtTreeMap.ofList view compare).size ≤ view.length := Std.ExtTreeMap.size_ofList_le
  have length : view.length = ids.length := mapM_length collected
  have limit := NetworkConfig.maxPassiveViewSize_ok sized
  change (Std.ExtTreeMap.ofList view compare).size ≤ s.networkConfig.optimalActiveViewSize * s.networkConfig.passiveViewFactor
  omega

theorem shuffledView_few {msg : Shuffle} {ids : List PeerId} (drawn : s.shuffledView env msg = .ok ids) :
    ∃ max, s.networkConfig.maxPassiveViewSize = .ok max ∧ ids.length ≤ max := by
  unfold shuffledView at drawn
  obtain ⟨size,_,drawn⟩ := bind_ok.mp drawn
  obtain ⟨max,sized,drawn⟩ := bind_ok.mp drawn
  cases drawn
  refine ⟨max,sized,?_⟩
  rw [env.dice.chooseMultiple_length]
  exact Nat.min_le_left _ _

theorem consumeShuffle_fits {msg : Shuffle} (fits : s.overlay.Fits) (consumed : s.consumeShuffle env sender msg = .ok s') :
    s'.overlay.Fits := by
  unfold consumeShuffle at consumed
  split at consumed
  · cases consumed
    exact fits
  · obtain ⟨reply,_,consumed⟩ := bind_ok.mp consumed
    obtain ⟨ids,drawn,consumed⟩ := bind_ok.mp consumed
    obtain ⟨view,collected,consumed⟩ := bind_ok.mp consumed
    obtain ⟨max,sized,few⟩ := shuffledView_few drawn
    have sampled := sampled_fits sized few collected
    dsimp only at consumed
    split at consumed
    · rw [forward_overlay consumed,respond_overlay]
      exact sampled
    · cases consumed
      rw [respond_overlay]
      exact sampled

theorem consumeShuffleReply_fits {msg : ShuffleReply}
    (consumed : s.consumeShuffleReply env sender msg connection = .ok s') : s'.overlay.Fits := by
  unfold consumeShuffleReply at consumed
  obtain ⟨max,sized,consumed⟩ := bind_ok.mp consumed
  obtain ⟨view,collected,consumed⟩ := bind_ok.mp consumed
  have sampled := sampled_fits (s:=s) sized
    (by rw [env.dice.chooseMultiple_length]; exact Nat.min_le_left _ _) collected
  dsimp only at consumed
  split at consumed
  · cases consumed
    exact sampled
  · cases consumed
    rw [disconnect_overlay]
    exact sampled

theorem injectEvent_fits (fits : s.overlay.Fits) (handled : s.injectEvent env event = .ok s') : s'.overlay.Fits := by
  cases injectEvent_handled handled with
  | localAddressDiscovered addr => exact fits
  | peerConnected peer connection => exact handlePeerConnected_fits fits peer connection
  | peerDisconnected peer connection handled =>
      obtain ⟨moved,inner,handled⟩ := bind_ok.mp handled
      cases handled
      have moved_fits : moved.overlay.Fits := moveActiveToPassive_fits fits inner
      exact moved_fits
  | tick handled => exact handleTick_fits fits handled
  | join sender join connection handled => exact consumeJoin_fits fits handled
  | forwardJoin sender flood connection handled => exact consumeForwardJoin_fits fits handled
  | neighbour sender neighbour connection handled => exact consumeNeighbor_fits fits handled
  | shuffle sender shuffle connection handled => exact consumeShuffle_fits fits handled
  | shuffleReply sender reply connection handled => exact consumeShuffleReply_fits handled
  | gossip sender bytes connection =>
      unfold consumeGossip
      split
      · rw [disconnect_overlay]
        exact fits
      · refine smaller_fits fits ?_ ?_
        · exact congrArg Overlay.networkConfig (sendAll_overlay s _ (.gossip bytes))
        · exact Nat.le_of_eq (congrArg (fun o => o.passive.size) (sendAll_overlay s _ (.gossip bytes)))

theorem passive_view_bounded (now : Nat) (topicConfig : TopicConfig) (networkConfig : NetworkConfig)
    (thisNode : AddressablePeer) (reached : Reached (fun _ _ _ => True) (new now topicConfig networkConfig thisNode) s) :
    s.passivePeers.size ≤ networkConfig.optimalActiveViewSize * networkConfig.passiveViewFactor ∧
      ∀ max, networkConfig.maxPassiveViewSize = .ok max → s.passivePeers.size ≤ max := by
  have bounded : s.overlay.Fits ∧ s.networkConfig = networkConfig := by
    induction reached with
    | refl =>
        refine ⟨?_,new_networkConfig⟩
        rw [new_overlay]
        exact Nat.zero_le _
    | step _ _ handled ih => exact ⟨injectEvent_fits ih.1 handled,(injectEvent_config handled).2.trans ih.2⟩
  have fits : s.passivePeers.size ≤ s.networkConfig.optimalActiveViewSize * s.networkConfig.passiveViewFactor := bounded.1
  rw [bounded.2] at fits
  refine ⟨fits,?_⟩
  intro max sized
  rw [NetworkConfig.maxPassiveViewSize_ok sized]
  exact fits

theorem visited_view_bounded : ∃ s, Reached (fun _ _ _ => True) TopicExample.topic s ∧ s.passivePeers.size ≤ 48 := by
  obtain ⟨s,reached,_⟩ := run_reaches (fun _ _ _ => True) TopicExample.topic TopicExample.visits (fun _ => true)
    (fun _ _ _ => trivial) (by decide)
  exact ⟨s,reached,(passive_view_bounded 0 ⟨"topic",[]⟩ TopicExample.config (TopicExample.peer 0) reached).1⟩

end TopicInner

end AnomaAlpha
