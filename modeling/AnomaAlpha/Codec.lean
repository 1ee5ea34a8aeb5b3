import AnomaAlpha.Emissions
import AnomaAlpha.Wire

namespace AnomaAlpha
open OrderedMap

namespace Wire
open MessagePack

def utf8 (text : String) : Bytes := text.toList.flatMap String.utf8EncodeChar

-- Lengths are written as 32 bit numbers, whatever follows.
def text (content : String) : Bytes := strLen ((utf8 content).length % 2^32) ++ utf8 content
def bin (data : Bytes) : Bytes := binLen (data.length % 2^32) ++ data

def gossip (topic : String) (data : Bytes) : Bytes := array [text topic,variant "Gossip" (bin data)]

end Wire

-- `upgrade::Error`, with the errors of the libraries as texts.
inductive UpgradeError where
  | maxTransmissionSizeExceeded
  | io (error : String)
  | serialization (error : String)
  | deserialization (error : String)
  deriving DecidableEq

-- `rmp_serde::to_vec`, and the encoder of `UviBytes` with its length limit.
structure FrameLibrary where
  toVec : Message → Except String Bytes
  encode : Nat → Bytes → Bytes → Except String Bytes
  toVec_gossip : ∀ topic data, toVec ⟨topic,.gossip data⟩ = .ok (Wire.gossip topic data)
  encode_limit : ∀ max item dst, (∃ out, encode max item dst = .ok out) ↔ item.length ≤ max

structure Codec where
  lengthPrefix : Nat

namespace Codec

def new (maxMessageLen : Nat) : Codec := ⟨maxMessageLen⟩

def encode (lib : FrameLibrary) (c : Codec) (item : Message) (dst : Bytes) : Except UpgradeError Bytes := do
  let bytes ← (lib.toVec item).mapError .serialization
  (lib.encode c.lengthPrefix bytes dst).mapError fun _ => .maxTransmissionSizeExceeded

end Codec

-- The payload comes with the topic and with what tells them apart.
def strHead (n : Nat) : Nat := if n < 2^5 then 1 else if n < 2^8 then 2 else if n < 2^16 then 3 else 5
def binHead (n : Nat) : Nat := if n < 2^8 then 2 else if n < 2^16 then 3 else 5

def frameSize (topic : String) (data : Bytes) : Nat :=
  9 + strHead ((Wire.utf8 topic).length % 2^32) + (Wire.utf8 topic).length + binHead (data.length % 2^32) + data.length

theorem strLen_length (n : Nat) : (MessagePack.strLen n).length = strHead n := by
  unfold MessagePack.strLen strHead
  split_ifs <;> rfl

theorem binLen_length (n : Nat) : (MessagePack.binLen n).length = binHead n := by
  unfold MessagePack.binLen binHead
  split_ifs <;> rfl

theorem gossip_size (topic : String) (data : Bytes) : (Wire.gossip topic data).length = frameSize topic data := by
  have name : (MessagePack.str "Gossip").length = 7 := by decide
  unfold Wire.gossip Wire.variant Wire.text Wire.bin MessagePack.array MessagePack.map frameSize
  simp [strLen_length,binLen_length,name,MessagePack.arrayLen,MessagePack.mapLen]
  omega

theorem payload_short (topic : String) (data : Bytes) : data.length < frameSize topic data := by
  unfold frameSize
  omega

theorem encode_gossip (lib : FrameLibrary) (max : Nat) (topic : String) (data dst : Bytes) :
    (∃ out, (Codec.new max).encode lib ⟨topic,.gossip data⟩ dst = .ok out) ↔ frameSize topic data ≤ max := by
  rw [← gossip_size,← lib.encode_limit max (Wire.gossip topic data) dst]
  unfold Codec.encode Codec.new
  rw [lib.toVec_gossip]
  cases encoded : lib.encode max (Wire.gossip topic data) dst with
  | ok out => exact ⟨fun _ => ⟨out,rfl⟩,fun _ => ⟨out,by simp [encoded,Except.mapError,bind,Except.bind]⟩⟩
  | error e => simp [encoded,Except.mapError,bind,Except.bind]

namespace TopicInner
variable {s s' : TopicInner} {order : List PeerId → List PeerId}

theorem gossip_sends (s : TopicInner) (data : Bytes) (ids : List PeerId) :
    (ids.foldl (fun s peer => match s.activePeers[peer]? with
      | some link => s.sendMessage peer link.1 (.gossip data)
      | none => s) s).cmdtx =
    s.cmdtx ++ ids.filterMap fun peer => s.activePeers[peer]?.map fun link =>
      .sendMessage peer link.1 ⟨s.topicConfig.name,.gossip data⟩ := by
  induction ids generalizing s with
  | nil => simp
  | cons id ids ih =>
      rw [List.foldl_cons,ih]
      cases found : s.activePeers[id]? with
      | none => simp [found]
      | some link =>
          simp only [List.filterMap_cons,found,Option.map_some]
          exact List.append_assoc ..

theorem gossip_ok (accepted : s.gossip order data = .ok s') :
    s'.cmdtx = s.cmdtx ++ (order s.activePeers.keys).filterMap fun peer => s.activePeers[peer]?.map fun link =>
      .sendMessage peer link.1 ⟨s.topicConfig.name,.gossip data⟩ := by
  unfold gossip at accepted
  split at accepted
  · cases accepted
  · split at accepted
    · cases accepted
    · cases accepted
      exact gossip_sends s data _

theorem gossip_accepts (order : List PeerId → List PeerId) (data : Bytes)
    (fits : data.length ≤ s.networkConfig.maxTransmitSize) (linked : s.activePeers.isEmpty = false) : ∃ s', s.gossip order data = .ok s' := by
  unfold gossip
  rw [if_neg (Nat.not_lt.mpr fits),linked]
  exact ⟨_,rfl⟩

def GossipFits (lib : FrameLibrary) (s : TopicInner) (order : List PeerId → List PeerId) (data : Bytes) : Prop :=
  ∀ s' sent, s.gossip order data = .ok s' → s'.cmdtx = s.cmdtx ++ sent → ∀ peer conn msg,
    .sendMessage peer conn msg ∈ sent →
      ∀ dst, ∃ out, (Codec.new s.networkConfig.maxTransmitSize).encode lib msg dst = .ok out

-- The payload is held against the limit where the whole message should be.
theorem gossip_fits_iff (lib : FrameLibrary) (s : TopicInner) (order : List PeerId → List PeerId) (data : Bytes)
    (shuffles : ∀ ids, (order ids).Perm ids) :
    GossipFits lib s order data ↔ s.activePeers.isEmpty = true ∨ s.networkConfig.maxTransmitSize < data.length ∨
      frameSize s.topicConfig.name data ≤ s.networkConfig.maxTransmitSize := by
  constructor
  · intro fits
    by_contra excess
    obtain ⟨linked,rest⟩ := not_or.mp excess
    obtain ⟨small,large⟩ := not_or.mp rest
    obtain ⟨s',accepted⟩ := gossip_accepts order data (Nat.not_lt.mp small) (Bool.eq_false_of_not_eq_true linked)
    obtain ⟨id,inside⟩ : ∃ id, id ∈ s.activePeers.keys := by
      refine List.exists_mem_of_ne_nil _ fun none => linked ?_
      rwa [← Std.ExtTreeMap.isEmpty_keys,List.isEmpty_iff]
    obtain ⟨link,found⟩ := Option.isSome_iff_exists.mp (Std.ExtTreeMap.mem_iff_isSome_getElem?.mp (mem_keys.mp inside))
    have sent := fits s' _ accepted (gossip_ok accepted) id link.1 ⟨s.topicConfig.name,.gossip data⟩
      (List.mem_filterMap.mpr ⟨id,(shuffles _).mem_iff.mpr inside,by rw [found]; rfl⟩) []
    exact large ((encode_gossip lib _ _ data []).mp sent)
  · intro given s' sent accepted written peer conn msg member dst
    rw [gossip_ok accepted] at written
    cases List.append_cancel_left written
    obtain ⟨id,_,made⟩ := List.mem_filterMap.mp member
    obtain ⟨link,found,same⟩ := Option.map_eq_some_iff.mp made
    cases same
    refine (encode_gossip lib _ _ data dst).mpr ?_
    unfold gossip at accepted
    rcases given with alone | large | fits
    · rw [alone] at accepted
      split at accepted <;> cases accepted
    · rw [if_pos large] at accepted
      cases accepted
    · exact fits

end TopicInner

namespace CodecExample
open TopicInner

def uvarint : Nat → Nat → Bytes
  | 0,_ => []
  | width+1,n => if n < 2^7 then [UInt8.ofNat n] else UInt8.ofNat (n % 2^7 + 2^7) :: uvarint width (n / 2^7)

def library : FrameLibrary where
  toVec msg := match msg.action with
    | .gossip data => .ok (Wire.gossip msg.topic data)
    | _ => .error "unused"
  encode max item dst := if item.length ≤ max then .ok (dst ++ uvarint 10 item.length ++ item) else .error "len > max"
  toVec_gossip _ _ := rfl
  encode_limit max item dst := by
    by_cases fits : item.length ≤ max <;> simp [fits]

def linked : TopicInner := TopicExample.topic.addToActiveView (TopicExample.peer 1) 1

theorem name_size : (Wire.utf8 linked.topicConfig.name).length = 5 := by decide

theorem short_gossip_fits : GossipFits library linked id (List.replicate 1000 0) :=
  (gossip_fits_iff library linked id (List.replicate 1000 0) fun _ => .refl _).mpr (by
    refine .inr (.inr ?_)
    unfold frameSize
    rw [name_size,List.length_replicate]
    decide)

theorem greatest_gossip_dropped : ∃ s', linked.gossip id (List.replicate 1048576 0) = .ok s' ∧
    .sendMessage (TopicExample.peer 1).peerId 1 ⟨"topic",.gossip (List.replicate 1048576 0)⟩ ∈ s'.cmdtx ∧
    ¬GossipFits library linked id (List.replicate 1048576 0) := by
  have found : linked.activePeers[(TopicExample.peer 1).peerId]? = some (1,(TopicExample.peer 1).addresses) := by
    decide
  obtain ⟨s',accepted⟩ := gossip_accepts (s:=linked) id (List.replicate 1048576 0)
    (by rw [List.length_replicate]; exact Nat.le_refl _) (by decide)
  have sent : .sendMessage (TopicExample.peer 1).peerId 1 ⟨"topic",.gossip (List.replicate 1048576 0)⟩ ∈
      (id linked.activePeers.keys).filterMap fun peer => linked.activePeers[peer]?.map fun link =>
        Command.sendMessage peer link.1 ⟨linked.topicConfig.name,.gossip (List.replicate 1048576 0)⟩ :=
    List.mem_filterMap.mpr ⟨_,mem_keys.mpr (Std.ExtTreeMap.mem_iff_isSome_getElem?.mpr (by rw [found]; rfl)),
      by rw [found]; rfl⟩
  refine ⟨s',accepted,?_,?_⟩
  · rw [gossip_ok accepted]
    exact List.mem_append_right _ sent
  · intro fits
    have small := (encode_gossip library _ _ _ []).mp (fits s' _ accepted (gossip_ok accepted) _ _ _ sent [])
    have short := payload_short "topic" (List.replicate 1048576 0)
    rw [List.length_replicate] at short
    exact Nat.lt_irrefl _ (short.trans_le small)

end CodecExample

end AnomaAlpha
