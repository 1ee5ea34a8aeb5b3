import AnomaAlpha.Cache
import AnomaAlpha.Transaction

namespace AnomaAlpha

abbrev PeerId := Multihash
abbrev ConnectionId := Nat

-- Only the first component of a multiaddress is looked at.
inductive Protocol where
  | ip4 (addr : BitVec 32)
  | ip6 (addr : BitVec 128)
  | other (encoded : Bytes)
  deriving DecidableEq

abbrev Multiaddr := List Protocol

inductive IpAddress where
  | v4 (addr : BitVec 32)
  | v6 (addr : BitVec 128)
  deriving DecidableEq

namespace IpAddress

def ofMultiaddr (addr : Multiaddr) : Option IpAddress :=
  match addr with
  | .ip4 ip :: _ => some (.v4 ip)
  | .ip6 ip :: _ => some (.v6 ip)
  | _ => none

def key : IpAddress → List Nat
  | .v4 addr => [0,addr.toNat]
  | .v6 addr => [1,addr.toNat]

theorem key_injective {a b : IpAddress} (same : a.key = b.key) : a = b := by
  cases a <;> cases b <;> simp only [key,List.cons.injEq,Nat.zero_ne_one,Nat.one_ne_zero,false_and,
    and_true,true_and] at same
  · rw [BitVec.eq_of_toNat_eq same]
  · rw [BitVec.eq_of_toNat_eq same]

instance ordIpAddress : Ord IpAddress := ⟨fun a b => compare a.key b.key⟩
instance transIpAddress : Std.TransOrd IpAddress := inferInstanceAs (Std.TransCmp (compareOn IpAddress.key))
instance lawfulIpAddress : Std.LawfulEqOrd IpAddress where
  eq_of_compare same := key_injective (Std.LawfulEqOrd.eq_of_compare same)

end IpAddress

-- A hash set in the order in which it is iterated.
abbrev HashSet (α : Type) := List α

structure AddressablePeer where
  peerId : PeerId
  addresses : HashSet Multiaddr
  deriving DecidableEq

structure Join where
  node : AddressablePeer
  deriving DecidableEq

structure ForwardJoin where
  hop : UInt16
  node : AddressablePeer
  deriving DecidableEq

structure Neighbour where
  peer : AddressablePeer
  highPriority : Bool
  deriving DecidableEq

structure Shuffle where
  hop : UInt16
  origin : AddressablePeer
  peers : HashSet AddressablePeer
  deriving DecidableEq

structure ShuffleReply where
  peers : HashSet AddressablePeer
  deriving DecidableEq

inductive Action where
  | join (join : Join)
  | forwardJoin (forwardJoin : ForwardJoin)
  | neighbour (neighbour : Neighbour)
  | shuffle (shuffle : Shuffle)
  | shuffleReply (shuffleReply : ShuffleReply)
  | gossip (bytes : Bytes)
  deriving DecidableEq

-- The cell with the hash is left out: the fields do not change once it is
-- filled.
structure Message where
  topic : String
  action : Action
  deriving DecidableEq

-- `AddressablePeer` is equal by its id, which is how a set of them is looked up.
def lookupPeer (peers : HashSet AddressablePeer) (id : PeerId) : Option AddressablePeer :=
  peers.find? fun peer => peer.peerId == id

end AnomaAlpha
