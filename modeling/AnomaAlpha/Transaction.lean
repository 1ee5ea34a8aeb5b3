import AnomaAlpha.Predicate
import AnomaAlpha.Lib.Base58

namespace AnomaAlpha

structure Multihash where
  code : Nat
  digest : Bytes
  deriving DecidableEq

-- The derived order compares the code, the size and then the digest bytes.
def Multihash.key (h : Multihash) : List Nat := h.code :: h.digest.length :: h.digest.map UInt8.toNat

theorem Multihash.key_injective {a b : Multihash} (same : a.key = b.key) : a = b := by
  cases a; cases b
  simp only [key,List.cons.injEq] at same
  obtain ⟨rfl,_,digests⟩ := same
  have equal := List.map_injective_iff.mpr (fun _ _ h => UInt8.toNat_inj.mp h) digests
  rw [equal]

instance : Ord Multihash := ⟨fun a b => compare a.key b.key⟩
instance : Std.TransOrd Multihash := inferInstanceAs (Std.TransCmp (compareOn Multihash.key))
instance : Std.LawfulEqOrd Multihash where
  eq_of_compare same := Multihash.key_injective (Std.LawfulEqOrd.eq_of_compare same)

-- The unsigned varint of the multihash format; a `u64` takes at most ten bytes.
def varint : Nat → Nat → Bytes
  | 0,_ => []
  | fuel+1,n => if n < 128 then [UInt8.ofNat n] else UInt8.ofNat (n % 128 + 128) :: varint fuel (n / 128)

def Multihash.toBytes (h : Multihash) : Bytes := varint 10 h.code ++ varint 10 h.digest.length ++ h.digest

def sha3Code : Nat := 0x16

abbrev Calldata := BTreeMap String Bytes

structure Intent (A : Type := Address) where
  recentBlockhash : Multihash
  expectations : PredicateTree A
  calldata : Calldata
  hashCache : Option Multihash
  deriving DecidableEq

structure Transaction (A : Type := Address) [Ord A] where
  intents : List (Intent A)
  proposals : BTreeMap A (AccountChange A)
  hashCache : Option Multihash

instance {A : Type} [DecidableEq A] [Ord A] [Std.TransOrd A] [Std.LawfulEqOrd A] : DecidableEq (Transaction A) :=
  fun left right => decidable_of_iff
    (left.intents = right.intents ∧ left.proposals = right.proposals ∧ left.hashCache = right.hashCache) <| by
      cases left; cases right; simp

-- What the chain takes from `rmp_serde`, `multihash` and `bs58` to name things. The
-- encoders see the fields that are not marked `#[serde(skip)]`.
structure Hashing (A : Type := Address) where
  encodeHash : Multihash → Bytes
  encodeTree : PredicateTree A → Bytes
  encodeIntent : Multihash → PredicateTree A → Calldata → Bytes
  sha3 : Bytes → Bytes
  sha3_length : ∀ message, (sha3 message).length = 32
  bs58 : Base58.Encoding

structure PredicateContext (A : Type := Address) [Ord A] where
  calldata : BTreeMap Multihash Calldata
  proposals : BTreeMap A (ExpandedAccountChange A)

variable {A : Type}

def Hashing.wrap (w : Hashing A) (message : Bytes) : Multihash := ⟨sha3Code,w.sha3 message⟩

namespace Intent

def new (recentBlockhash : Multihash) (expectations : PredicateTree A) : Intent A :=
  ⟨recentBlockhash,expectations,∅,none⟩

def withCalldata (recentBlockhash : Multihash) (expectations : PredicateTree A) (calldata : Calldata) : Intent A :=
  ⟨recentBlockhash,expectations,calldata,none⟩

-- `OnceCell::get_or_init`: the first caller decides the value for everyone.
def getOrInit (i : Intent A) (init : Multihash) : Multihash × Intent A :=
  match i.hashCache with
  | some cached => (cached,i)
  | none => (init,{i with hashCache := some init})

def hash (w : Hashing A) (i : Intent A) : Multihash × Intent A :=
  i.getOrInit (w.wrap (w.encodeIntent i.recentBlockhash i.expectations i.calldata))

def signingHash (w : Hashing A) (i : Intent A) : Multihash × Intent A :=
  i.getOrInit (w.wrap (w.encodeHash i.recentBlockhash ++ w.encodeTree i.expectations))

end Intent

def Transaction.new [Ord A] (intents : List (Intent A)) (proposals : BTreeMap A (AccountChange A)) : Transaction A :=
  ⟨intents,proposals,none⟩

-- A field that serde skips comes back empty.
def Intent.fresh (i : Intent A) : Intent A := {i with hashCache := none}

def Transaction.fresh [Ord A] (tx : Transaction A) : Transaction A := ⟨tx.intents.map Intent.fresh,tx.proposals,none⟩

theorem Multihash.toBytes_wrap (w : Hashing A) (message : Bytes) :
    (w.wrap message).toBytes = 0x16 :: 0x20 :: w.sha3 message := by
  simp [Multihash.toBytes,Hashing.wrap,sha3Code,w.sha3_length,varint]

end AnomaAlpha
