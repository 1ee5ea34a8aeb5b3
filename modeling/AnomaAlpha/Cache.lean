import AnomaAlpha.Lib.OrderedMap

namespace AnomaAlpha
open OrderedMap

abbrev HashMap (k v : Type) [Ord k] := Std.ExtTreeMap k v

-- Times are readings of a monotonic clock, and `now` is the reading at a call.
structure ExpiringMap (K V : Type) [Ord K] where
  lifespan : Nat
  data : HashMap K (V × Nat)

namespace ExpiringMap
variable {K V : Type} [Ord K] [Std.TransOrd K]

def new (lifespan : Nat) : ExpiringMap K V := ⟨lifespan,∅⟩

def len (m : ExpiringMap K V) : Nat := m.data.size
def isEmpty (m : ExpiringMap K V) : Bool := m.data.isEmpty

-- An entry is answered up to and at its lifespan.
def fresh (m : ExpiringMap K V) (now : Nat) (entry : Option (V × Nat)) : Option V :=
  match entry with
  | some (value,since) => if now - since > m.lifespan then none else some value
  | none => none

def insert (m : ExpiringMap K V) (now : Nat) (key : K) (value : V) : Option V × ExpiringMap K V :=
  (m.fresh now m.data[key]?,{m with data := m.data.insert key (value,now)})

def get (m : ExpiringMap K V) (now : Nat) (key : K) : Option V := m.fresh now m.data[key]?

def containsKey (m : ExpiringMap K V) (now : Nat) (key : K) : Bool := (m.get now key).isSome

def remove (m : ExpiringMap K V) (now : Nat) (key : K) : Option V × ExpiringMap K V :=
  (m.fresh now m.data[key]?,{m with data := m.data.erase key})

-- `retain` keeps what is younger than the lifespan.
def pruneExpired (m : ExpiringMap K V) (now : Nat) : ExpiringMap K V :=
  {m with data := m.data.filter fun _ entry => now - entry.2 < m.lifespan}

variable {m : ExpiringMap K V}

omit [Std.TransOrd K] in
theorem fresh_young (young : now - since ≤ m.lifespan) : m.fresh now (some (value,since)) = some value := by
  unfold fresh
  dsimp only
  rw [if_neg (by omega)]

theorem get_some (found : m.get now key = some value) :
    ∃ since, m.data[key]? = some (value,since) ∧ now - since ≤ m.lifespan := by
  unfold get fresh at found
  split at found
  · rename_i held since entry
    split at found
    · cases found
    · cases found
      exact ⟨since,entry,by omega⟩
  · cases found

theorem prune_get [Std.LawfulEqOrd K] (m : ExpiringMap K V) (now : Nat) (key : K) :
    (m.pruneExpired now).data[key]? = m.data[key]?.filter fun entry => decide (now - entry.2 < m.lifespan) := by
  unfold pruneExpired
  simp only [Std.ExtTreeMap.getElem?_filter']

end ExpiringMap

structure ExpiringSet (K : Type) [Ord K] where
  inner : ExpiringMap K Unit

namespace ExpiringSet
variable {K : Type} [Ord K] [Std.TransOrd K]

def new (lifespan : Nat) : ExpiringSet K := ⟨.new lifespan⟩
def len (s : ExpiringSet K) : Nat := s.inner.len
def isEmpty (s : ExpiringSet K) : Bool := s.inner.isEmpty

-- True when the key was there already.
def insert (s : ExpiringSet K) (now : Nat) (key : K) : Bool × ExpiringSet K :=
  let (old,inner) := s.inner.insert now key ()
  (old.isSome,⟨inner⟩)

def contains (s : ExpiringSet K) (now : Nat) (key : K) : Bool := (s.inner.get now key).isSome

def remove (s : ExpiringSet K) (now : Nat) (key : K) : Bool × ExpiringSet K :=
  let (old,inner) := s.inner.remove now key
  (old.isSome,⟨inner⟩)

def pruneExpired (s : ExpiringSet K) (now : Nat) : ExpiringSet K := ⟨s.inner.pruneExpired now⟩

end ExpiringSet

end AnomaAlpha
