import AnomaAlpha.Message

namespace AnomaAlpha

-- An element that an iterator over a hash map happens to give first.
structure Pick (α : Type) where
  pick : List α → Option α
  pick_mem : ∀ l a, pick l = some a → a ∈ l
  pick_some : ∀ l, l ≠ [] → pick l ≠ none

def Pick.first (α : Type) : Pick α where
  pick := List.head?
  pick_mem _ _ := List.mem_of_mem_head?
  pick_some l some := by
    obtain ⟨a,rest,rfl⟩ := List.exists_cons_of_ne_nil some
    simp

abbrev TopicName := String

structure Muxer where
  assigned : HashMap PeerId (HashMap ConnectionId TopicName)
  unassigned : HashMap PeerId (AddressablePeer × Std.ExtTreeSet ConnectionId)
  requestedDials : HashMap IpAddress (HashMap TopicName Multiaddr)
  ongoingDials : ExpiringMap IpAddress TopicName

namespace Muxer

def new (pendingTimeout : Nat) : Muxer := ⟨∅,∅,∅,.new pendingTimeout⟩

def register (m : Muxer) (sender : AddressablePeer) (id : ConnectionId) : Muxer :=
  match m.unassigned[sender.peerId]? with
  | some (peer,conns) => {m with unassigned := m.unassigned.insert sender.peerId (peer,conns.insert id)}
  | none => {m with unassigned := m.unassigned.insert sender.peerId (sender,(∅ : Std.ExtTreeSet ConnectionId).insert id)}

def disconnect (m : Muxer) (peer : PeerId) (connection : ConnectionId) : Muxer :=
  match m.assigned[peer]? with
  | some conns =>
    let conns := conns.erase connection
    {m with assigned := if conns.isEmpty then m.assigned.erase peer else m.assigned.insert peer conns}
  | none => match m.unassigned[peer]? with
    | some (addressable,conns) =>
      let conns := conns.erase connection
      {m with unassigned :=
        if conns.isEmpty then m.unassigned.erase peer else m.unassigned.insert peer (addressable,conns)}
    | none => m

def putDial (m : Muxer) (addr : Multiaddr) (topic : TopicName) : Muxer :=
  match IpAddress.ofMultiaddr addr with
  | some ip => {m with requestedDials := m.requestedDials.insert ip ((m.requestedDials[ip]?.getD ∅).insert topic addr)}
  | none => m

def pollDial (host : Pick IpAddress) (request : Pick TopicName) (m : Muxer) : Option (TopicName × Multiaddr) := do
  let ip ← host.pick m.requestedDials.keys
  let dial ← m.requestedDials[ip]?
  let topic ← request.pick dial.keys
  let addr ← dial[topic]?
  return (topic,addr)

def nextDial (now : Nat) (m : Muxer) (addr : Multiaddr) (topic : TopicName) : Bool × Muxer :=
  match IpAddress.ofMultiaddr addr with
  | none => (false,m)
  | some ip =>
    if m.ongoingDials.containsKey now ip then (false,m)
    else match m.requestedDials[ip]? with
      | none => (false,m)
      | some requested =>
        if requested.contains topic then
          let requested := requested.erase topic
          (true,{m with
            requestedDials :=
              if requested.isEmpty then m.requestedDials.erase ip else m.requestedDials.insert ip requested
            ongoingDials := (m.ongoingDials.insert now ip topic).2})
        else (false,m)

def bind (m : Muxer) (peer : PeerId) (connection : ConnectionId) (topic : TopicName) : Muxer :=
  {m with assigned := m.assigned.insert peer ((m.assigned[peer]?.getD ∅).insert connection topic)}

-- A dial that has expired is dropped on the way.
def matchDial (now : Nat) (m : Muxer) (peer : PeerId) (connection : ConnectionId) :
    HashSet Multiaddr → Option TopicName × Muxer
  | [] => (none,m)
  | addr :: addresses => match IpAddress.ofMultiaddr addr with
    | none => matchDial now m peer connection addresses
    | some ip =>
      let (topic,dials) := m.ongoingDials.remove now ip
      let m := {m with ongoingDials := dials}
      match topic with
      | some topic => (some topic,m.bind peer connection topic)
      | none => matchDial now m peer connection addresses

def assign (m : Muxer) (peer : PeerId) (connection : ConnectionId) (topic : TopicName) :
    Option AddressablePeer × Muxer :=
  match m.unassigned[peer]? with
  | none => (none,m)
  | some (addressable,conns) =>
    if connection ∈ conns then
      let conns := conns.erase connection
      let m := m.bind peer connection topic
      (some addressable,{m with unassigned :=
        if conns.isEmpty then m.unassigned.erase peer else m.unassigned.insert peer (addressable,conns)})
    else (none,m)

def resolveTopic (m : Muxer) (peer : PeerId) (connection : ConnectionId) : Option TopicName :=
  m.assigned[peer]?.bind fun conns => conns[connection]?

def pruneExpired (now : Nat) (m : Muxer) : Muxer := {m with ongoingDials := m.ongoingDials.pruneExpired now}

-- A bound connection is assigned to a topic and no longer waits for its first
-- message.
def bound (m : Muxer) (peer : PeerId) (connection : ConnectionId) (topic : TopicName) : Bool :=
  decide (m.resolveTopic peer connection = some topic) && m.unassigned[peer]?.all fun entry => decide (connection ∉ entry.2)

theorem assign_bound {m : Muxer} (bound : m.bound peer connection topic) (given : TopicName) :
    m.assign peer connection given = (none,m) := by
  unfold Muxer.bound at bound
  rw [Bool.and_eq_true] at bound
  unfold assign
  split
  · rfl
  · rename_i addressable conns waiting
    have absent : connection ∉ conns := by simpa [waiting] using bound.2
    rw [if_neg absent]

theorem resolve_bound {m : Muxer} (bound : m.bound peer connection topic) : m.resolveTopic peer connection = some topic := by
  unfold Muxer.bound at bound
  rw [Bool.and_eq_true] at bound
  exact of_decide_eq_true bound.1

end Muxer

end AnomaAlpha
