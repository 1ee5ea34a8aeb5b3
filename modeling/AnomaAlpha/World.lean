import AnomaAlpha.Acts

-- Nodes with their networks, the runloops that serve them, and the connections
-- between them.
namespace AnomaAlpha
open Fallible OrderedMap Linking

-- One end of a connection. `wire` holds what is on its way to this end.
structure Link where
  peer : PeerId
  remote : ConnectionId
  dialer : Bool
  opened : Bool
  up : Bool
  closed : Bool
  wire : List Message

-- `handled` counts the commands that the runloop has carried out.
structure Site where
  net : Network
  handled : Nat
  ends : HashMap ConnectionId Link

abbrev World := BTreeMap PeerId Site

inductive Happening where
  | network (x : PeerId) (turn : Turn) (input : Network.Input)
  | runloop (x : PeerId)
  | connect (x y : PeerId) (c d : ConnectionId)
  | establish (x : PeerId) (c : ConnectionId) (addresses : HashSet Multiaddr)
  | deliver (x : PeerId) (c : ConnectionId)
  | close (x : PeerId) (c : ConnectionId)
  | address (x : PeerId) (addr : Multiaddr)

def Network.Input.ours (name : TopicName) : Network.Input → Bool
  | .tick | .command => true
  | .event _ => false
  | .join config => config.name == name
  | .gossip topic _ => topic == name

namespace Site

def put (s : Site) (c : ConnectionId) (link : Link) : Site := {s with ends := s.ends.insert c link}

def tell (s : Site) (event : SwarmEvent) : Site :=
  {s with net := {s.net with commands := s.net.commands ++ [.injectEvent event]}}

def sever (s : Site) (which : ConnectionId → PeerId → Bool) : Site :=
  {s with ends := s.ends.map fun c link => {link with up := link.up && !which c link.peer}}

def count (s : Site) : Site := {s with handled := s.handled + 1}

end Site

namespace World

def start (configs : BTreeMap PeerId NetworkConfig) : World := configs.map fun x config => ⟨.new config x,0,∅⟩

def revise (w : World) (x : PeerId) (f : Site → Site) : World :=
  match w[x]? with
  | some s => w.insert x (f s)
  | none => w

def endAt (w : World) (x : PeerId) (c : ConnectionId) : Option Link := w[x]?.bind fun s => s.ends[c]?

-- The runloop of `x` carries out a command. A message goes to the other end of
-- its connection.
def carryOut (w : World) (x : PeerId) (command : RunloopCommand) : World :=
  match command with
  | .connect _ => w
  | .disconnect peer connection => w.revise x fun s => s.sever fun c p => decide (c = connection ∧ p = peer)
  | .banPeer peer => w.revise x fun s => s.sever fun _ p => decide (p = peer)
  | .sendMessage peer connection msg => match w.endAt x connection with
    | none => w
    | some link =>
      if link.peer = peer then match w.endAt peer link.remote with
        | none => w
        | some far => w.revise peer fun s => s.put link.remote {far with wire := far.wire ++ [msg]}
      else w

def move (hash : Message → Multihash) (name : TopicName) (w : World) : Happening → Option World
  | .network x turn input => do
    let s ← w[x]?
    if input.ours name then match s.net.step hash turn input with
      | .ok net => some (w.insert x {s with net := net})
      | .error _ => none
    else none
  | .runloop x => do
    let s ← w[x]?
    let command ← s.net.runloop[s.handled]?
    return (w.carryOut x command).revise x .count
  | .connect x y c d => do
    let s ← w[x]?
    let t ← w[y]?
    if x ≠ y ∧ !s.ends.contains c ∧ !t.ends.contains d then
      return (w.insert x (s.put c ⟨y,d,true,false,true,false,[]⟩)).insert y (t.put d ⟨x,c,false,false,true,false,[]⟩)
    else none
  | .establish x c addresses => do
    let s ← w[x]?
    let link ← s.ends[c]?
    if link.opened ∨ link.closed then none
    else return w.insert x ((s.put c {link with opened := true}).tell
      (.connectionEstablished ⟨link.peer,addresses⟩ link.dialer c))
  | .deliver x c => do
    let s ← w[x]?
    let link ← s.ends[c]?
    match link.wire with
    | [] => none
    | msg :: wire =>
      if link.opened ∧ !link.closed then
        return w.insert x ((s.put c {link with wire := wire}).tell (.messageReceived link.peer c msg))
      else none
  | .close x c => do
    let s ← w[x]?
    let link ← s.ends[c]?
    if link.opened ∧ !link.closed then
      return w.insert x ((s.put c {link with up := false, closed := true, wire := []}).tell (.connectionClosed link.peer c))
    else none
  | .address x addr => do
    let s ← w[x]?
    return w.insert x (s.tell (.localAddressDiscovered addr))

def run (hash : Message → Multihash) (name : TopicName) (w : World) : List Happening → Option World
  | [] => some w
  | happening :: later => do
    let w ← w.move hash name happening
    run hash name w later

def smooth (hash : Message → Multihash) (name : TopicName) (w : World) : Happening → Bool
  | .network x turn .command => w[x]?.all fun s => match s.net.commands with
    | [] => true
    | command :: commands => {s.net with commands := commands}.smooth hash name turn (.command command)
  | _ => true

def allSmooth (hash : Message → Multihash) (name : TopicName) (w : World) : List Happening → Bool
  | [] => true
  | happening :: later => w.smooth hash name happening && (w.move hash name happening).all fun w =>
    allSmooth hash name w later

def settled (w : World) (link : Link) : Bool :=
  link.opened && (link.closed || link.wire.isEmpty && link.up && (w.endAt link.peer link.remote).all Link.up)

def resting (w : World) : Bool := w.toList.all fun entry =>
  entry.2.net.commands.isEmpty && entry.2.handled == entry.2.net.runloop.length &&
    entry.2.ends.toList.all fun held => w.settled held.2

def linked (name : TopicName) (w : World) (x y : PeerId) : Bool :=
  w[x]?.any fun s => s.net.topics[name]?.any fun topic => topic.isActive y

end World
end AnomaAlpha
