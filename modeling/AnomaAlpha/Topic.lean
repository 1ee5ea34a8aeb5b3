import AnomaAlpha.Lib.Fallible
import AnomaAlpha.Message
import Mathlib.Data.List.Dedup

namespace AnomaAlpha

-- The sizes that are computed from the number of nodes with floating point
-- logarithms are taken as they come out. Durations are in clock units.
structure NetworkConfig where
  optimalActiveViewSize : Nat
  minActiveViewSize : Nat
  passiveViewFactor : Nat
  randomWalkLength : Nat
  maxTransmitSize : Nat
  shuffleInterval : Nat
  dedupeInterval : Option Nat
  pendingTimeout : Nat

structure TopicConfig where
  name : String
  bootstrap : HashSet Multiaddr

-- The `expect`s and overflow checks of the topic.
inductive TopicPanic where
  | invalidTopic
  | emptyView
  | chosenFromExisting
  | onlyRemainingPossibility
  | coveredAllSources
  | unknownSample
  | hopOverflow
  | sizeOverflow
  deriving DecidableEq

-- `topic::Error`.
inductive GossipError where
  | messageTooLarge
  | noConnectedPeers
  deriving DecidableEq

namespace NetworkConfig

def maxPassiveViewSize (c : NetworkConfig) : Except TopicPanic Nat :=
  if c.optimalActiveViewSize * c.passiveViewFactor < 2^64 then .ok (c.optimalActiveViewSize * c.passiveViewFactor)
  else .error .sizeOverflow

def shuffleSampleSize (c : NetworkConfig) : Except TopicPanic Nat := do
  let size ← c.maxPassiveViewSize
  return size / 2

end NetworkConfig

-- The places where the topic asks `rand`, or iterates over a hash map.
inductive Draw where
  | eviction
  | secondEviction
  | slot
  | candidate
  | surplus
  | partner
  | exchange
  | received
  | view
  | links
  | answer

structure Dice where
  choose : Draw → List PeerId → Option PeerId
  chooseMultiple : Draw → List PeerId → Nat → List PeerId
  order : Draw → List PeerId → List PeerId
  toss : Bool
  choose_mem : ∀ draw ids id, choose draw ids = some id → id ∈ ids
  choose_some : ∀ draw ids, ids ≠ [] → choose draw ids ≠ none
  chooseMultiple_mem : ∀ draw ids n, (chooseMultiple draw ids n).Subperm ids
  chooseMultiple_length : ∀ draw ids n, (chooseMultiple draw ids n).length = min n ids.length
  order_perm : ∀ draw ids, (order draw ids).Perm ids

-- What an event finds beside the topic: the clock and the dice.
structure Env where
  now : Nat
  dice : Dice

-- `behaviour::Event`; of an endpoint only the side that dialed is looked at.
inductive SwarmEvent where
  | localAddressDiscovered (addr : Multiaddr)
  | connectionEstablished (peer : AddressablePeer) (dialer : Bool) (connection : ConnectionId)
  | connectionClosed (peer : PeerId) (connection : ConnectionId)
  | messageReceived (peer : PeerId) (connection : ConnectionId) (msg : Message)
  deriving DecidableEq

-- `network::Command`.
inductive Command where
  | connect (addr : Multiaddr) (topic : String)
  | disconnect (peer : PeerId) (connection : ConnectionId)
  | sendMessage (peer : PeerId) (connection : ConnectionId) (msg : Message)
  | banPeer (peer : PeerId)
  | injectEvent (event : SwarmEvent)
  deriving DecidableEq

-- `topic::Event`.
inductive TopicEvent where
  | messageReceived (peer : PeerId) (msg : Message) (connection : ConnectionId)
  | localAddressDiscovered (addr : Multiaddr)
  | peerConnected (peer : AddressablePeer) (connection : ConnectionId)
  | peerDisconnected (peer : PeerId) (connection : ConnectionId)
  | tick

-- `outmsgs` and `cmdtx` hold what was sent into the two channels.
structure TopicInner where
  topicConfig : TopicConfig
  networkConfig : NetworkConfig
  lastShuffle : Nat
  thisNode : AddressablePeer
  outmsgs : List Bytes
  cmdtx : List Command
  activePeers : HashMap PeerId (ConnectionId × HashSet Multiaddr)
  passivePeers : HashMap PeerId (HashSet Multiaddr)
  pendingDials : ExpiringSet IpAddress
  pendingNeighbours : ExpiringSet PeerId
  pendingJoins : ExpiringSet PeerId
  pendingShuffleReplies : ExpiringMap PeerId ShuffleReply
  pendingDisconnects : ExpiringSet PeerId

def nextHop (hop : UInt16) : Except TopicPanic UInt16 :=
  if hop.toNat + 1 < 2^16 then .ok (hop+1) else .error .hopOverflow

def expect (value : Option α) (panic : TopicPanic) : Except TopicPanic α :=
  match value with
  | some a => .ok a
  | none => .error panic

-- Collecting into a hash set of peers keeps the first of every id.
def collectPeers (peers : List AddressablePeer) : HashSet AddressablePeer :=
  peers.foldl (fun set peer => if set.any (·.peerId == peer.peerId) then set else set ++ [peer]) []

def insertAddress (addresses : HashSet Multiaddr) (addr : Multiaddr) : HashSet Multiaddr :=
  if addr ∈ addresses then addresses else addresses ++ [addr]

namespace TopicInner

def send (s : TopicInner) (command : Command) : TopicInner := {s with cmdtx := s.cmdtx ++ [command]}

def sendMessage (s : TopicInner) (peer : PeerId) (connection : ConnectionId) (action : Action) : TopicInner :=
  s.send (.sendMessage peer connection ⟨s.topicConfig.name,action⟩)

def isActive (s : TopicInner) (peer : PeerId) : Bool := s.activePeers.contains peer
def activeViewStarved (s : TopicInner) : Bool := s.activePeers.size < s.networkConfig.minActiveViewSize
def activeViewFull (s : TopicInner) : Bool := s.networkConfig.optimalActiveViewSize ≤ s.activePeers.size
def activeViewOverconnected (s : TopicInner) : Bool := s.networkConfig.optimalActiveViewSize < s.activePeers.size

section
variable (env : Env)

def activeLinks (s : TopicInner) : List (PeerId × ConnectionId) :=
  (env.dice.order .links s.activePeers.keys).filterMap fun peer => s.activePeers[peer]?.map fun link => (peer,link.1)

def disconnect (s : TopicInner) (peer : PeerId) (connection : ConnectionId) : TopicInner :=
  let (old,pending) := s.pendingDisconnects.insert env.now peer
  let s := {s with pendingDisconnects := pending}
  if old then s else s.send (.disconnect peer connection)

def dialAddr (s : TopicInner) (addr : Multiaddr) : TopicInner :=
  match IpAddress.ofMultiaddr addr with
  | none => s
  | some sockaddr =>
    let (old,pending) := s.pendingDials.insert env.now sockaddr
    let s := {s with pendingDials := pending}
    if old then s else s.send (.connect addr s.topicConfig.name)

def isPendingDial (s : TopicInner) (peer : AddressablePeer) : Bool :=
  peer.addresses.any fun addr => match IpAddress.ofMultiaddr addr with
    | some ip => s.pendingDials.contains env.now ip
    | none => false

def removeFromPassiveView (s : TopicInner) (peer : PeerId) : TopicInner :=
  {s with passivePeers := s.passivePeers.erase peer}

def ban (s : TopicInner) (peer : PeerId) : TopicInner :=
  let s := {s with activePeers := s.activePeers.erase peer}
  (s.removeFromPassiveView peer).send (.banPeer peer)

def addToPassiveView (draw : Draw) (s : TopicInner) (peer : AddressablePeer) : Except TopicPanic TopicInner :=
  let old := s.passivePeers[peer.peerId]?
  let s := {s with passivePeers := s.passivePeers.insert peer.peerId peer.addresses}
  match old with
  | some _ => .ok s
  | none => do
    let max ← s.networkConfig.maxPassiveViewSize
    if max < s.passivePeers.size then
      let random ← expect (env.dice.choose draw s.passivePeers.keys) .emptyView
      return s.removeFromPassiveView random
    else return s

def addToActiveView (s : TopicInner) (peer : AddressablePeer) (connection : ConnectionId) : TopicInner :=
  if s.isActive peer.peerId then s
  else if peer.peerId = s.thisNode.peerId then s
  else
    let s := {s with activePeers := s.activePeers.insert peer.peerId (connection,peer.addresses)}
    s.removeFromPassiveView peer.peerId

def moveActiveToPassive (s : TopicInner) (peerId : PeerId) : Except TopicPanic TopicInner :=
  match s.activePeers[peerId]? with
  | none => .ok s
  | some (_,addresses) =>
    addToPassiveView env .eviction {s with activePeers := s.activePeers.erase peerId} ⟨peerId,addresses⟩

-- The result says whether a new attempt was started.
def tryNeighbouringWith (s : TopicInner) (peer : AddressablePeer) : Bool × TopicInner :=
  if s.isActive peer.peerId || s.isPendingDial env peer then (false,s)
  else
    let (old,pending) := s.pendingNeighbours.insert env.now peer.peerId
    let s := {s with pendingNeighbours := pending}
    if old then (false,s) else (true,peer.addresses.foldl (dialAddr env) s)

def tryStabilizeActiveView (s : TopicInner) : Except TopicPanic TopicInner :=
  if s.activeViewStarved && s.pendingDials.isEmpty && s.pendingNeighbours.isEmpty then
    match (env.dice.choose .candidate s.passivePeers.keys).bind fun peer =>
      s.passivePeers[peer]?.map fun addrs => (⟨peer,addrs⟩ : AddressablePeer) with
    | some peer => .ok (s.tryNeighbouringWith env peer).2
    | none =>
      if s.pendingDials.isEmpty && s.pendingJoins.isEmpty then .ok (s.topicConfig.bootstrap.foldl (dialAddr env) s)
      else .ok s
  else if s.activeViewOverconnected && s.pendingDisconnects.isEmpty then do
    let peer ← expect (env.dice.choose .surplus s.activePeers.keys) .emptyView
    let link ← expect s.activePeers[peer]? .emptyView
    return s.disconnect env peer link.1
  else .ok s

def initiateShuffle (s : TopicInner) : Except TopicPanic TopicInner :=
  let s := {s with lastShuffle := env.now}
  if !env.dice.toss then .ok s
  else do
    let size ← s.networkConfig.shuffleSampleSize
    let sample := env.dice.chooseMultiple .exchange (s.activePeers.keys ++ s.passivePeers.keys) size
    match (env.dice.choose .partner s.activePeers.keys).bind fun peer =>
      s.activePeers[peer]?.map fun link => (peer,link.1) with
    | none => return s
    | some (peer,connection) =>
      let peers ← sample.mapM fun id => do
        let addresses ← expect ((s.activePeers[id]?.map Prod.snd).or s.passivePeers[id]?) .unknownSample
        return (⟨id,addresses⟩ : AddressablePeer)
      return s.sendMessage peer connection (.shuffle ⟨1,s.thisNode,collectPeers peers⟩)

-- Event handlers.

def handleNewLocalAddress (s : TopicInner) (addr : Multiaddr) : TopicInner :=
  {s with thisNode := {s.thisNode with addresses := insertAddress s.thisNode.addresses addr}}

def handlePendingNeighbours (s : TopicInner) (peer : AddressablePeer) (connection : ConnectionId) : TopicInner :=
  let (pending,rest) := s.pendingNeighbours.remove env.now peer.peerId
  let s := {s with pendingNeighbours := rest}
  if pending then
    let s := s.sendMessage peer.peerId connection (.neighbour ⟨s.thisNode,s.activePeers.isEmpty⟩)
    s.addToActiveView peer connection
  else s

def handlePendingShuffleReplies (s : TopicInner) (peer : AddressablePeer) (connection : ConnectionId) : TopicInner :=
  let (pending,rest) := s.pendingShuffleReplies.remove env.now peer.peerId
  let s := {s with pendingShuffleReplies := rest}
  match pending with
  | none => s
  | some reply =>
    let s := s.sendMessage peer.peerId connection (.shuffleReply reply)
    if s.isActive peer.peerId then s else s.disconnect env peer.peerId connection

def handleNonPendingConnects (s : TopicInner) (peer : AddressablePeer) (connection : ConnectionId) : TopicInner :=
  if !s.activeViewFull && s.isPendingDial env peer && !s.pendingJoins.contains env.now peer.peerId
      && !s.pendingNeighbours.contains env.now peer.peerId
      && !s.pendingShuffleReplies.containsKey env.now peer.peerId then
    let s := s.sendMessage peer.peerId connection (.join ⟨s.thisNode⟩)
    {s with pendingJoins := (s.pendingJoins.insert env.now peer.peerId).2}
  else s

def forgetDial (s : TopicInner) (addr : Multiaddr) : TopicInner :=
  match IpAddress.ofMultiaddr addr with
  | some ip => {s with pendingDials := (s.pendingDials.remove env.now ip).2}
  | none => s

def handlePeerConnected (s : TopicInner) (peer : AddressablePeer) (connection : ConnectionId) : TopicInner :=
  let s := s.handleNonPendingConnects env peer connection
  let s := s.handlePendingNeighbours env peer connection
  let s := s.handlePendingShuffleReplies env peer connection
  peer.addresses.foldl (forgetDial env) s

def handlePeerDisconnected (s : TopicInner) (peer : PeerId) : Except TopicPanic TopicInner := do
  let s ← s.moveActiveToPassive env peer
  let s := {s with pendingShuffleReplies := (s.pendingShuffleReplies.remove env.now peer).2}
  return {s with pendingDisconnects := (s.pendingDisconnects.remove env.now peer).2}

def prune (s : TopicInner) : TopicInner :=
  {s with
    pendingDials := s.pendingDials.pruneExpired env.now
    pendingDisconnects := s.pendingDisconnects.pruneExpired env.now
    pendingJoins := s.pendingJoins.pruneExpired env.now
    pendingNeighbours := s.pendingNeighbours.pruneExpired env.now
    pendingShuffleReplies := s.pendingShuffleReplies.pruneExpired env.now}

def handleTick (s : TopicInner) : Except TopicPanic TopicInner := do
  let s := s.prune env
  let s ← if s.networkConfig.shuffleInterval < env.now - s.lastShuffle then s.initiateShuffle env else .ok s
  if !s.activeViewFull && s.pendingDials.isEmpty && s.pendingNeighbours.isEmpty then s.tryStabilizeActiveView env
  else return s

-- Message handlers.

def consumeJoin (s : TopicInner) (sender : PeerId) (msg : Join) (connection : ConnectionId) :
    Except TopicPanic TopicInner :=
  if sender ≠ msg.node.peerId then .ok (s.ban sender)
  else if s.isActive sender then .ok s
  else
    let s := (s.activeLinks env).foldl (fun s link => s.sendMessage link.1 link.2 (.forwardJoin ⟨1,msg.node⟩)) s
    let s := s.disconnect env sender connection
    let s := if s.activeViewFull then s else (s.tryNeighbouringWith env msg.node).2
    s.addToPassiveView env .eviction msg.node

-- Frees a slot for the last hop of a FORWARDJOIN.
def makeSpace (s : TopicInner) : Except TopicPanic TopicInner := do
  let random ← expect (env.dice.choose .slot s.activePeers.keys) .emptyView
  let link ← expect s.activePeers[random]? .emptyView
  let s := s.disconnect env random link.1
  let addresses ← expect (s.activePeers[random]?.map Prod.snd) .chosenFromExisting
  s.addToPassiveView env .secondEviction ⟨random,addresses⟩

-- A flood goes on to every active peer but the one it came from.
def forward (s : TopicInner) (sender : PeerId) (hop : UInt16) (action : UInt16 → Action) : Except TopicPanic TopicInner :=
  ((s.activeLinks env).filter fun link => link.1 ≠ sender).foldlM (fun s link => do
    let next ← nextHop hop
    return s.sendMessage link.1 link.2 (action next)) s

def consumeForwardJoin (s : TopicInner) (sender : PeerId) (msg : ForwardJoin) : Except TopicPanic TopicInner :=
  if !s.isActive sender then .ok s
  else if sender = msg.node.peerId then .ok s
  else if msg.node.peerId = s.thisNode.peerId then .ok s
  else do
    let s ← s.addToPassiveView env .eviction msg.node
    if s.networkConfig.randomWalkLength ≤ msg.hop.toNat then
      if s.pendingNeighbours.contains env.now msg.node.peerId then return s
      else
        let s ← if s.activeViewFull then s.makeSpace env else .ok s
        return (s.tryNeighbouringWith env msg.node).2
    else
      let s := if s.activeViewFull then s else (s.tryNeighbouringWith env msg.node).2
      s.forward env sender msg.hop fun hop => .forwardJoin ⟨hop,msg.node⟩

def consumeNeighbor (s : TopicInner) (sender : PeerId) (msg : Neighbour) (connection : ConnectionId) :
    Except TopicPanic TopicInner :=
  if s.isActive sender then .ok s
  else if sender ≠ msg.peer.peerId then .ok (s.ban sender)
  else do
    let s ← if s.activeViewFull && msg.highPriority then do
        let random ← expect (env.dice.choose .slot s.activePeers.keys) .emptyView
        let link ← expect s.activePeers[random]? .emptyView
        pure (s.disconnect env random link.1)
      else pure s
    if !s.activeViewFull then return s.addToActiveView msg.peer connection
    else return s.disconnect env sender connection

def recvPeerIds (msg : Shuffle) (size : Nat) : List PeerId :=
  (env.dice.chooseMultiple .received (msg.peers.map AddressablePeer.peerId) size).dedup

def localPeerIds (s : TopicInner) : List PeerId := (s.activePeers.keys ++ s.passivePeers.keys).dedup

-- The `collect_peer_addrs!` macro.
def collectPeerAddrs (s : TopicInner) (peers : HashSet AddressablePeer) (id : PeerId) :
    Except TopicPanic (HashSet Multiaddr) :=
  match s.passivePeers[id]?,s.activePeers[id]? with
  | some addresses,_ => .ok addresses
  | none,some link => .ok link.2
  | none,none => do
    let peer ← expect (lookupPeer peers id) .onlyRemainingPossibility
    return peer.addresses

def shuffledView (s : TopicInner) (msg : Shuffle) : Except TopicPanic (List PeerId) := do
  let size ← s.networkConfig.shuffleSampleSize
  let newPeers := (recvPeerIds env msg size).filter (· ∉ s.localPeerIds)
  let max ← s.networkConfig.maxPassiveViewSize
  return env.dice.chooseMultiple .view (s.localPeerIds ++ newPeers) max

def answerShuffle (s : TopicInner) (msg : Shuffle) : Except TopicPanic ShuffleReply := do
  let size ← s.networkConfig.shuffleSampleSize
  let respUniquePeers := s.localPeerIds.filter (· ∉ recvPeerIds env msg size)
  let peers ← (env.dice.order .answer respUniquePeers).mapM fun id => do
    return (⟨id,← s.collectPeerAddrs msg.peers id⟩ : AddressablePeer)
  return ⟨peers⟩

-- The reply goes over an open link, or waits for a short-lived connection.
def respond (s : TopicInner) (origin : AddressablePeer) (reply : ShuffleReply) : TopicInner :=
  match s.activePeers[origin.peerId]? with
  | some link => s.sendMessage origin.peerId link.1 (.shuffleReply reply)
  | none =>
    let s := {s with pendingShuffleReplies := (s.pendingShuffleReplies.insert env.now origin.peerId reply).2}
    origin.addresses.foldl (dialAddr env) s

def consumeShuffle (s : TopicInner) (sender : PeerId) (msg : Shuffle) : Except TopicPanic TopicInner :=
  if !s.isActive sender then .ok s
  else do
    let shuffleReply ← s.answerShuffle env msg
    let ids ← s.shuffledView env msg
    let view ← ids.mapM fun id => do return (id,← s.collectPeerAddrs msg.peers id)
    let s := {s with passivePeers := Std.ExtTreeMap.ofList view compare}
    let s := s.respond env msg.origin shuffleReply
    if msg.hop.toNat < s.networkConfig.randomWalkLength then
      s.forward env sender msg.hop fun hop => .shuffle ⟨hop,msg.origin,msg.peers⟩
    else return s

-- The difference is taken from the passive view, so the peers of the reply only
-- take ids away from it.
def consumeShuffleReply (s : TopicInner) (sender : PeerId) (msg : ShuffleReply) (connection : ConnectionId) :
    Except TopicPanic TopicInner := do
  let newPeers := s.passivePeers.keys.filter (· ∉ msg.peers.map AddressablePeer.peerId)
  let max ← s.networkConfig.maxPassiveViewSize
  let view ← (env.dice.chooseMultiple .view (s.passivePeers.keys ++ newPeers) max).mapM fun id =>
    match s.passivePeers[id]? with
    | some addresses => .ok (id,addresses)
    | none => do
      let peer ← expect (lookupPeer msg.peers id) .coveredAllSources
      return (id,peer.addresses)
  let s := {s with passivePeers := Std.ExtTreeMap.ofList view compare}
  if s.isActive sender then return s else return s.disconnect env sender connection

def consumeGossip (s : TopicInner) (sender : PeerId) (msg : Bytes) (connection : ConnectionId) : TopicInner :=
  if !s.isActive sender then s.disconnect env sender connection
  else
    let s := ((s.activeLinks env).filter fun link => link.1 ≠ sender).foldl
      (fun s link => s.sendMessage link.1 link.2 (.gossip msg)) s
    {s with outmsgs := s.outmsgs ++ [msg]}

def handleMessageReceived (s : TopicInner) (sender : PeerId) (msg : Message) (connection : ConnectionId) :
    Except TopicPanic TopicInner :=
  if msg.topic ≠ s.topicConfig.name then .error .invalidTopic
  else match msg.action with
    | .join join => s.consumeJoin env sender join connection
    | .forwardJoin forwardJoin => s.consumeForwardJoin env sender forwardJoin
    | .neighbour neighbour => s.consumeNeighbor env sender neighbour connection
    | .shuffle shuffle => s.consumeShuffle env sender shuffle
    | .shuffleReply reply => s.consumeShuffleReply env sender reply connection
    | .gossip bytes => .ok (s.consumeGossip env sender bytes connection)

def injectEvent (s : TopicInner) (event : TopicEvent) : Except TopicPanic TopicInner :=
  match event with
  | .localAddressDiscovered addr => .ok (s.handleNewLocalAddress addr)
  | .peerConnected peer connection => .ok (s.handlePeerConnected env peer connection)
  | .peerDisconnected peer _ => s.handlePeerDisconnected env peer
  | .messageReceived peer msg connection => s.handleMessageReceived env peer msg connection
  | .tick => s.handleTick env

end

-- A bootstrap node is dialed whether its address has an IP or not.
def dialBootstrap (now : Nat) (s : TopicInner) (addr : Multiaddr) : TopicInner :=
  let s := s.send (.connect addr s.topicConfig.name)
  match IpAddress.ofMultiaddr addr with
  | some ip => {s with pendingDials := (s.pendingDials.insert now ip).2}
  | none => s

def new (now : Nat) (topicConfig : TopicConfig) (networkConfig : NetworkConfig) (thisNode : AddressablePeer) : TopicInner :=
  let timeout := networkConfig.pendingTimeout
  topicConfig.bootstrap.foldl (dialBootstrap now)
    ⟨topicConfig,networkConfig,now,thisNode,[],[],∅,∅,.new timeout,.new timeout,.new timeout,.new timeout,.new timeout⟩

-- `Topic::gossip`, by which the application sends to all active peers.
def gossip (order : List PeerId → List PeerId) (s : TopicInner) (data : Bytes) : Except GossipError TopicInner :=
  if s.networkConfig.maxTransmitSize < data.length then .error .messageTooLarge
  else if s.activePeers.isEmpty then .error .noConnectedPeers
  else .ok ((order s.activePeers.keys).foldl (fun s peer => match s.activePeers[peer]? with
    | some link => s.sendMessage peer link.1 (.gossip data)
    | none => s) s)

def run (s : TopicInner) : List (Env × TopicEvent) → Except TopicPanic TopicInner
  | [] => .ok s
  | (env,event) :: events => do
    let s ← s.injectEvent env event
    run s events

-- The handler that has taken an event. A message is for this topic.
inductive Handled (env : Env) (s : TopicInner) : TopicEvent → TopicInner → Prop where
  | localAddressDiscovered (addr : Multiaddr) : Handled env s (.localAddressDiscovered addr) (s.handleNewLocalAddress addr)
  | peerConnected (peer : AddressablePeer) (connection : ConnectionId) :
      Handled env s (.peerConnected peer connection) (s.handlePeerConnected env peer connection)
  | peerDisconnected (peer : PeerId) (connection : ConnectionId) :
      s.handlePeerDisconnected env peer = .ok s' → Handled env s (.peerDisconnected peer connection) s'
  | join (sender : PeerId) (join : Join) (connection : ConnectionId) : s.consumeJoin env sender join connection = .ok s' →
      Handled env s (.messageReceived sender ⟨s.topicConfig.name,.join join⟩ connection) s'
  | forwardJoin (sender : PeerId) (flood : ForwardJoin) (connection : ConnectionId) :
      s.consumeForwardJoin env sender flood = .ok s' →
      Handled env s (.messageReceived sender ⟨s.topicConfig.name,.forwardJoin flood⟩ connection) s'
  | neighbour (sender : PeerId) (neighbour : Neighbour) (connection : ConnectionId) :
      s.consumeNeighbor env sender neighbour connection = .ok s' →
      Handled env s (.messageReceived sender ⟨s.topicConfig.name,.neighbour neighbour⟩ connection) s'
  | shuffle (sender : PeerId) (shuffle : Shuffle) (connection : ConnectionId) :
      s.consumeShuffle env sender shuffle = .ok s' →
      Handled env s (.messageReceived sender ⟨s.topicConfig.name,.shuffle shuffle⟩ connection) s'
  | shuffleReply (sender : PeerId) (reply : ShuffleReply) (connection : ConnectionId) :
      s.consumeShuffleReply env sender reply connection = .ok s' →
      Handled env s (.messageReceived sender ⟨s.topicConfig.name,.shuffleReply reply⟩ connection) s'
  | gossip (sender : PeerId) (bytes : Bytes) (connection : ConnectionId) :
      Handled env s (.messageReceived sender ⟨s.topicConfig.name,.gossip bytes⟩ connection)
        (s.consumeGossip env sender bytes connection)
  | tick : s.handleTick env = .ok s' → Handled env s .tick s'

theorem injectEvent_handled {env : Env} {s s' : TopicInner} {event : TopicEvent}
    (handled : s.injectEvent env event = .ok s') : Handled env s event s' := by
  cases event with
  | localAddressDiscovered addr =>
      cases handled
      exact .localAddressDiscovered addr
  | peerConnected peer connection =>
      cases handled
      exact .peerConnected peer connection
  | peerDisconnected peer connection => exact .peerDisconnected peer connection handled
  | tick => exact .tick handled
  | messageReceived sender msg connection =>
      obtain ⟨topic,action⟩ := msg
      unfold injectEvent handleMessageReceived at handled
      dsimp only at handled
      split at handled
      · cases handled
      · rename_i named
        obtain rfl := of_not_not named
        cases action with
        | join join => exact .join sender join connection handled
        | forwardJoin flood => exact .forwardJoin sender flood connection handled
        | neighbour neighbour => exact .neighbour sender neighbour connection handled
        | shuffle shuffle => exact .shuffle sender shuffle connection handled
        | shuffleReply reply => exact .shuffleReply sender reply connection handled
        | gossip bytes =>
            cases handled
            exact .gossip sender bytes connection

end TopicInner

def Dice.first : Dice where
  choose _ ids := ids.head?
  chooseMultiple _ ids n := ids.take n
  order _ ids := ids
  toss := true
  choose_mem _ _ _ := List.mem_of_mem_head?
  choose_some _ ids some := by
    obtain ⟨id,rest,rfl⟩ := List.exists_cons_of_ne_nil some
    simp
  chooseMultiple_mem _ ids n := (List.take_sublist n ids).subperm
  chooseMultiple_length _ ids n := List.length_take
  order_perm _ ids := .refl ids

-- One topic under the default configuration, with times in milliseconds.
namespace TopicExample

def config : NetworkConfig := ⟨8,6,6,2,1048576,180000,some 5000,15000⟩
def peer (n : UInt8) : AddressablePeer :=
  ⟨⟨0,[0x08,0x01,0x12,0x20] ++ List.replicate 32 n⟩,[[.ip4 (BitVec.ofNat 32 n.toNat)]]⟩
def topic : TopicInner := .new 0 ⟨"topic",[]⟩ config (peer 0)
def env : Env := ⟨0,.first⟩
def receives (sender : UInt8) (action : Action) : Env × TopicEvent :=
  (env,.messageReceived (peer sender).peerId ⟨"topic",action⟩ sender.toNat)

def exchange : List (Env × TopicEvent) :=
  [receives 1 (.neighbour ⟨peer 1,true⟩),receives 1 (.shuffle ⟨1,peer 1,[peer 0]⟩)]

def visits : List (Env × TopicEvent) :=
  [receives 1 (.neighbour ⟨peer 1,true⟩),(env,.peerDisconnected (peer 1).peerId 1),receives 2 (.join ⟨peer 2⟩),
   receives 2 (.neighbour ⟨peer 2,true⟩)]

end TopicExample

end AnomaAlpha
