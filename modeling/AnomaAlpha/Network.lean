import AnomaAlpha.Muxer
import AnomaAlpha.Topic

namespace AnomaAlpha

-- `runloop::Command`.
inductive RunloopCommand where
  | connect (addr : Multiaddr)
  | disconnect (peer : PeerId) (connection : ConnectionId)
  | banPeer (peer : PeerId)
  | sendMessage (peer : PeerId) (connection : ConnectionId) (msg : Message)

-- What a step of the network finds: the clock, the dice of every topic, and what
-- iterators over its own maps give.
structure Turn where
  now : Nat
  dice : TopicName → Dice
  topics : List TopicName → List TopicName
  topics_perm : ∀ names, (topics names).Perm names
  host : Pick IpAddress
  request : Pick TopicName

def Turn.env (turn : Turn) (topic : TopicName) : Env := ⟨turn.now,turn.dice topic⟩

def Turn.first (now : Nat) : Turn := ⟨now,fun _ => .first,id,fun _ => .refl _,.first _,.first _⟩

inductive NetworkPanic where
  | topic (panic : TopicPanic)
  | topicNotJoined
  | dialNotTracked
  | resolvesToNone
  | connectionNotMapped
  deriving DecidableEq

inductive NetworkError where
  | topicAlreadyJoined (name : TopicName)

-- `runloop` holds what was sent to the runloop, `commands` what waits in the
-- channel that the runloop and the topics share.
structure Network where
  config : NetworkConfig
  this : AddressablePeer
  runloop : List RunloopCommand
  commands : List Command
  topics : HashMap TopicName TopicInner
  muxer : Muxer
  history : Option (ExpiringSet Multihash)

namespace Network

def new (config : NetworkConfig) (peerId : PeerId) : Network :=
  ⟨config,⟨peerId,[]⟩,[],[],∅,.new config.pendingTimeout,config.dedupeInterval.map .new⟩

def sendCommand (n : Network) (command : RunloopCommand) : Network := {n with runloop := n.runloop ++ [command]}

def putTopic (n : Network) (name : TopicName) (topic : TopicInner) : Network :=
  {n with
    topics := n.topics.insert name {topic with cmdtx := []}
    commands := n.commands ++ topic.cmdtx}

def join (now : Nat) (n : Network) (config : TopicConfig) : Except NetworkError Network :=
  if n.topics.contains config.name then .error (.topicAlreadyJoined config.name)
  else .ok (n.putTopic config.name (.new now config n.config n.this))

def gossip (turn : Turn) (n : Network) (name : TopicName) (data : Bytes) : Network :=
  match n.topics[name]? with
  | none => n
  | some topic => match topic.gossip ((turn.dice name).order .links) data with
    | .ok topic => n.putTopic name topic
    | .error _ => n

def banPeer (n : Network) (peer : PeerId) : Network := n.sendCommand (.banPeer peer)

section
variable (turn : Turn)

def injectTopic (n : Network) (name : TopicName) (topic : TopicInner) (event : TopicEvent) : Except NetworkPanic Network := do
  let topic ← (topic.injectEvent (turn.env name) event).mapError .topic
  return n.putTopic name topic

def injectAll (n : Network) (event : TopicEvent) : Except NetworkPanic Network :=
  (turn.topics n.topics.keys).foldlM (fun n name => match n.topics[name]? with
    | none => .ok n
    | some topic => n.injectTopic turn name topic event) n

def dialNext (n : Network) (addr : Multiaddr) (topic : TopicName) : Bool × Network :=
  let (dial,muxer) := n.muxer.nextDial turn.now addr topic
  let n := {n with muxer := muxer}
  if dial then (true,n.sendCommand (.connect addr)) else (false,n)

def beginConnect (n : Network) (addr : Multiaddr) (topic : TopicName) : Network :=
  ({n with muxer := n.muxer.putDial addr topic}.dialNext turn addr topic).2

def dialAnother (n : Network) (topic : TopicName) : HashSet Multiaddr → Network
  | [] => n
  | addr :: addresses => match n.dialNext turn addr topic with
    | (true,n) => n
    | (false,n) => dialAnother n topic addresses

def completeConnect (n : Network) (peer : AddressablePeer) (connection : ConnectionId) (dialer : Bool) :
    Except NetworkPanic Network :=
  if dialer then
    match n.muxer.matchDial turn.now peer.peerId connection peer.addresses with
    | (none,_) => .error .dialNotTracked
    | (some name,muxer) =>
      let n := {n with muxer := muxer}.dialAnother turn name peer.addresses
      match n.topics[name]? with
      | none => .error .topicNotJoined
      | some topic => n.injectTopic turn name topic (.peerConnected peer connection)
  else .ok {n with muxer := n.muxer.register peer connection}

def beginDisconnect (n : Network) (peer : PeerId) (connection : ConnectionId) : Network :=
  n.sendCommand (.disconnect peer connection)

def completeDisconnect (n : Network) (peer : PeerId) (connection : ConnectionId) : Except NetworkPanic Network := do
  let n ← match n.muxer.resolveTopic peer connection with
    | none => pure n
    | some name => match n.topics[name]? with
      | none => .error .resolvesToNone
      | some topic => n.injectTopic turn name topic (.peerDisconnected peer connection)
  return {n with muxer := n.muxer.disconnect peer connection}

def appendLocalAddress (n : Network) (addr : Multiaddr) : Except NetworkPanic Network :=
  {n with this := {n.this with addresses := insertAddress n.this.addresses addr}}.injectAll turn
    (.localAddressDiscovered addr)

-- A message that is still remembered has the time of its entry renewed.
def remember (hash : Message → Multihash) (n : Network) (msg : Message) : Bool × Network :=
  match n.history with
  | none => (false,n)
  | some history =>
    let (duplicate,history) := history.insert turn.now (hash msg)
    (duplicate,{n with history := some history})

def announce (n : Network) (name : TopicName) (peer : Option AddressablePeer) (connection : ConnectionId) :
    Except NetworkPanic Network :=
  match peer,n.topics[name]? with
  | some peer,some topic => n.injectTopic turn name topic (.peerConnected peer connection)
  | _,_ => .ok n

-- A message that names another topic than its connection is bound to gets the
-- sender banned.
def deliver (n : Network) (sender : PeerId) (connection : ConnectionId) (msg : Message) : Except NetworkPanic Network :=
  match n.muxer.resolveTopic sender connection with
  | none => .error .connectionNotMapped
  | some name =>
    if name = msg.topic then match n.topics[msg.topic]? with
      | some topic => n.injectTopic turn msg.topic topic (.messageReceived sender msg connection)
      | none => .ok n
    else .ok (n.banPeer sender)

-- The first message on a connection binds it to the topic that it names.
def routeMessage (n : Network) (sender : PeerId) (connection : ConnectionId) (msg : Message) :
    Except NetworkPanic Network := do
  let (peer,muxer) := n.muxer.assign sender connection msg.topic
  let n ← {n with muxer := muxer}.announce turn msg.topic peer connection
  n.deliver turn sender connection msg

def acceptMessage (hash : Message → Multihash) (n : Network) (sender : PeerId) (connection : ConnectionId)
    (msg : Message) : Except NetworkPanic Network :=
  if !n.topics.contains msg.topic then .ok (n.sendCommand (.disconnect sender connection))
  else
    let (duplicate,n) := n.remember turn hash msg
    if duplicate then .ok n else n.routeMessage turn sender connection msg

def injectEvent (hash : Message → Multihash) (n : Network) (event : SwarmEvent) : Except NetworkPanic Network :=
  match event with
  | .messageReceived sender connection msg => n.acceptMessage turn hash sender connection msg
  | .localAddressDiscovered addr => n.appendLocalAddress turn addr
  | .connectionEstablished peer dialer connection => n.completeConnect turn peer connection dialer
  | .connectionClosed peer connection => n.completeDisconnect turn peer connection

def tick (n : Network) : Except NetworkPanic Network := do
  let n ← n.injectAll turn .tick
  let n := {n with
    muxer := n.muxer.pruneExpired turn.now
    history := n.history.map fun history => history.pruneExpired turn.now}
  match n.muxer.pollDial turn.host turn.request with
  | none => return n
  | some (topic,addr) => return (n.dialNext turn addr topic).2

def handleCommand (hash : Message → Multihash) (n : Network) (command : Command) : Except NetworkPanic Network :=
  match command with
  | .connect addr topic => .ok (n.beginConnect turn addr topic)
  | .disconnect peer connection => .ok (n.beginDisconnect peer connection)
  | .sendMessage peer connection msg => .ok (n.sendCommand (.sendMessage peer connection msg))
  | .banPeer peer => .ok (n.banPeer peer)
  | .injectEvent event => n.injectEvent turn hash event

end

-- What makes the network take a step: its timer, a command in its channel, an
-- event that the runloop puts there, and calls of the application.
inductive Input where
  | tick
  | command
  | event (event : SwarmEvent)
  | join (config : TopicConfig)
  | gossip (name : TopicName) (data : Bytes)

def step (hash : Message → Multihash) (n : Network) (turn : Turn) (input : Input) : Except NetworkPanic Network :=
  match input with
  | .tick => n.tick turn
  | .command => match n.commands with
    | [] => .ok n
    | command :: commands => {n with commands := commands}.handleCommand turn hash command
  | .event event => .ok {n with commands := n.commands ++ [.injectEvent event]}
  | .join config => match n.join turn.now config with
    | .ok n => .ok n
    | .error _ => .ok n
  | .gossip name data => .ok (n.gossip turn name data)

def run (hash : Message → Multihash) (n : Network) : List (Turn × Input) → Except NetworkPanic Network
  | [] => .ok n
  | (turn,input) :: inputs => do
    let n ← n.step hash turn input
    run hash n inputs

end Network

namespace NetworkExample
open TopicExample

def neighbour : Message := ⟨"topic",.neighbour ⟨peer 1,true⟩⟩
def join : Message := ⟨"topic",.join ⟨peer 2⟩⟩
def gossip : Message := ⟨"topic",.gossip [7]⟩

def digest (msg : Message) : Bytes :=
  if msg = neighbour then
    [0xf0,0x6d,0xe3,0x55,0x88,0x73,0xb4,0x32,0x45,0x38,0xf0,0xc6,0x5b,0x2a,0x7b,0xd6,
     0xe4,0x01,0xcb,0x26,0xc7,0x2c,0xc3,0xac,0xce,0xc7,0xb7,0xb7,0x3a,0x19,0xe0,0x0d]
  else if msg = join then
    [0x1d,0x83,0xa9,0x93,0xd7,0xec,0xfc,0x7c,0xfd,0x44,0xad,0x32,0x2a,0x00,0x20,0x91,
     0xde,0xd9,0x74,0xd5,0x95,0x9b,0x59,0x9c,0xbf,0x0f,0x85,0x37,0x1c,0xb8,0x3a,0x13]
  else if msg = gossip then
    [0xd1,0xa0,0x7a,0x1d,0xa3,0xcc,0x9e,0x41,0x3a,0x01,0xc0,0x8e,0xbf,0x23,0xb2,0x87,
     0x85,0xa5,0x11,0x3c,0xd3,0x40,0x25,0x7d,0xfe,0x5a,0x73,0xa9,0xea,0x49,0x28,0x09]
  else List.replicate 32 0

def hash (msg : Message) : Multihash := ⟨sha3Code,digest msg⟩

def arrival (sender : UInt8) (msg : Message) : SwarmEvent := .messageReceived (peer sender).peerId sender.toNat msg

def visitors : List (Turn × Network.Input) :=
  [.join ⟨"topic",[]⟩,.event (.connectionEstablished (peer 1) false 1),.event (arrival 1 neighbour),
   .event (.connectionEstablished (peer 2) false 2),.event (arrival 2 join),
   .command,.command,.command,.command,.command,.command,.command].map fun input => (.first 0,input)

def tells (first second : UInt8) : List (Turn × Network.Input) :=
  visitors ++ [(.first 0,.event (arrival first gossip)),(.first 0,.event (arrival second gossip))]

def start : Network := .new config (peer 0).peerId
def window : List (Turn × Network.Input) := [(.first 1000,.command),(.first 2000,.command)]

def copyArrives (n : Network) (now : Nat) (sender : UInt8) : Bool :=
  n.commands.head? = some (.injectEvent (arrival sender gossip)) && n.muxer.bound (peer sender).peerId sender.toNat "topic" &&
    n.history.all fun history => !history.contains now (hash gossip)

def linked (n : Network) (sender : UInt8) : Option Bool :=
  n.topics["topic"]?.map fun topic => topic.isActive (peer sender).peerId

end NetworkExample

end AnomaAlpha
