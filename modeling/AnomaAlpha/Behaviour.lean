import AnomaAlpha.Network
import AnomaAlpha.Pipe

-- The behaviour between the runloop and the connection handlers: three channels
-- that one poll looks at in a fixed order.
namespace AnomaAlpha
open PollLoop

structure Behaviour where
  config : NetworkConfig
  events : List SwarmEvent
  disconnects : List (PeerId × ConnectionId)
  outmsgs : List (PeerId × ConnectionId × Message)

inductive BehaviourAction where
  | generateEvent (event : SwarmEvent)
  | closeConnection (peer : PeerId) (connection : ConnectionId)
  | notifyHandler (peer : PeerId) (connection : ConnectionId) (event : Message)
  deriving DecidableEq

-- What the runloop and the swarm call it with.
inductive BehaviourCall where
  | command (command : RunloopCommand)
  | established (peer : PeerId) (connection : ConnectionId) (remote : Multiaddr) (dialer : Bool)
  | closed (peer : PeerId) (connection : ConnectionId)
  | event (peer : PeerId) (connection : ConnectionId) (message : Message)
  | listens (addr : Multiaddr)

-- 127.0.0.1 and 0.0.0.0, `::1` and `::`.
def isLocalAddress (addr : Multiaddr) : Bool := addr.any fun
  | .ip4 ip => ip == 0x7f000001#32 || ip == 0#32
  | .ip6 ip => ip == 1#128 || ip == 0#128
  | .other _ => false

namespace Behaviour

def new (config : NetworkConfig) : Behaviour := ⟨config,[],[],[]⟩

def newHandler (b : Behaviour) : SubstreamHandler Unit := .new b.config

def raise (b : Behaviour) (event : SwarmEvent) : Behaviour := {b with events := b.events ++ [event]}

def sendTo (b : Behaviour) (peer : PeerId) (connection : ConnectionId) (msg : Message) : Behaviour :=
  {b with outmsgs := b.outmsgs ++ [(peer,connection,msg)]}

def disconnectFrom (b : Behaviour) (peer : PeerId) (connection : ConnectionId) : Behaviour :=
  {b with disconnects := b.disconnects ++ [(peer,connection)]}

def injectEvent (b : Behaviour) (peer : PeerId) (connection : ConnectionId) (event : Message) : Behaviour :=
  b.raise (.messageReceived peer connection event)

def injectConnectionEstablished (b : Behaviour) (peer : PeerId) (connection : ConnectionId) (remote : Multiaddr)
    (dialer : Bool) : Behaviour :=
  b.raise (.connectionEstablished ⟨peer,[remote]⟩ dialer connection)

def injectConnectionClosed (b : Behaviour) (peer : PeerId) (connection : ConnectionId) : Behaviour :=
  b.raise (.connectionClosed peer connection)

def injectNewListenAddr (b : Behaviour) (addr : Multiaddr) : Behaviour :=
  if !isLocalAddress addr then b.raise (.localAddressDiscovered addr) else b

-- The arms of the runloop that reach the behaviour; dialing and banning are the
-- swarm's.
def carry (b : Behaviour) : RunloopCommand → Behaviour
  | .connect _ | .banPeer _ => b
  | .disconnect peer connection => b.disconnectFrom peer connection
  | .sendMessage peer connection msg => b.sendTo peer connection msg

def call (b : Behaviour) : BehaviourCall → Behaviour
  | .command command => b.carry command
  | .established peer connection remote dialer => b.injectConnectionEstablished peer connection remote dialer
  | .closed peer connection => b.injectConnectionClosed peer connection
  | .event peer connection message => b.injectEvent peer connection message
  | .listens addr => b.injectNewListenAddr addr

def poll (b : Behaviour) : Poll BehaviourAction × Behaviour :=
  match b.events with
  | event :: events => (.ready (.generateEvent event),{b with events := events})
  | [] => match b.disconnects with
    | (peer,connection) :: disconnects => (.ready (.closeConnection peer connection),{b with disconnects := disconnects})
    | [] => match b.outmsgs with
      | (peer,connection,msg) :: outmsgs => (.ready (.notifyHandler peer connection msg),{b with outmsgs := outmsgs})
      | [] => (.pending,b)

end Behaviour

namespace BehaviourCall

def raises : BehaviourCall → Option SwarmEvent
  | .command _ => none
  | .established peer connection remote dialer => some (.connectionEstablished ⟨peer,[remote]⟩ dialer connection)
  | .closed peer connection => some (.connectionClosed peer connection)
  | .event peer connection message => some (.messageReceived peer connection message)
  | .listens addr => if isLocalAddress addr then none else some (.localAddressDiscovered addr)

def sends : BehaviourCall → Option (PeerId × ConnectionId × Message)
  | .command (.sendMessage peer connection msg) => some (peer,connection,msg)
  | _ => none

def parts : BehaviourCall → Option (PeerId × ConnectionId)
  | .command (.disconnect peer connection) => some (peer,connection)
  | _ => none

end BehaviourCall

namespace Behaviour
variable {b : Behaviour}

@[simp] theorem call_events (call : BehaviourCall) : (b.call call).events = b.events ++ call.raises.toList := by
  cases call with
  | command command => cases command <;> exact (List.append_nil _).symm
  | listens addr =>
      cases nearby : isLocalAddress addr <;> simp [call,injectNewListenAddr,raise,BehaviourCall.raises,nearby]
  | established | closed | event => rfl

@[simp] theorem call_disconnects (call : BehaviourCall) :
    (b.call call).disconnects = b.disconnects ++ call.parts.toList := by
  cases call with
  | command command => cases command with
    | disconnect peer connection => rfl
    | connect | banPeer | sendMessage => exact (List.append_nil _).symm
  | listens addr =>
      cases nearby : isLocalAddress addr <;> simp [call,injectNewListenAddr,raise,BehaviourCall.parts,nearby]
  | established | closed | event => exact (List.append_nil _).symm

@[simp] theorem call_outmsgs (call : BehaviourCall) : (b.call call).outmsgs = b.outmsgs ++ call.sends.toList := by
  cases call with
  | command command => cases command with
    | sendMessage peer connection msg => rfl
    | connect | banPeer | disconnect => exact (List.append_nil _).symm
  | listens addr =>
      cases nearby : isLocalAddress addr <;> simp [call,injectNewListenAddr,raise,BehaviourCall.sends,nearby]
  | established | closed | event => exact (List.append_nil _).symm

-- What a poll comes to: events go before closings, and closings before messages.
inductive Polls (b : Behaviour) : Poll BehaviourAction × Behaviour → Prop where
  | event {event : SwarmEvent} {events : List SwarmEvent} : b.events = event :: events →
      Polls b (.ready (.generateEvent event),{b with events := events})
  | closing {peer : PeerId} {connection : ConnectionId} {disconnects : List (PeerId × ConnectionId)} : b.events = [] →
      b.disconnects = (peer,connection) :: disconnects →
      Polls b (.ready (.closeConnection peer connection),{b with disconnects := disconnects})
  | message {peer : PeerId} {connection : ConnectionId} {msg : Message}
      {outmsgs : List (PeerId × ConnectionId × Message)} : b.events = [] → b.disconnects = [] →
      b.outmsgs = (peer,connection,msg) :: outmsgs →
      Polls b (.ready (.notifyHandler peer connection msg),{b with outmsgs := outmsgs})
  | idle : b.events = [] → b.disconnects = [] → b.outmsgs = [] → Polls b (.pending,b)

theorem polls (b : Behaviour) : Polls b b.poll := by
  unfold poll
  split
  · rename_i queued
    exact .event queued
  · rename_i calm
    split
    · rename_i queued
      exact .closing calm queued
    · rename_i together
      split
      · rename_i queued
        exact .message calm together queued
      · rename_i quiet
        exact .idle calm together quiet

end Behaviour
end AnomaAlpha
