import AnomaAlpha.Codec
import Mathlib.Data.List.Basic

-- A machine that is polled: it runs in rounds until one of them has an answer.
-- Every round meets an outcome of its own and leaves notes of what it did.
namespace PollLoop

inductive Poll (A : Type) where
  | pending
  | ready (value : A)
  deriving DecidableEq

-- Without an answer the loop goes on.
structure Lap (H N E : Type) where
  after : H
  notes : List N
  answer : Option (Poll E)

variable {H N E W : Type} {round : W → H → Lap H N E} {weather : Nat → W} {fuel : Nat} {h : H}

def Lap.follow (first second : Lap H N E) : Lap H N E :=
  ⟨second.after,first.notes ++ second.notes,second.answer⟩

def loop (round : W → H → Lap H N E) : Nat → (Nat → W) → H → Lap H N E
  | 0,_,h => ⟨h,[],none⟩
  | fuel+1,weather,h =>
    let first := round (weather 0) h
    match first.answer with
    | some _ => first
    | none => first.follow (loop round fuel (fun n => weather (n+1)) first.after)

theorem loop_rule (P : H → Lap H N E → Prop) (idle : ∀ h, P h ⟨h,[],none⟩) (each : ∀ outcome h, P h (round outcome h))
    (follow : ∀ h first second, P h first → first.answer = none → P first.after second → P h (first.follow second))
    (fuel : Nat) (weather : Nat → W) (h : H) : P h (loop round fuel weather h) := by
  induction fuel generalizing weather h with
  | zero => exact idle h
  | succ fuel ih =>
      unfold loop
      dsimp only
      split
      · exact each (weather 0) h
      · rename_i goesOn
        exact follow h _ _ (each (weather 0) h) goesOn (ih _ _)

theorem loop_answers (rank : H → Nat)
    (falls : ∀ outcome h, (round outcome h).answer = none → rank (round outcome h).after < rank h)
    (enough : rank h < fuel) : (loop round fuel weather h).answer.isSome = true := by
  induction fuel generalizing weather h with
  | zero => exact absurd enough (Nat.not_lt_zero _)
  | succ fuel ih =>
      unfold loop
      dsimp only
      split
      · rename_i answered
        rw [answered]
        rfl
      · rename_i goesOn
        exact ih (Nat.lt_of_lt_of_le (falls (weather 0) h goesOn) (Nat.le_of_lt_succ enough))

end PollLoop

namespace AnomaAlpha
open PollLoop

inductive InboundSubstreamState (S : Type) where
  | awaitingRead (substream : S)
  | closing (substream : S)
  | poisoned
  deriving DecidableEq

inductive OutboundSubstreamState (S : Type) where
  | substreamRequested
  | awaitingWrite (substream : S)
  | pendingWrite (substream : S) (message : Message)
  | pendingFlush (substream : S)
  | closing (substream : S)
  | poisoned
  deriving DecidableEq

inductive KeepAlive where
  | yes
  | no
  deriving DecidableEq

structure ProtocolUpgrade where
  maxTransmitSize : Nat
  deriving DecidableEq

-- A substream is what the two sides have negotiated; what becomes of it while it
-- is polled is told by the outcomes of the polls.
structure SubstreamHandler (S : Type) where
  listenProtocol : ProtocolUpgrade
  inboundStream : Option (InboundSubstreamState S)
  outboundStream : Option (OutboundSubstreamState S)
  keepAlive : KeepAlive
  outboundMessages : List Message
  deriving DecidableEq

-- `ConnectionHandlerEvent`.
inductive HandlerEvent where
  | custom (message : Message)
  | close (error : UpgradeError)
  | outboundSubstreamRequest (protocol : ProtocolUpgrade)
  deriving DecidableEq

structure Reading where
  next : Poll (Option (Except UpgradeError Message))
  close : Poll (Except UpgradeError Unit)

-- What one round of the outbound loop finds. The channel may keep a message back
-- although it has one.
structure Writing where
  recv : Bool
  ready : Poll (Except UpgradeError Unit)
  startSend : Except UpgradeError Unit
  flush : Poll (Except UpgradeError Unit)
  close : Poll (Except UpgradeError Unit)

structure Outcomes where
  inbound : Nat → Reading
  outbound : Nat → Writing

-- What becomes of a message that was taken from the queue: `start_send` accepts it,
-- or it is refused as too long, or an error drops it.
inductive Fate where
  | sent
  | oversized
  | dropped
  deriving DecidableEq

inductive Note where
  | took (message : Message)
  | settled (fate : Fate) (message : Message)
  deriving DecidableEq

namespace SubstreamHandler
variable {S : Type}

def new (config : NetworkConfig) : SubstreamHandler S := ⟨⟨config.maxTransmitSize⟩,none,none,.yes,[]⟩

def injectFullyNegotiatedInbound (h : SubstreamHandler S) (substream : S) : SubstreamHandler S :=
  {h with inboundStream := some (.awaitingRead substream)}

def injectFullyNegotiatedOutbound (h : SubstreamHandler S) (substream : S) : SubstreamHandler S :=
  {h with outboundStream := some (.awaitingWrite substream)}

def injectEvent (h : SubstreamHandler S) (event : Message) : SubstreamHandler S :=
  {h with outboundMessages := h.outboundMessages ++ [event]}

def injectDialUpgradeError (h : SubstreamHandler S) : SubstreamHandler S :=
  {h with inboundStream := some .poisoned, outboundStream := some .poisoned}

-- Every round takes the state out and leaves `Poisoned` behind, which stays
-- wherever no other state is put back.
def inboundRound (found : Reading) (h : SubstreamHandler S) : Lap (SubstreamHandler S) Note HandlerEvent :=
  let state := h.inboundStream
  let h := {h with inboundStream := some .poisoned}
  match state with
  | some (.awaitingRead substream) => match found.next with
    | .ready (some (.ok message)) =>
      ⟨{h with inboundStream := some (.awaitingRead substream)},[],some (.ready (.custom message))⟩
    | .ready (some (.error _)) => ⟨h,[],none⟩
    | .ready none => ⟨{h with inboundStream := some (.closing substream)},[],none⟩
    | .pending => ⟨{h with inboundStream := some (.awaitingRead substream)},[],some .pending⟩
  | some (.closing substream) => match found.close with
    | .ready _ =>
      let h := {h with inboundStream := none}
      ⟨if h.outboundStream.isNone then {h with keepAlive := .no} else h,[],some .pending⟩
    | .pending => ⟨{h with inboundStream := some (.closing substream)},[],some .pending⟩
  | some .poisoned => ⟨{h with keepAlive := .no},[],some .pending⟩
  | none => ⟨{h with inboundStream := none},[],some .pending⟩

def outboundRound (found : Writing) (h : SubstreamHandler S) : Lap (SubstreamHandler S) Note HandlerEvent :=
  let state := h.outboundStream
  let h := {h with outboundStream := some .poisoned}
  match state with
  | some (.awaitingWrite substream) => match (if found.recv then h.outboundMessages else []) with
    | msg :: rest =>
      ⟨{h with outboundStream := some (.pendingWrite substream msg), outboundMessages := rest},[.took msg],none⟩
    | [] => ⟨{h with outboundStream := some (.awaitingWrite substream)},[],some .pending⟩
  | some (.pendingWrite substream message) => match found.ready with
    | .ready (.ok ()) => match found.startSend with
      | .ok () => ⟨{h with outboundStream := some (.pendingFlush substream)},[.settled .sent message],none⟩
      | .error .maxTransmissionSizeExceeded =>
        ⟨{h with outboundStream := some (.awaitingWrite substream)},[.settled .oversized message],none⟩
      | .error e =>
        ⟨{h with outboundStream := some (.closing substream)},[.settled .dropped message],some (.ready (.close e))⟩
    | .ready (.error e) =>
      ⟨{h with outboundStream := some (.closing substream)},[.settled .dropped message],some (.ready (.close e))⟩
    | .pending =>
      ⟨{h with keepAlive := .yes, outboundStream := some (.pendingWrite substream message)},[],some .pending⟩
  | some (.pendingFlush substream) => match found.flush with
    | .ready (.ok ()) => ⟨{h with outboundStream := some (.awaitingWrite substream)},[],none⟩
    | .ready (.error e) => ⟨{h with outboundStream := some (.closing substream)},[],some (.ready (.close e))⟩
    | .pending => ⟨{h with keepAlive := .yes, outboundStream := some (.pendingFlush substream)},[],some .pending⟩
  | some (.closing substream) => match found.close with
    | .ready (.ok ()) =>
      let h := {h with outboundStream := none}
      ⟨if h.inboundStream.isNone then {h with keepAlive := .no} else h,[],some .pending⟩
    | .ready (.error _) => ⟨h,[],some (.ready (.close (.io "Failed to close outbound substream")))⟩
    | .pending => ⟨{h with keepAlive := .no, outboundStream := some (.closing substream)},[],some .pending⟩
  | some .substreamRequested => ⟨{h with outboundStream := some .substreamRequested},[],some .pending⟩
  | some .poisoned => ⟨{h with keepAlive := .no},[],some .pending⟩
  | none =>
    ⟨{h with outboundStream := some .substreamRequested},[],some (.ready (.outboundSubstreamRequest h.listenProtocol))⟩

-- A bound on the rounds that come before the last one.
def inboundRank (h : SubstreamHandler S) : Nat := match h.inboundStream with
  | some (.awaitingRead _) => 1
  | _ => 0

def outboundRank (h : SubstreamHandler S) : Nat := 3 * h.outboundMessages.length + match h.outboundStream with
  | some (.pendingWrite _ _) => 2
  | some (.pendingFlush _) => 1
  | _ => 0

def processInboundPoll (found : Nat → Reading) (h : SubstreamHandler S) : Lap (SubstreamHandler S) Note HandlerEvent :=
  loop inboundRound (h.inboundRank + 1) found h

def processOutboundPoll (found : Nat → Writing) (h : SubstreamHandler S) : Lap (SubstreamHandler S) Note HandlerEvent :=
  loop outboundRound (h.outboundRank + 1) found h

def poll (found : Outcomes) (h : SubstreamHandler S) : Lap (SubstreamHandler S) Note HandlerEvent :=
  let inbound := h.processInboundPoll found.inbound
  match inbound.answer with
  | some (.ready _) => inbound
  | _ => inbound.follow (inbound.after.processOutboundPoll found.outbound)

end SubstreamHandler
end AnomaAlpha
