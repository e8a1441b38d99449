import PacketTunnel.Datagram
import PacketTunnel.Host.Job
import PacketTunnel.Session.Basic

/-!
# Engines

An engine is one side of a tunnel as a state machine. It reacts to an event at a time with a new
state and actions: datagrams to send and packets to deliver to the device. Conditions decide, action
by action, which of them succeed; what succeeds is emitted, and the engine is credited for it. The
reaction itself does not depend on the conditions.
-/
namespace PacketTunnel

inductive Event where
  | packet (bytes : Bytes)
  | datagram (bytes : Bytes) (sender : Endpoint)
  | outcome (outcome : HostOutcome)
  /-- Time passes; the calendar shows the given milliseconds since 1970. -/
  | tick (calendar : UInt64)
  | shutdown
deriving DecidableEq, Repr

inductive Action where
  | send (message : Message) (recipient : Endpoint)
  | deliver (packet : Bytes)
deriving DecidableEq, Repr

inductive Emission where
  | datagram (message : Message) (bytes : Bytes) (recipient : Endpoint)
  | packet (bytes : Bytes)
deriving DecidableEq, Repr

/-- The surroundings of one step, by the position of an action: the initialisation vector that a
datagram gets, and whether the socket and the device work. -/
structure Conditions where
  vector : Nat → Block
  sends : Nat → Bool
  writes : Nat → Bool

def Action.perform? (codec : Codec) (c : Conditions) (position : Nat) : Action → Option Emission
  | send message recipient =>
    match codec.encode (c.vector position) message with
    | .ok bytes => if c.sends position then some (.datagram message bytes recipient) else none
    | .error _ => none
  | deliver packet => if c.writes position then some (.packet packet) else none

def Action.performAll (codec : Codec) (c : Conditions) (actions : List Action) : List Emission :=
  actions.zipIdx.filterMap fun (action, position) => action.perform? codec c position

/-- One side of a tunnel, over states of type `σ`. -/
structure Engine (σ : Type) where
  codec : σ → Codec
  react : σ → Time → Event → σ × List Action
  credit : σ → Emission → σ
  /-- The jobs queued since they were last taken, and the state without them. -/
  takeJobs : σ → List HostJob × σ
  snapshot : σ → Time → Snapshot

namespace Engine

variable {σ : Type}

/-- One step: react, perform, credit. -/
def step (E : Engine σ) (c : Conditions) (now : Time) (event : Event) (s : σ) : σ × List Emission :=
  let (s', actions) := E.react s now event
  let emissions := Action.performAll (E.codec s) c actions
  (emissions.foldl E.credit s', emissions)

/-- One moment in the life of an engine. -/
structure Moment where
  now : Time
  event : Event
  conditions : Conditions

def run (E : Engine σ) (s : σ) : List Moment → σ × List Emission
  | [] => (s, [])
  | m :: rest =>
    let (s', emissions) := E.step m.conditions m.now m.event s
    let (s'', later) := E.run s' rest
    (s'', emissions ++ later)

end Engine

end PacketTunnel
