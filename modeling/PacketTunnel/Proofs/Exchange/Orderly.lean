import PacketTunnel.Proofs.Engine.Run
import PacketTunnel.Proofs.Exchange.Pair
import PacketTunnel.Proofs.Exchange.Pulse

/-!
# Orderly runs

A run of one client and one server is orderly when its times never go back and stay close to the
client's last tick, when what one end sends to the other arrives before time goes on, when sends do
not fail, and when nothing else happens but packets from the devices, ticks, unsound datagrams and
outcomes that leave the server where it is. What the server sends to others is none of the two ends'
concern.
-/
namespace PacketTunnel

/-- The message that an action wants sent, if it is not a packet; packets may be too long for a
datagram. -/
def Action.notice? : Action → Option (Message × Endpoint)
  | .send (.data _) _ => none
  | .send message recipient => some (message, recipient)
  | .deliver _ => none

namespace Exchange

def actions (x : Exchange) (h : Happening) : List Action :=
  match h.station with
  | .server => (x.server.react h.moment.now h.moment.event).2
  | .client i =>
    match x.clients[i]? with
    | none => []
    | some (_, client) => (client.react h.moment.now h.moment.event).2

def SendsAll (x : Exchange) (h : Happening) : Prop :=
  ∀ notice ∈ (x.actions h).filterMap Action.notice?,
    notice ∈ (x.emissions h).filterMap Emission.sent?

instance (x : Exchange) (h : Happening) : Decidable (x.SendsAll h) :=
  inferInstanceAs (Decidable (∀ notice ∈ _, notice ∈ _))

end Exchange

def Clock.after (k : Clock) : Turn → Clock
  | .happen ⟨.client 0, now, .tick _, _⟩ => ⟨now, now⟩
  | .happen h => { k with now := h.moment.now }
  | .deliver _ now _ => { k with now := now }
  | _ => k

/-- The two ends of a tunnel, and the codec of both. -/
structure Line where
  client : Endpoint
  server : Endpoint
  codec : Codec

namespace Line

variable (L : Line)

def Joins (l : Letter) : Prop :=
  l.sender = L.client ∧ l.recipient = L.server ∨ l.sender = L.server ∧ l.recipient = L.client

/-- A time does not go back, is no more than `slack` after the client's last tick, and goes on only
once nothing is under way between the ends. -/
structure Timely (slack : Duration) (k : Clock) (x : Exchange) (now : Time) : Prop where
  later : k.now ≤ now
  close : now ≤ k.lastTick + slack
  quiet : k.now < now → ∀ l ∈ x.wire, ¬ L.Joins l

/-- What may happen next in an orderly run. The server hears nobody but the client: what it sends
elsewhere, even to a peer that it once had at its own endpoint, does not come back. -/
def Allows (slack : Duration) (k : Clock) (x : Exchange) : Turn → Prop
  | .happen h =>
    L.Timely slack k x h.moment.now ∧ h.moment.event.IsHarmless L.codec L.server ∧ x.SendsAll h
  | .deliver position now c =>
    L.Timely slack k x now ∧
      (∀ l, x.wire[position]? = some l → l.recipient = L.server → l.sender = L.client) ∧
      ∀ h, x.happening? (.deliver position now c) = some h → (x.lose position).SendsAll h
  | .takeJobs _ => True
  | .lose _ => False
  | .copy _ => False

def Orderly (slack : Duration) : Clock → Exchange → List Turn → Prop
  | _, _, [] => True
  | k, x, t :: rest => L.Allows slack k x t ∧ Orderly slack (k.after t) (x.turn t) rest

instance (l : Letter) : Decidable (L.Joins l) :=
  inferInstanceAs (Decidable (_ ∧ _ ∨ _ ∧ _))

instance (slack : Duration) (k : Clock) (x : Exchange) (now : Time) :
    Decidable (L.Timely slack k x now) :=
  decidable_of_iff
    (k.now ≤ now ∧ now ≤ k.lastTick + slack ∧ (k.now < now → ∀ l ∈ x.wire, ¬ L.Joins l))
    ⟨fun h => ⟨h.1, h.2.1, h.2.2⟩, fun h => ⟨h.later, h.close, h.quiet⟩⟩

instance (slack : Duration) (k : Clock) (x : Exchange) :
    (t : Turn) → Decidable (L.Allows slack k x t)
  | .happen _ => inferInstanceAs (Decidable (_ ∧ _ ∧ _))
  | .deliver position now c =>
    inferInstanceAs
      (Decidable (_ ∧ (∀ l ∈ x.wire[position]?, l.recipient = L.server → l.sender = L.client) ∧
      ∀ h ∈ x.happening? (.deliver position now c), (x.lose position).SendsAll h))
  | .takeJobs _ => isTrue trivial
  | .lose _ => isFalse id
  | .copy _ => isFalse id

instance decidableOrderly (slack : Duration) :
    (k : Clock) → (x : Exchange) → (ts : List Turn) → Decidable (L.Orderly slack k x ts)
  | _, _, [] => isTrue trivial
  | k, x, t :: rest =>
    have := decidableOrderly slack (k.after t) (x.turn t) rest
    inferInstanceAs (Decidable (L.Allows slack k x t ∧ L.Orderly slack (k.after t) (x.turn t) rest))

end Line

end PacketTunnel
