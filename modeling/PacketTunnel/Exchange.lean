import PacketTunnel.Client.Engine
import PacketTunnel.Server.Engine

/-!
# Exchanges

An exchange is one server and any number of clients on a wire. What an engine sends joins the end of
the wire; the wire may deliver any letter on it, lose it, copy it, turn the order round, or damage
every letter. A letter is delivered to whoever has its recipient's endpoint at that moment, or to
nobody.
-/
namespace PacketTunnel

/-- A datagram on its way. -/
structure Letter where
  sender : Endpoint
  recipient : Endpoint
  bytes : Bytes
deriving DecidableEq, Repr

inductive Station where
  | server
  | client (index : Nat)
deriving DecidableEq, Repr

/-- A server and clients on a wire. -/
structure Exchange where
  server : Server
  serverEndpoint : Endpoint
  clients : List (Endpoint × Client)
  wire : List Letter

/-- The packets that were written to the device of a station. -/
structure Written where
  station : Station
  packets : List Bytes
deriving DecidableEq, Repr

/-- A letter that left the wire, and who got it. -/
structure Delivery where
  letter : Letter
  reached : Option Station
deriving DecidableEq, Repr

namespace Exchange

/-- What an emission puts on the wire. -/
def letter? (sender : Endpoint) : Emission → Option Letter
  | .datagram _ bytes recipient => some ⟨sender, recipient, bytes⟩
  | .packet _ => none

def packet? : Emission → Option Bytes
  | .packet bytes => some bytes
  | .datagram .. => none

def post (x : Exchange) (sender : Endpoint) (emissions : List Emission) : Exchange :=
  { x with wire := x.wire ++ emissions.filterMap (letter? sender) }

def happen (x : Exchange) (c : Conditions) (now : Time) (event : Event) (station : Station) :
    Exchange × Written :=
  match station with
  | .server =>
    let (server, emissions) := Server.engine.step c now event x.server
    ({ x with server := server }.post x.serverEndpoint emissions,
      ⟨station, emissions.filterMap packet?⟩)
  | .client i =>
    match x.clients[i]? with
    | none => (x, ⟨station, []⟩)
    | some (endpoint, client) =>
      let (client, emissions) := Client.engine.step c now event client
      ({ x with clients := x.clients.set i (endpoint, client) }.post endpoint emissions,
        ⟨station, emissions.filterMap packet?⟩)

/-- Who has an endpoint: the server, or else the first client with it. -/
def stationAt? (x : Exchange) (e : Endpoint) : Option Station :=
  if e = x.serverEndpoint then some .server
  else (x.clients.findIdx? fun c => c.1 = e).map .client

def deliver (x : Exchange) (c : Station → Conditions) (now : Time) (position : Nat) :
    Option (Exchange × Delivery × Option Written) :=
  x.wire[position]?.map fun letter =>
    let rest := { x with wire := x.wire.eraseIdx position }
    match x.stationAt? letter.recipient with
    | none => (rest, ⟨letter, none⟩, none)
    | some station =>
      let (x', written) :=
        rest.happen (c station) now (.datagram letter.bytes letter.sender) station
      (x', ⟨letter, some station⟩, some written)

/-- Deliver from the front of the wire until it is empty, at most `limit` letters; the conditions
may differ from delivery to delivery. -/
def pump (c : Nat → Station → Conditions) (now : Time) :
    Nat → Exchange → Exchange × List Delivery × List Written
  | 0, x => (x, [], [])
  | limit + 1, x =>
    match x.deliver (c limit) now 0 with
    | none => (x, [], [])
    | some (x', delivery, written) =>
      let (x'', deliveries, later) := pump c now limit x'
      (x'', delivery :: deliveries, written.toList ++ later)

def lose (x : Exchange) (position : Nat) : Exchange := { x with wire := x.wire.eraseIdx position }

def loseFirst (x : Exchange) (count : Nat) : Exchange := { x with wire := x.wire.drop count }

def copy (x : Exchange) (position : Nat) : Exchange :=
  { x with wire := x.wire ++ x.wire[position]?.toList }

def copyAll (x : Exchange) : Exchange := { x with wire := x.wire ++ x.wire }

def turnRound (x : Exchange) : Exchange := { x with wire := x.wire.reverse }

/-- Change the byte at a position, counted round and round, by a mask. -/
def damageBytes (position : Nat) (mask : UInt8) (bytes : Bytes) : Bytes :=
  bytes.modify (position % bytes.length) (· ^^^ mask)

def damage (x : Exchange) (position : Nat) (mask : UInt8) : Exchange :=
  { x with wire := x.wire.map fun l => { l with bytes := damageBytes position mask l.bytes } }

/-- Give a client another endpoint to send from. -/
def rebind (x : Exchange) (index : Nat) (e : Endpoint) : Exchange :=
  { x with clients := x.clients.modify index fun c => (e, c.2) }

/-- The jobs that a client has queued, and the exchange once they are taken. -/
def takeJobs (x : Exchange) (index : Nat) : List HostJob × Exchange :=
  match x.clients[index]? with
  | none => ([], x)
  | some (endpoint, client) =>
    let (jobs, client) := Client.engine.takeJobs client
    (jobs, { x with clients := x.clients.set index (endpoint, client) })

end Exchange

end PacketTunnel
