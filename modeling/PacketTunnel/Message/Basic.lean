import PacketTunnel.Route.Basic

/-!
# Messages

What the two ends of a tunnel say to each other: packets, keepalive probes and their answers, logins
with the virtual addresses wanted or confirmed, advertised routes, and farewells.
-/
namespace PacketTunnel

/-- The virtual addresses of one end of a tunnel, at most one of each family. -/
structure VirtualAddresses where
  ipv4 : Option IPv4
  ipv6 : Option IPv6
deriving DecidableEq, Repr

namespace VirtualAddresses

def empty : VirtualAddresses := ⟨none, none⟩

def single : Address → VirtualAddresses
  | .v4 a => ⟨some a, none⟩
  | .v6 a => ⟨none, some a⟩

def isEmpty (v : VirtualAddresses) : Bool := v.ipv4.isNone && v.ipv6.isNone

def contains (v : VirtualAddresses) : Address → Bool
  | .v4 a => v.ipv4 == some a
  | .v6 a => v.ipv6 == some a

def toList (v : VirtualAddresses) : List Address :=
  (v.ipv4.map Address.v4).toList ++ (v.ipv6.map Address.v6).toList

theorem mem_toList {v : VirtualAddresses} {a : Address} : a ∈ v.toList ↔ v.contains a = true := by
  obtain ⟨v4, v6⟩ := v
  cases a <;> cases v4 <;> cases v6 <;> simp [toList, contains] <;> exact eq_comm

end VirtualAddresses

structure Echo where
  id : UInt32
  timestamp : UInt64
deriving DecidableEq, Repr

inductive Message where
  | data (packet : Bytes)
  | echoRequest (echo : Echo)
  | echoAck (echo : Echo)
  | clientLogin (addresses : VirtualAddresses)
  | routeAdvertise (routes : List Route)
  | disconnect
deriving DecidableEq, Repr

/-- The kind of a message, as its header states it. -/
inductive MessageKind where
  | data
  | echoRequest
  | echoAck
  | clientLogin
  | routeAdvertise
  | disconnect
deriving DecidableEq, Repr

namespace MessageKind

def code : MessageKind → UInt8
  | data => 1
  | echoRequest => 2
  | echoAck => 3
  | clientLogin => 4
  | routeAdvertise => 5
  | disconnect => 6

def ofCode? (code : UInt8) : Option MessageKind :=
  if code = 1 then some data
  else if code = 2 then some echoRequest
  else if code = 3 then some echoAck
  else if code = 4 then some clientLogin
  else if code = 5 then some routeAdvertise
  else if code = 6 then some disconnect
  else none

def name : MessageKind → String
  | data => "Data"
  | echoRequest => "EchoRequest"
  | echoAck => "EchoAck"
  | clientLogin => "ClientLogin"
  | routeAdvertise => "RouteAdvertise"
  | disconnect => "Disconnect"

@[simp] theorem ofCode?_code (k : MessageKind) : ofCode? k.code = some k := by cases k <;> rfl

end MessageKind

def Message.kind : Message → MessageKind
  | .data _ => .data
  | .echoRequest _ => .echoRequest
  | .echoAck _ => .echoAck
  | .clientLogin _ => .clientLogin
  | .routeAdvertise _ => .routeAdvertise
  | .disconnect => .disconnect

end PacketTunnel
