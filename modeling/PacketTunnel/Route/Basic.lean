import PacketTunnel.Text.Blank
import PacketTunnel.Address.Subnet

/-!
# Routes

A route sends the traffic for a network to a gateway. `make` builds the sound ones: gateway and
network are of one family, the prefix length suits it, and the bits after the prefix are cleared. In
text a route is a network and a gateway with an equals sign between them; blanks are allowed around
each part and the whole expression is limited to 96 bytes.
-/
namespace PacketTunnel

open Text

/-- Traffic for a network goes to a gateway. -/
structure Route where
  network : Network
  gateway : Address
deriving DecidableEq, Repr

inductive RouteFault where
  | expression (text : String)
  | gatewayFamily (network : Address) (length : Nat) (gateway : Address)
  | prefixLength (network : Address) (length : Nat)
deriving DecidableEq, Repr

def RouteFault.message : RouteFault → String
  | expression text => s!"not a valid route expression '{text}'"
  | gatewayFamily network length gateway =>
    s!"{network.toText}/{length}={gateway.toText}: gateway family does not match network"
  | prefixLength network length => s!"{network.toText}/{length}: prefix length out of range"

namespace Route

/-- The route to a network through a gateway, with the bits after the prefix cleared. -/
def make (network : Address) (length : Nat) (gateway : Address) : Except RouteFault Route :=
  if network.isV4 ≠ gateway.isV4 then .error (.gatewayFamily network length gateway)
  else match Network.make? network length with
    | none => .error (.prefixLength network length)
    | some n => .ok ⟨n.truncate, gateway⟩

def length (r : Route) : Nat := r.network.length

def contains (r : Route) (a : Address) : Bool := r.network.contains a

def isV4 (r : Route) : Bool := r.network.isV4

/-- The most bytes that a route expression may have. -/
def maxExpression : Nat := 96

/-- The parts of a route expression: network address, prefix length and gateway. -/
def parts? (text : List Char) : Option (Address × Nat × Address) := do
  let (left, gateway) ← splitFirst? '=' (trim text)
  let (network, length) ← splitFirst? '/' left
  let network ← Address.parse? (trim network)
  let length ← unsigned? 256 (trim length)
  let gateway ← Address.parse? (trim gateway)
  some (network, length, gateway)

def parse (text : String) : Except RouteFault Route :=
  if maxExpression < byteLength text.toList then .error (.expression text)
  else match parts? text.toList with
    | none => .error (.expression text)
    | some (network, length, gateway) => make network length gateway

def toChars (r : Route) : List Char := r.network.toChars ++ '=' :: r.gateway.toChars

def toText (r : Route) : String := String.ofList r.toChars

end Route

end PacketTunnel
