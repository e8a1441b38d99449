import PacketTunnel.Host.Address

/-!
# Resolution of endpoints

A server is named by an endpoint, or by a host and a port with a colon between them. Names of hosts
are looked up by a function that stands for the name service: it gives addresses in order of
preference, or a reason why there are none. A look-up may be confined to the address family of a
known endpoint; the first candidate of that family is taken.
-/
namespace PacketTunnel

open Text

inductive ResolutionFault where
  | noPort (name : String)
  | badPort (name : String)
  | zeroInHost (name : String)
  | lookup (name reason : String)
  /-- No address is of the wanted family. -/
  | noCandidate (name : String)
deriving DecidableEq, Repr

def ResolutionFault.message : ResolutionFault → String
  | noPort name => s!"cannot resolve '{name}': invalid socket address"
  | badPort name => s!"cannot resolve '{name}': invalid port value"
  | zeroInHost name => s!"cannot resolve '{name}': file name contained an unexpected NUL byte"
  | lookup name reason => s!"cannot resolve '{name}': {reason}"
  | noCandidate name => s!"no usable address for '{name}'"

/-- A name service: the addresses of a host, or why there are none. -/
abbrev NameService := String → Except String (List HostAddress)

namespace NameService

/-- The name service that knows only addresses in text. -/
def literal : NameService := fun host =>
  match HostAddress.parse? host.toList with
  | some a => .ok [a]
  | none => .error "failed to lookup address information: Name or service not known"

def candidates (service : NameService) (name : String) : Except ResolutionFault (List Endpoint) :=
  match Endpoint.parse? name.toList with
  | some e => .ok [e]
  | none =>
    match splitLast? ':' name.toList with
    | none => .error (.noPort name)
    | some (host, port) =>
      match unsigned? 65536 port with
      | none => .error (.badPort name)
      | some port =>
        if holdsZero host then .error (.zeroInHost name)
        else match service (String.ofList host) with
          | .error reason => .error (.lookup name reason)
          | .ok addresses => .ok (addresses.map (HostAddress.endpoint · (UInt16.ofNat port)))

/-- The first endpoint that a name stands for, of the same family as a known endpoint if there is
one. -/
def resolve (service : NameService) (name : String) (like : Option Endpoint) :
    Except ResolutionFault Endpoint := do
  let found ← service.candidates name
  match found.find? fun e => like.all fun known => known.isV4 == e.isV4 with
  | some e => .ok e
  | none => .error (.noCandidate name)

end NameService

end PacketTunnel
