import PacketTunnel.Address.Text
import PacketTunnel.Route.Basic

/-!
# The tunnel interface

Addresses and routes are put on the interface by runs of the tool `ip`, each with a list of
arguments. A name of an interface has one to fifteen bytes. No run takes place if an argument holds
a zero character, whether or not the tool is there. Work is done in order and stops at the first
failure; `carryOut` also tells which runs took place.
-/
namespace PacketTunnel

open Text

inductive InterfaceAddress where
  | ipv4 (own : IPv4) (length : Nat)
  | pair (own peer : IPv4)
  | ipv6 (own : IPv6) (length : Nat)
deriving DecidableEq, Repr

inductive DeviceFault where
  | interfaceName (name : String)
  /-- An argument of the tool holds a zero character. -/
  | zeroInArgument
  | toolMissing
  | toolFailed (arguments : List String) (status : Nat)
  /-- The host refused, in its own words. -/
  | refused (reason : String)
deriving DecidableEq, Repr

def DeviceFault.message : DeviceFault → String
  | interfaceName name => s!"invalid interface name '{name}'"
  | zeroInArgument => "failed to run ip: nul byte found in provided data"
  | toolMissing => "failed to run ip: No such file or directory (os error 2)"
  | toolFailed arguments status =>
    "'ip " ++ " ".intercalate arguments ++ s!"' exited with exit status: {status}"
  | refused reason => reason

namespace Interface

def maxNameLength : Nat := 15

/-- Whether an existing interface may have the name. -/
def isName (name : String) : Bool :=
  !name.isEmpty && decide (byteLength name.toList ≤ maxNameLength)

/-- Whether a new interface may be asked for by the name, which may be empty. -/
def isTemplate (name : String) : Bool :=
  decide (byteLength name.toList ≤ maxNameLength) && !holdsZero name.toList

def checkName (name : String) : Except DeviceFault Unit :=
  if isName name then .ok () else .error (.interfaceName name)

def checkTemplate (name : String) : Except DeviceFault Unit :=
  if isTemplate name then .ok () else .error (.interfaceName name)

def withLength (address : Address) (length : Nat) : String := s!"{address.toText}/{length}"

def addressArguments (name : String) : InterfaceAddress → List String
  | .ipv4 own length => ["addr", "add", withLength (.v4 own) length, "dev", name]
  | .pair own peer => ["addr", "add", own.toText, "peer", peer.toText, "dev", name]
  | .ipv6 own length => ["-6", "addr", "add", withLength (.v6 own) length, "dev", name]

def routeArguments (name : String) (r : Route) : List String :=
  (if r.isV4 then [] else ["-6"]) ++
    ["route", "replace", r.network.toText, "via", r.gateway.toText, "dev", name]

/-- Put an address on an interface: what to run, if the name is sound. -/
def addressTask (name : String) (a : InterfaceAddress) : Except DeviceFault (List String) :=
  (checkName name).map fun _ => addressArguments name a

def routeTask (name : String) (r : Route) : Except DeviceFault (List String) :=
  (checkName name).map fun _ => routeArguments name r

end Interface

/-- What becomes of a run of the tool: it cannot be started, or it ends with a status. -/
inductive ToolRun where
  | unfit
  | missing
  | ended (status : UInt8)
deriving DecidableEq, Repr

namespace ToolRun

def started : ToolRun → Bool
  | unfit => false
  | missing => false
  | ended _ => true

def result (arguments : List String) : ToolRun → Except DeviceFault Unit
  | unfit => .error .zeroInArgument
  | missing => .error .toolMissing
  | ended status => if status = 0 then .ok () else .error (.toolFailed arguments status.toNat)

end ToolRun

/-- The tool, by what becomes of a run with given arguments, none of which holds a zero character.
-/
abbrev Tool := List String → ToolRun

namespace Tool

/-- Run the tool, if the arguments can be handed over to it. -/
def attempt (tool : Tool) (arguments : List String) : ToolRun :=
  if arguments.any fun a => holdsZero a.toList then .unfit else tool arguments

/-- Do tasks in order until one fails: the runs that took place, and the result. -/
def carryOut (tool : Tool) :
    List (Except DeviceFault (List String)) → List (List String) × Except DeviceFault Unit
  | [] => ([], .ok ())
  | .error fault :: _ => ([], .error fault)
  | .ok arguments :: rest =>
    let run := tool.attempt arguments
    let done := if run.started then [arguments] else []
    match run.result arguments with
    | .error fault => (done, .error fault)
    | .ok () =>
      let (later, result) := tool.carryOut rest
      (done ++ later, result)

/-- Put addresses on an interface, then bring it up; `bringUp` is the result of that last step. -/
def configure (tool : Tool) (name : String) (addresses : List InterfaceAddress)
    (bringUp : Except DeviceFault Unit) : List (List String) × Except DeviceFault Unit :=
  let (runs, result) := tool.carryOut (addresses.map (Interface.addressTask name))
  (runs, result.bind fun _ => bringUp)

end Tool

end PacketTunnel
