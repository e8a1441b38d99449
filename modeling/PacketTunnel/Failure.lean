import PacketTunnel.Datagram
import PacketTunnel.Host.Interface
import PacketTunnel.Host.Resolution

/-!
# Failures

Everything that can go wrong, by the part of the program in which it does, and the words for it. A
datagram that fails authentication never tells more than that.
-/
namespace PacketTunnel

/-- Why settings are refused. -/
inductive ConfigurationFault where
  | resolution (fault : ResolutionFault)
  | twoSides
  | noSide
  | ipv4Form (text : String)
  | ipv4Address (text : String)
  | ipv4Rest (text : String)
  | ipv4Length (length : Nat)
  | ipv6Form (text : String)
  | ipv6Address (text : String)
  | ipv6Rest (text : String)
  | ipv6Length (length : Nat)
  | mtu (mtu least : Nat)
  | keepalive
  | reconnectTimeout (timeout keepalive : Nat)
  | sessionExpiry (expiry keepalive : Nat)
  | interfaceName (name : String)
  | keyConflict
  | emptyKey
  | addressPool (text : String)
  /-- A client was asked of the settings of a server. -/
  | notClient
  | unreadable (path reason : String)
deriving DecidableEq, Repr

def ConfigurationFault.message : ConfigurationFault → String
  | resolution fault => fault.message
  | twoSides => "--local and --remote are mutually exclusive"
  | noSide => "one of --local or --remote is required"
  | ipv4Form text => s!"'{text}': expected a.b.c.d/prefix or a.b.c.d/e.f.g.h"
  | ipv4Address text => s!"'{text}': invalid IPv4 address"
  | ipv4Rest text => s!"'{text}': invalid prefix or peer address"
  | ipv4Length length => s!"IPv4 prefix {length} out of range 1..=30"
  | ipv6Form text => s!"'{text}': expected addr/prefix"
  | ipv6Address text => s!"'{text}': invalid IPv6 address"
  | ipv6Rest text => s!"'{text}': invalid prefix"
  | ipv6Length length => s!"IPv6 prefix {length} out of range 1..=128"
  | mtu size least => s!"MTU {size} out of range {least}..=9000"
  | keepalive => "keepalive must be at least 1 second"
  | reconnectTimeout timeout interval =>
    s!"reconnect timeout ({timeout}s) must exceed keepalive ({interval}s)"
  | sessionExpiry expiry interval =>
    s!"session expiry ({expiry}s) must exceed keepalive ({interval}s)"
  | interfaceName name => s!"interface name '{name}' must be 1..=15 bytes"
  | keyConflict => "--encryption-key conflicts with --no-encryption"
  | emptyKey => "encryption key must not be empty"
  | addressPool text => s!"invalid address pool '{text}': invalid IP address syntax"
  | notClient => "client engine needs --remote"
  | unreadable path reason => s!"cannot read {path}: {reason}"

inductive Failure where
  | configuration (fault : ConfigurationFault)
  | document
  | route (fault : RouteFault)
  | device (fault : DeviceFault)
  | datagram (fault : DatagramFault)
  | unauthentic
  | transport (reason : String)
  | inputOutput (reason : String)
  | status
deriving DecidableEq, Repr

def Failure.message : Failure → String
  | configuration fault => s!"Configuration error: {fault.message}"
  | document => "Invalid configuration file: not a settings document"
  | route fault => s!"Invalid route: {fault.message}"
  | device fault => s!"Device error: {fault.message}"
  | datagram fault => s!"Malformed datagram: {fault.message}"
  | unauthentic => "Datagram failed authentication"
  | transport reason => s!"Transport error: {reason}"
  | inputOutput reason => s!"I/O error: {reason}"
  | status => "Status serialization error: not a status snapshot"

def Rejection.failure : Rejection → Failure
  | malformed fault => .datagram fault
  | unauthentic => .unauthentic

end PacketTunnel
