import PacketTunnel.Client.Basic
import PacketTunnel.Failure
import PacketTunnel.Server.Basic
import PacketTunnel.Settings.Basic

/-!
# Configuration

Checked settings, which never change afterwards. `Configuration.ofSettings` checks the settings in a
fixed order and reports the first that is refused. The other definitions derive from a configuration
what the parts of a tunnel need: protection, routes, addresses, and the options of a server or a
client.
-/
namespace PacketTunnel

open Text

inductive Mode where
  | server (listen : Endpoint)
  /-- The host is kept as it was written, to look it up again later. -/
  | client (server : Endpoint) (host : String)
deriving DecidableEq, Repr

/-- A shared passphrase, or explicitly none. -/
inductive Passphrase where
  | secret (text : String)
  | disabled
deriving DecidableEq, Repr

namespace Passphrase

def text? : Passphrase → Option String
  | secret text => some text
  | disabled => none

/-- How a passphrase shows itself: never its text. -/
def describe : Passphrase → String
  | secret _ => "Secret(<redacted>)"
  | disabled => "Disabled"

end Passphrase

/-- What settings are checked against: the name service, and the directory in which relative paths
start. -/
structure Surroundings where
  names : NameService
  directory : String

/-- A checked configuration. Durations are in seconds. -/
structure Configuration where
  mode : Mode
  ipv4 : Option InterfaceAddress
  ipv6 : Option InterfaceAddress
  mtu : UInt16
  keepalive : UInt64
  reconnectTimeout : UInt64
  sessionExpiry : UInt64
  interface : String
  pidFile : Option String
  passphrase : Passphrase
  routes : List Route
  relay : Bool
  implicitLogin : Bool
  advertiseRoutes : Bool
  addressPool : Option (Subnet 32)
  statusFile : Option String
deriving DecidableEq, Repr

namespace Configuration

def parseMode (names : NameService) (listen remote : Option String) :
    Except ConfigurationFault Mode :=
  match listen, remote with
  | some name, none => ((names.resolve name none).mapError .resolution).map .server
  | none, some name => ((names.resolve name none).mapError .resolution).map (.client · name)
  | some _, some _ => .error .twoSides
  | none, none => .error .noSide

/-- A version 4 address with a prefix length of 1 to 30, or with the address of a peer. -/
def parseIPv4 (text : String) : Except ConfigurationFault InterfaceAddress :=
  match splitFirst? '/' text.toList with
  | none => .error (.ipv4Form text)
  | some (address, rest) =>
    match IPv4.parse? address with
    | none => .error (.ipv4Address (String.ofList address))
    | some own =>
      match IPv4.parse? rest with
      | some peer => .ok (.pair own peer)
      | none =>
        match unsigned? 256 rest with
        | none => .error (.ipv4Rest (String.ofList rest))
        | some length =>
          if 1 ≤ length ∧ length ≤ 30 then .ok (.ipv4 own length) else .error (.ipv4Length length)

/-- A version 6 address with a prefix length of 1 to 128. -/
def parseIPv6 (text : String) : Except ConfigurationFault InterfaceAddress :=
  match splitFirst? '/' text.toList with
  | none => .error (.ipv6Form text)
  | some (address, rest) =>
    match IPv6.parse? address with
    | none => .error (.ipv6Address (String.ofList address))
    | some own =>
      match unsigned? 256 rest with
      | none => .error (.ipv6Rest (String.ofList rest))
      | some length =>
        if 1 ≤ length ∧ length ≤ 128 then .ok (.ipv6 own length) else .error (.ipv6Length length)

def optional {ε α β : Type} (check : α → Except ε β) : Option α → Except ε (Option β)
  | none => .ok none
  | some a => (check a).map some

def leastMtu (withIPv6 : Bool) : Nat := if withIPv6 then 1280 else 576

def checkMtu (mtu : UInt16) (withIPv6 : Bool) : Except ConfigurationFault UInt16 :=
  if leastMtu withIPv6 ≤ mtu.toNat ∧ mtu.toNat ≤ 9000 then .ok mtu
  else .error (.mtu mtu.toNat (leastMtu withIPv6))

/-- The product with three, or the greatest number if that is too great. -/
def threefold (n : UInt64) : UInt64 := UInt64.ofNat (min (n.toNat * 3) (UInt64.size - 1))

/-- The three durations: keepalive is positive, and each of the others exceeds it. -/
structure Timers where
  keepalive : UInt64
  reconnectTimeout : UInt64
  sessionExpiry : UInt64

def checkTimers (s : Settings) : Except ConfigurationFault Timers :=
  let keepalive := s.keepalive.getD 13
  let reconnect := s.reconnectTimeout.getD 60
  let expiry := s.sessionExpiry.getD (threefold keepalive)
  if keepalive < 1 then .error .keepalive
  else if reconnect ≤ keepalive then .error (.reconnectTimeout reconnect.toNat keepalive.toNat)
  else if expiry ≤ keepalive then .error (.sessionExpiry expiry.toNat keepalive.toNat)
  else .ok ⟨keepalive, reconnect, expiry⟩

def checkInterface (name : String) : Except ConfigurationFault String :=
  if Interface.isName name then .ok name else .error (.interfaceName name)

def checkPassphrase (key : Option String) (noEncryption : Bool) :
    Except ConfigurationFault Passphrase :=
  match key, noEncryption with
  | some _, true => .error .keyConflict
  | some text, false => if text.isEmpty then .error .emptyKey else .ok (.secret text)
  | none, _ => .ok .disabled

def parseRoutes : List String → Except RouteFault (List Route)
  | [] => .ok []
  | text :: rest => do
    let r ← Route.parse text
    let rs ← parseRoutes rest
    .ok (r :: rs)

/-- An address pool, with the bits after the prefix cleared. -/
def parsePool (text : String) : Except ConfigurationFault (Subnet 32) :=
  match Subnet.parsePool? text.toList with
  | some pool => .ok pool.truncate
  | none => .error (.addressPool text)

def isAbsolute (path : String) : Bool := path.toList.head? == some '/'

/-- A path that starts at the root: itself, or taken from the given directory. -/
def absolutePath (directory path : String) : String :=
  if isAbsolute path then path
  else if directory.toList.getLast? == some '/' then directory ++ path
  else directory ++ "/" ++ path

def ofSettings (around : Surroundings) (s : Settings) : Except Failure Configuration := do
  let mode ← (parseMode around.names s.listen s.remote).mapError .configuration
  let ipv4 ← (optional parseIPv4 s.ipv4Address).mapError .configuration
  let ipv6 ← (optional parseIPv6 s.ipv6Address).mapError .configuration
  let mtu ← (checkMtu (s.mtu.getD 1416) ipv6.isSome).mapError .configuration
  let timers ← (checkTimers s).mapError .configuration
  let interface ← (checkInterface (s.interface.getD "vt%d")).mapError .configuration
  let passphrase ← (checkPassphrase s.encryptionKey s.noEncryption).mapError .configuration
  let routes ← (parseRoutes s.routes).mapError .route
  let pool ← (optional parsePool s.addressPool).mapError .configuration
  .ok {
    mode, ipv4, ipv6, mtu
    keepalive := timers.keepalive
    reconnectTimeout := timers.reconnectTimeout
    sessionExpiry := timers.sessionExpiry
    interface
    pidFile := s.pidFile.map (absolutePath around.directory)
    passphrase, routes
    relay := s.relay
    implicitLogin := s.implicitLogin.getD true
    advertiseRoutes := s.advertiseRoutes.getD true
    addressPool := pool
    statusFile := s.statusFile.map (absolutePath around.directory) }

def isServer (c : Configuration) : Bool :=
  match c.mode with
  | .server _ => true
  | .client .. => false

def protection (c : Configuration) : Protection := .ofPassphrase c.passphrase.text?

def codec (c : Configuration) : Codec := .ofMtu c.protection c.mtu.toUInt64

def peerRoute? (c : Configuration) : Option Route :=
  match c.ipv4 with
  | some (.pair _ peer) => some ⟨.v4 ⟨0, ⟨0, Nat.zero_lt_succ 32⟩⟩, .v4 peer⟩
  | _ => none

/-- The configured routes. A point-to-point pair adds a default route through the peer, before all
others. -/
def routeTable (c : Configuration) : RouteTable := .ofList (c.peerRoute?.toList ++ c.routes)

def virtualAddresses (c : Configuration) : VirtualAddresses where
  ipv4 := match c.ipv4 with
    | some (.ipv4 own _) => some own
    | some (.pair own _) => some own
    | _ => none
  ipv6 := match c.ipv6 with
    | some (.ipv6 own _) => some own
    | _ => none

def interfaceAddresses (c : Configuration) : List InterfaceAddress := c.ipv4.toList ++ c.ipv6.toList

/-- The addresses that a server hands out: those of the pool, or else of the network of its own
address. -/
def effectivePool (c : Configuration) : Option (Subnet 32) :=
  c.addressPool <|> match c.ipv4 with
    | some (.ipv4 own length) => (Subnet.make? own length).map Subnet.truncate
    | _ => none

/-- Whether a configured route goes into the host's table when the tunnel starts. A route to
ourselves does not, and neither does a default route, which would capture the tunnel's own
datagrams. -/
def installsAtStart (c : Configuration) (r : Route) : Bool :=
  !c.virtualAddresses.contains r.gateway && r.length != 0

def startRoutes (c : Configuration) : List Route := c.routeTable.routes.filter c.installsAtStart

def serverOptions (c : Configuration) (interface : String) : ServerOptions where
  own := c.virtualAddresses
  pool := c.effectivePool
  sessionExpiry := c.sessionExpiry.toNat * 1000
  relay := c.relay
  implicitLogin := c.implicitLogin
  advertise := c.advertiseRoutes
  interface := interface

/-- The options of a client on the given interface; there are none on the server's side. -/
def clientOptions (c : Configuration) (interface : String) :
    Except ConfigurationFault ClientOptions :=
  match c.mode with
  | .server _ => .error .notClient
  | .client server host =>
    .ok {
      server := server
      serverHost := host
      requested := c.virtualAddresses
      keepalive := c.keepalive.toNat * 1000
      reconnectTimeout := c.reconnectTimeout.toNat * 1000
      interface := interface }

end Configuration

end PacketTunnel
