import PacketTunnel.Settings.Basic
import PacketTunnel.Text.Numeral

/-!
# Options and commands

The words of a command line name options, and one of two commands: to run a tunnel, or to show the
status of a running one. Each command has a table of the options that it knows. An option has a long
name, often a letter, and an effect on the arguments read so far.
-/
namespace PacketTunnel

/-- The commands that have options. -/
inductive CommandScope where
  | tunnel
  | status
deriving DecidableEq, Repr

inductive Command where
  | help (scope : CommandScope)
  | version
  /-- Run a tunnel: with the settings of a file, if one is named, and those of the command line over
  them. -/
  | tunnel (file : Option String) (settings : Settings) (detach : Bool)
  | status (path : String) (json : Bool)
deriving DecidableEq, Repr

inductive UsageFault where
  | unknownOption (word : String)
  | missingValue (name : String)
  | unexpectedValue (name : String)
  | badValue (name value : String)
  | repeated (name : String)
  | unexpectedArgument (word : String)
  | conflict (first second : String)
  | missingOption (name : String)
deriving DecidableEq, Repr

def UsageFault.message : UsageFault → String
  | unknownOption word => s!"unexpected argument '{word}' found"
  | missingValue name => s!"a value is required for '--{name}' but none was supplied"
  | unexpectedValue name => s!"unexpected value for '--{name}' found; no more were expected"
  | badValue name value => s!"invalid value '{value}' for '--{name}'"
  | repeated name => s!"the argument '--{name}' cannot be used multiple times"
  | unexpectedArgument word => s!"unexpected argument '{word}' found"
  | conflict one other => s!"the argument '--{one}' cannot be used with '--{other}'"
  | missingOption name => s!"the following required arguments were not provided: --{name}"

structure Arguments where
  settings : Settings
  file : Option String
  logLevel : String
  debug : Bool
  detach : Bool
  json : Bool
  /-- The long names of the options given. -/
  given : List String
deriving DecidableEq, Repr

namespace Arguments

def empty : Arguments where
  settings := .unset
  file := none
  logLevel := "info"
  debug := false
  detach := false
  json := false
  given := []

def change (a : Arguments) (f : Settings → Settings) : Arguments :=
  { a with settings := f a.settings }

end Arguments

/-- What an option does. -/
inductive OptionEffect where
  | help
  | version
  | flag (set : Arguments → Arguments)
  | text (set : String → Arguments → Arguments)
  | path (set : String → Arguments → Arguments)
  | number (bound : Nat) (set : Nat → Arguments → Arguments)

/-- An option as a command knows it. -/
structure OptionForm where
  long : String
  letter : Option Char
  effect : OptionEffect
  /-- Whether it may be given more than once. -/
  repeatable : Bool
  about : String

namespace OptionForm

/-- The options that every command has. -/
def shared : List OptionForm := [
  ⟨"config", some 'c', .path fun v a => { a with file := some v }, false,
    "Settings file; options of the command line override it"⟩,
  ⟨"log-level", none, .text fun v a => { a with logLevel := v }, false,
    "Log level (trace, debug, info, warn, error) [default: info]"⟩,
  ⟨"debug", none, .flag fun a => { a with debug := true }, false, "Shortcut for --log-level debug"⟩,
  ⟨"help", some 'h', .help, false, "Print help"⟩]

def statusFile (about : String) : OptionForm :=
  ⟨"status-file", none, .path fun v a => a.change ({ · with statusFile := some v }), false, about⟩

def ofTunnel : List OptionForm := [
  ⟨"daemon", some 'd', .flag fun a => { a with detach := true }, false,
    "Detach and run in the background"⟩,
  ⟨"local", some 'l', .text fun v a => a.change ({ · with listen := some v }), false,
    "Server mode: listen on HOST:PORT"⟩,
  ⟨"remote", some 'r', .text fun v a => a.change ({ · with remote := some v }), false,
    "Client mode: connect to the server at HOST:PORT"⟩,
  ⟨"ipv4-addr", some 'a', .text fun v a => a.change ({ · with ipv4Address := some v }), false,
    "Tunnel IPv4 address: a.b.c.d/prefix or a point-to-point pair a.b.c.d/e.f.g.h"⟩,
  ⟨"ipv6-addr", some 'A', .text fun v a => a.change ({ · with ipv6Address := some v }), false,
    "Tunnel IPv6 address: addr/prefix"⟩,
  ⟨"mtu", some 'm', .number UInt16.size fun n a => a.change ({ · with mtu := some (.ofNat n) }),
    false, "Tunnel MTU [default: 1416]"⟩,
  ⟨"keepalive", some 't', .number UInt64.size
    fun n a => a.change ({ · with keepalive := some (.ofNat n) }),
    false, "Keepalive interval in seconds [default: 13]"⟩,
  ⟨"reconnect-timeout", none,
    .number UInt64.size fun n a => a.change ({ · with reconnectTimeout := some (.ofNat n) }), false,
    "Seconds of silence before the client reconnects [default: 60]"⟩,
  ⟨"session-expiry", none,
    .number UInt64.size fun n a => a.change ({ · with sessionExpiry := some (.ofNat n) }), false,
    "Seconds of silence before the server drops a peer [default: 3 x keepalive]"⟩,
  ⟨"ifname", some 'n', .text fun v a => a.change ({ · with interface := some v }), false,
    "Interface name, may contain %d [default: vt%d]"⟩,
  ⟨"pidfile", some 'p', .path fun v a => a.change ({ · with pidFile := some v }), false,
    "Write the process id to this file"⟩,
  ⟨"encryption-key", some 'e', .text fun v a => a.change ({ · with encryptionKey := some v }),
    false, "Pre-shared passphrase"⟩,
  ⟨"no-encryption", some 'N', .flag fun a => a.change ({ · with noEncryption := true }), false,
    "Run without encryption"⟩,
  ⟨"route", some 'v', .text fun v a => a.change fun s => { s with routes := s.routes ++ [v] }, true,
    "Route in network/prefix=gateway form, may be repeated"⟩,
  ⟨"relay", none, .flag fun a => a.change ({ · with relay := true }), false,
    "Server: forward traffic between peers instead of via the kernel"⟩,
  ⟨"no-implicit-login", none, .flag fun a => a.change ({ · with implicitLogin := some false }),
    false, "Server: require a login before accepting data"⟩,
  ⟨"no-route-advertise", none, .flag fun a => a.change ({ · with advertiseRoutes := some false }),
    false, "Server: do not push routes to clients"⟩,
  ⟨"address-pool", none, .text fun v a => a.change ({ · with addressPool := some v }), false,
    "Server: IPv4 pool for client addresses [default: the tunnel network]"⟩,
  statusFile "Write a JSON status snapshot here every second",
  ⟨"version", some 'V', .version, false, "Print version"⟩]

def ofStatus : List OptionForm := [
  statusFile "Status file the running tunnel was started with",
  ⟨"json", none, .flag fun a => { a with json := true }, false, "Print raw JSON"⟩]

end OptionForm

def CommandScope.options : CommandScope → List OptionForm
  | tunnel => OptionForm.ofTunnel ++ OptionForm.shared
  | status => OptionForm.ofStatus ++ OptionForm.shared

namespace CommandScope

def long? (scope : CommandScope) (name : String) : Option OptionForm :=
  scope.options.find? (·.long = name)

def letter? (scope : CommandScope) (c : Char) : Option OptionForm :=
  scope.options.find? (·.letter = some c)

end CommandScope

end PacketTunnel
