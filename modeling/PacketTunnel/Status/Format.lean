import PacketTunnel.Json.Printer
import PacketTunnel.Json.Reader
import PacketTunnel.Status.Basic

/-!
# Snapshots as JSON

A snapshot is written as an object with a member for each field. Reading takes an object with the
members in any order, or an array of the fields in order. Members of other names are ignored,
whatever they hold; a member must not occur twice. A missing address, state or server is absent, and
a missing list of routes is empty.
-/
namespace PacketTunnel

/-- The fields of a record by their names: from an object, or in order from an array. -/
abbrev JsonFields := String → Option JsonValue

namespace JsonValue

def membersNamed (members : List (Option (List Char) × JsonValue)) (name : String) :
    List JsonValue :=
  members.filterMap fun m => if m.1 = some name.toList then some m.2 else none

def fields? (names : List String) : JsonValue → Option JsonFields
  | object members =>
    if members.all (fun m => m.1.isSome) &&
      names.all (fun n => (membersNamed members n).length ≤ 1) then
      some fun n => (membersNamed members n).head?
    else none
  | array items =>
    if items.length = names.length then some fun n => (names.zip items).lookup n else none
  | _ => none

def list? {α : Type} (item : JsonValue → Option α) : JsonValue → Option (List α)
  | array items => items.mapM item
  | _ => none

def nullable? {α : Type} (item : JsonValue → Option α) : JsonValue → Option (Option α)
  | null => some none
  | v => (item v).map some

end JsonValue

namespace JsonFields

def need {α : Type} (f : JsonFields) (name : String) (item : JsonValue → Option α) : Option α :=
  (f name).bind item

/-- A field that counts as the given value when it is missing. -/
def orElse {α : Type} (f : JsonFields) (name : String) (item : JsonValue → Option α) (missing : α) :
    Option α :=
  match f name with
  | none => some missing
  | some v => item v

end JsonFields

namespace Counters

def fieldNames : List String :=
  ["datagrams_in", "datagrams_out", "dropped_format", "dropped_auth", "dropped_unknown",
    "dropped_unroutable", "device_writes", "relayed"]

def toJson (c : Counters) : JsonValue :=
  .object [
    JsonValue.field "datagrams_in" (.ofNat c.datagramsIn.toNat),
    JsonValue.field "datagrams_out" (.ofNat c.datagramsOut.toNat),
    JsonValue.field "dropped_format" (.ofNat c.droppedFormat.toNat),
    JsonValue.field "dropped_auth" (.ofNat c.droppedAuth.toNat),
    JsonValue.field "dropped_unknown" (.ofNat c.droppedUnknown.toNat),
    JsonValue.field "dropped_unroutable" (.ofNat c.droppedUnroutable.toNat),
    JsonValue.field "device_writes" (.ofNat c.deviceWrites.toNat),
    JsonValue.field "relayed" (.ofNat c.relayed.toNat)]

def ofJson? (v : JsonValue) : Option Counters := do
  let f ← v.fields? fieldNames
  some {
    datagramsIn := ← f.need "datagrams_in" JsonValue.toUInt64?
    datagramsOut := ← f.need "datagrams_out" JsonValue.toUInt64?
    droppedFormat := ← f.need "dropped_format" JsonValue.toUInt64?
    droppedAuth := ← f.need "dropped_auth" JsonValue.toUInt64?
    droppedUnknown := ← f.need "dropped_unknown" JsonValue.toUInt64?
    droppedUnroutable := ← f.need "dropped_unroutable" JsonValue.toUInt64?
    deviceWrites := ← f.need "device_writes" JsonValue.toUInt64?
    relayed := ← f.need "relayed" JsonValue.toUInt64? }

end Counters

namespace SessionSnapshot

def fieldNames : List String :=
  ["endpoint", "ipv4", "ipv6", "idle_secs", "uptime_secs", "routes", "rx_packets", "tx_packets",
    "rx_bytes", "tx_bytes"]

def toJson (s : SessionSnapshot) : JsonValue :=
  .object [
    JsonValue.field "endpoint" (.ofString s.endpoint),
    JsonValue.field "ipv4" (.ofOption .ofString s.ipv4),
    JsonValue.field "ipv6" (.ofOption .ofString s.ipv6),
    JsonValue.field "idle_secs" (.ofNat s.idleSeconds.toNat),
    JsonValue.field "uptime_secs" (.ofNat s.uptimeSeconds.toNat),
    JsonValue.field "routes" (.array (s.routes.map .ofString)),
    JsonValue.field "rx_packets" (.ofNat s.receivedPackets.toNat),
    JsonValue.field "tx_packets" (.ofNat s.sentPackets.toNat),
    JsonValue.field "rx_bytes" (.ofNat s.receivedBytes.toNat),
    JsonValue.field "tx_bytes" (.ofNat s.sentBytes.toNat)]

def ofJson? (v : JsonValue) : Option SessionSnapshot := do
  let f ← v.fields? fieldNames
  some {
    endpoint := ← f.need "endpoint" JsonValue.toString?
    ipv4 := ← f.orElse "ipv4" (JsonValue.nullable? JsonValue.toString?) none
    ipv6 := ← f.orElse "ipv6" (JsonValue.nullable? JsonValue.toString?) none
    idleSeconds := ← f.need "idle_secs" JsonValue.toUInt64?
    uptimeSeconds := ← f.need "uptime_secs" JsonValue.toUInt64?
    routes := ← f.orElse "routes" (JsonValue.list? JsonValue.toString?) []
    receivedPackets := ← f.need "rx_packets" JsonValue.toUInt64?
    sentPackets := ← f.need "tx_packets" JsonValue.toUInt64?
    receivedBytes := ← f.need "rx_bytes" JsonValue.toUInt64?
    sentBytes := ← f.need "tx_bytes" JsonValue.toUInt64? }

end SessionSnapshot

namespace Snapshot

def fieldNames : List String :=
  ["mode", "interface", "state", "server", "encrypted", "uptime_secs", "sessions", "routes",
    "counters"]

def toJson (s : Snapshot) : JsonValue :=
  .object [
    JsonValue.field "mode" (.ofString s.mode),
    JsonValue.field "interface" (.ofString s.interface),
    JsonValue.field "state" (.ofOption .ofString s.state),
    JsonValue.field "server" (.ofOption .ofString s.server),
    JsonValue.field "encrypted" (.bool s.encrypted),
    JsonValue.field "uptime_secs" (.ofNat s.uptimeSeconds.toNat),
    JsonValue.field "sessions" (.array (s.sessions.map SessionSnapshot.toJson)),
    JsonValue.field "routes" (.array (s.routes.map .ofString)),
    JsonValue.field "counters" s.counters.toJson]

def ofJson? (v : JsonValue) : Option Snapshot := do
  let f ← v.fields? fieldNames
  some {
    mode := ← f.need "mode" JsonValue.toString?
    interface := ← f.need "interface" JsonValue.toString?
    state := ← f.orElse "state" (JsonValue.nullable? JsonValue.toString?) none
    server := ← f.orElse "server" (JsonValue.nullable? JsonValue.toString?) none
    encrypted := ← f.need "encrypted" JsonValue.toBool?
    uptimeSeconds := ← f.need "uptime_secs" JsonValue.toUInt64?
    sessions := ← f.need "sessions" (JsonValue.list? SessionSnapshot.ofJson?)
    routes := ← f.orElse "routes" (JsonValue.list? JsonValue.toString?) []
    counters := ← f.need "counters" Counters.ofJson? }

def write (s : Snapshot) : String := s.toJson.toText

def read? (text : String) : Option Snapshot := (JsonValue.parse? text.toList).bind ofJson?

end Snapshot

end PacketTunnel
