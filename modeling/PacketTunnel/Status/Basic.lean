/-!
# Status snapshots

What a running tunnel tells about itself: its side and interface, its sessions and routes as text,
and counters of the datagrams and packets that it handled. Times are in whole seconds.
-/
namespace PacketTunnel

structure Counters where
  datagramsIn : UInt64
  datagramsOut : UInt64
  /-- Datagrams with a malformed header or body. -/
  droppedFormat : UInt64
  /-- Datagrams with another fingerprint or bad padding. -/
  droppedAuth : UInt64
  /-- Sound datagrams from a sender without a session. -/
  droppedUnknown : UInt64
  /-- Packets for a destination that no peer serves. -/
  droppedUnroutable : UInt64
  deviceWrites : UInt64
  relayed : UInt64
deriving DecidableEq, Repr

def Counters.zero : Counters := ⟨0, 0, 0, 0, 0, 0, 0, 0⟩

structure SessionSnapshot where
  endpoint : String
  ipv4 : Option String
  ipv6 : Option String
  idleSeconds : UInt64
  uptimeSeconds : UInt64
  routes : List String
  receivedPackets : UInt64
  sentPackets : UInt64
  receivedBytes : UInt64
  sentBytes : UInt64
deriving DecidableEq, Repr

/-- A tunnel at one moment. -/
structure Snapshot where
  mode : String
  interface : String
  state : Option String
  server : Option String
  encrypted : Bool
  uptimeSeconds : UInt64
  sessions : List SessionSnapshot
  routes : List String
  counters : Counters
deriving DecidableEq, Repr

end PacketTunnel
