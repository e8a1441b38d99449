import PacketTunnel.Address.Endpoint
import PacketTunnel.Message.Basic
import PacketTunnel.Status.Basic

/-!
# Sessions

A session is what one end of a tunnel knows of the other: where its datagrams come from, which
virtual addresses it holds, when it was last heard, and how much went each way. Times are
milliseconds since some origin; a difference of times in the wrong order is zero.
-/
namespace PacketTunnel

/-- Milliseconds since an origin that all times share. -/
abbrev Time := Nat

abbrev Duration := Nat

namespace Time

def since (now earlier : Time) : Duration := now - earlier

def seconds (d : Duration) : UInt64 := UInt64.ofNat (d / 1000)

end Time

structure Tally where
  packets : UInt64
  bytes : UInt64
deriving DecidableEq, Repr

namespace Tally

def zero : Tally := ⟨0, 0⟩

def add (t : Tally) (size : Nat) : Tally := ⟨t.packets + 1, t.bytes + UInt64.ofNat size⟩

end Tally

/-- What one end of a tunnel knows of the other. -/
structure Session where
  endpoint : Endpoint
  addresses : VirtualAddresses
  created : Time
  lastReceived : Time
  lastKeepalive : Option Time
  nextEchoId : UInt32
  /-- The greatest identifier of an answered probe. -/
  lastEchoAcked : Option UInt32
  /-- Routes whose gateway is this peer. -/
  ownedRoutes : List Route
  received : Tally
  sent : Tally
deriving DecidableEq, Repr

namespace Session

def start (endpoint : Endpoint) (now : Time) : Session where
  endpoint := endpoint
  addresses := .empty
  created := now
  lastReceived := now
  lastKeepalive := none
  nextEchoId := 1
  lastEchoAcked := none
  ownedRoutes := []
  received := .zero
  sent := .zero

/-- A valid datagram of the given size arrived. -/
def touch (s : Session) (now : Time) (size : Nat) : Session :=
  { s with lastReceived := now, received := s.received.add size }

def recordSent (s : Session) (size : Nat) : Session := { s with sent := s.sent.add size }

/-- How long the peer has been silent. -/
def idle (s : Session) (now : Time) : Duration := now.since s.lastReceived

def isExpired (s : Session) (now : Time) (threshold : Duration) : Bool := threshold < s.idle now

/-- Whether it is time for a probe: at once, and then whenever the interval has passed. -/
def keepaliveDue (s : Session) (now : Time) (interval : Duration) : Bool :=
  s.lastKeepalive.all fun last => interval ≤ now.since last

def nextEcho (s : Session) (now : Time) (timestamp : UInt64) : Session × Echo :=
  ({ s with nextEchoId := s.nextEchoId + 1, lastKeepalive := some now }, ⟨s.nextEchoId, timestamp⟩)

/-- Whether an answer is to a later probe than every answer before. -/
def isFreshAck (s : Session) (echo : Echo) : Bool := s.lastEchoAcked.all fun last => last < echo.id

/-- An answer to a probe arrived; only a fresh one counts. -/
def acknowledge (s : Session) (echo : Echo) : Session :=
  if s.isFreshAck echo then { s with lastEchoAcked := some echo.id } else s

def snapshot (s : Session) (now : Time) : SessionSnapshot where
  endpoint := s.endpoint.toText
  ipv4 := s.addresses.ipv4.map IPv4.toText
  ipv6 := s.addresses.ipv6.map IPv6.toText
  idleSeconds := Time.seconds (s.idle now)
  uptimeSeconds := Time.seconds (now.since s.created)
  routes := s.ownedRoutes.map Route.toText
  receivedPackets := s.received.packets
  sentPackets := s.sent.packets
  receivedBytes := s.received.bytes
  sentBytes := s.sent.bytes

end Session

end PacketTunnel
