import PacketTunnel.Message.Basic

/-!
# Message bodies

The body of a message as bytes, before encryption. A packet is its own body. A probe is an
identifier of four bytes and a timestamp of eight, and may be left out. A login is a flag byte and
the addresses that it announces. An advertisement is a count of two bytes and the routes, each with
its family, prefix length, network and gateway. A farewell is empty. `decodeBody` accepts nothing
after the last field.
-/
namespace PacketTunnel

inductive DatagramFault where
  | shorterThanHeader (size : Nat)
  | protocol
  | version (version : UInt8)
  | declaredLength (declared actual : Nat)
  | overLimit (size limit : Nat)
  | kind (code : UInt8)
  | emptyData
  | truncated (needed left : Nat)
  | loginFlags (flags : UInt8)
  | routeCount (count : Nat)
  | routeFamily (family : UInt8)
  | route (network : Address) (length : Nat)
  | trailing (count : Nat) (kind : MessageKind)
  | oversized (kind : MessageKind) (size limit : Nat)
deriving DecidableEq, Repr

def DatagramFault.message : DatagramFault → String
  | shorterThanHeader size => s!"datagram too short: {size} bytes, header needs 22"
  | protocol => "bad protocol identifier"
  | version v => s!"unsupported protocol version {v.toNat}"
  | declaredLength declared actual =>
    s!"declared payload length {declared} but {actual} bytes present"
  | overLimit size limit => s!"payload of {size} bytes exceeds limit {limit}"
  | kind code => s!"unknown message type 0x{Bytes.toHex [code]}"
  | emptyData => "empty DATA payload"
  | truncated needed left => s!"body truncated: need {needed} bytes, have {left}"
  | loginFlags flags => s!"unknown login flags 0x{Bytes.toHex [flags]}"
  | routeCount count => s!"route count {count} exceeds payload"
  | routeFamily family => s!"unknown route family {family.toNat}"
  | route network length => s!"invalid advertised route {network.toText}/{length}"
  | trailing count k => s!"{count} trailing bytes in {k.name} body"
  | oversized k size limit => s!"{k.name} payload of {size} bytes exceeds limit {limit}"

namespace Message

/-- The flag of a login that announces a version 4 address. -/
def ipv4Flag : UInt8 := 1

def ipv6Flag : UInt8 := 2

def encodeEcho (e : Echo) : Bytes := Bytes.ofNat 4 e.id.toNat ++ Bytes.ofNat 8 e.timestamp.toNat

def encodeLogin (v : VirtualAddresses) : Bytes :=
  let flags := (if v.ipv4.isSome then ipv4Flag else 0) ||| (if v.ipv6.isSome then ipv6Flag else 0)
  flags :: (v.ipv4.map IPv4.toBytes).getD [] ++ (v.ipv6.map IPv6.toBytes).getD []

/-- The bytes of an advertised route. A route whose gateway is of another family has no bytes. -/
def encodeRoute (r : Route) : Bytes :=
  match r.network, r.gateway with
  | .v4 s, .v4 gateway => 4 :: UInt8.ofNat s.length :: (IPv4.toBytes s.address ++ gateway.toBytes)
  | .v6 s, .v6 gateway => 6 :: UInt8.ofNat s.length :: (IPv6.toBytes s.address ++ gateway.toBytes)
  | _, _ => []

def encodeBody : Message → Bytes
  | data packet => packet
  | echoRequest e => encodeEcho e
  | echoAck e => encodeEcho e
  | clientLogin v => encodeLogin v
  | routeAdvertise rs => Bytes.ofNat 2 rs.length ++ rs.flatMap encodeRoute
  | disconnect => []

/-- The first bytes of a body, and what follows. -/
def takeBytes (count : Nat) (body : Bytes) : Except DatagramFault (Bytes × Bytes) :=
  if body.length < count then .error (.truncated count body.length)
  else .ok (body.take count, body.drop count)

def takeNat (width : Nat) (body : Bytes) : Except DatagramFault (Nat × Bytes) :=
  (takeBytes width body).map fun parts => (Bytes.toNat parts.1, parts.2)

def takeIPv4 (body : Bytes) : Except DatagramFault (IPv4 × Bytes) :=
  (takeBytes 4 body).map fun parts => (IPv4.ofBytes parts.1, parts.2)

def takeIPv6 (body : Bytes) : Except DatagramFault (IPv6 × Bytes) :=
  (takeBytes 16 body).map fun parts => (IPv6.ofBytes parts.1, parts.2)

/-- A probe; an empty body is the probe with identifier and timestamp zero. -/
def decodeEcho (body : Bytes) : Except DatagramFault (Echo × Bytes) :=
  if body.isEmpty then .ok (⟨0, 0⟩, [])
  else do
    let (id, rest) ← takeNat 4 body
    let (timestamp, rest) ← takeNat 8 rest
    .ok (⟨UInt32.ofNat id, UInt64.ofNat timestamp⟩, rest)

def decodeLogin (body : Bytes) : Except DatagramFault (VirtualAddresses × Bytes) := do
  let (n, rest) ← takeNat 1 body
  let flags := UInt8.ofNat n
  if flags &&& ~~~(ipv4Flag ||| ipv6Flag) ≠ 0 then .error (.loginFlags flags)
  else
    let (ipv4, rest) ←
      if flags &&& ipv4Flag ≠ 0 then (takeIPv4 rest).map fun p => (some p.1, p.2)
      else .ok (none, rest)
    let (ipv6, rest) ←
      if flags &&& ipv6Flag ≠ 0 then (takeIPv6 rest).map fun p => (some p.1, p.2)
      else .ok (none, rest)
    .ok (⟨ipv4, ipv6⟩, rest)

def takeRouteEnds (family : UInt8) (body : Bytes) :
    Except DatagramFault (Address × Address × Bytes) :=
  if family = 4 then do
    let (network, rest) ← takeIPv4 body
    let (gateway, rest) ← takeIPv4 rest
    .ok (.v4 network, .v4 gateway, rest)
  else if family = 6 then do
    let (network, rest) ← takeIPv6 body
    let (gateway, rest) ← takeIPv6 rest
    .ok (.v6 network, .v6 gateway, rest)
  else .error (.routeFamily family)

def decodeRoute (body : Bytes) : Except DatagramFault (Route × Bytes) := do
  let (family, rest) ← takeNat 1 body
  let (length, rest) ← takeNat 1 rest
  let (network, gateway, rest) ← takeRouteEnds (UInt8.ofNat family) rest
  match Route.make network length gateway with
  | .ok r => .ok (r, rest)
  | .error _ => .error (.route network length)

def decodeRoutes : Nat → Bytes → Except DatagramFault (List Route × Bytes)
  | 0, body => .ok ([], body)
  | count + 1, body => do
    let (r, rest) ← decodeRoute body
    let (rs, rest) ← decodeRoutes count rest
    .ok (r :: rs, rest)

/-- The least number of bytes that an advertised route takes. -/
def shortestRoute : Nat := 10

/-- The greatest number of bytes that an advertised route takes. -/
def longestRoute : Nat := 34

/-- An advertisement. A count that the body cannot hold is refused before any route is read. -/
def decodeAdvertisement (body : Bytes) : Except DatagramFault (List Route × Bytes) := do
  let (count, rest) ← takeNat 2 body
  if rest.length / shortestRoute < count then .error (.routeCount count)
  else decodeRoutes count rest

/-- A message, if nothing is left after it. -/
def finish (kind : MessageKind) (message : Message) (rest : Bytes) : Except DatagramFault Message :=
  if rest.isEmpty then .ok message else .error (.trailing rest.length kind)

def decodeBody (kind : MessageKind) (body : Bytes) : Except DatagramFault Message :=
  match kind with
  | .data => if body.isEmpty then .error .emptyData else .ok (data body)
  | .echoRequest => do
    let (e, rest) ← decodeEcho body
    finish kind (echoRequest e) rest
  | .echoAck => do
    let (e, rest) ← decodeEcho body
    finish kind (echoAck e) rest
  | .clientLogin => do
    let (v, rest) ← decodeLogin body
    finish kind (clientLogin v) rest
  | .routeAdvertise => do
    let (rs, rest) ← decodeAdvertisement body
    finish kind (routeAdvertise rs) rest
  | .disconnect => finish kind disconnect body

end Message

end PacketTunnel
