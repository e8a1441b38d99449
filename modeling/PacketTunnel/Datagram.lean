import PacketTunnel.Protection
import PacketTunnel.Message.Body

/-!
# Datagrams

A datagram is a header of 22 bytes in clear text and a payload, which is the message body as the
tunnel's protection leaves it. The header states protocol, version, fingerprint, kind of message and
payload length. A codec is a protection with a limit on payloads. Decoding checks header,
fingerprint, length, limit and kind in this order before it decrypts, and interprets nothing of the
payload until every check has passed.
-/
namespace PacketTunnel

/-- The fields of a header. The kind is a code that need not be known. -/
structure Header where
  fingerprint : Fingerprint
  kind : UInt8
  payloadLength : UInt16
deriving DecidableEq, Repr

namespace Header

def size : Nat := 22

def protocolId : Bytes := [0x56, 0x54]

def version : UInt8 := 1

def encode (h : Header) : Bytes :=
  protocolId ++ version :: h.fingerprint.toBytes ++ h.kind :: Bytes.ofNat 2 h.payloadLength.toNat

def decode (datagram : Bytes) : Except DatagramFault Header :=
  if datagram.length < size then .error (.shorterThanHeader datagram.length)
  else if datagram.take 2 ≠ protocolId then .error .protocol
  else match datagram.drop 2 with
    | [] => .error (.shorterThanHeader datagram.length)
    | v :: rest =>
      if v ≠ version then .error (.version v)
      else match Block.take? rest with
        | some (fingerprint, kind :: high :: low :: _) =>
          .ok ⟨fingerprint, kind, UInt16.ofNat (Bytes.toNat [high, low])⟩
        | _ => .error (.shorterThanHeader datagram.length)

end Header

inductive Rejection where
  | malformed (fault : DatagramFault)
  /-- Another fingerprint, or a payload that does not decrypt; which of the two is not told. -/
  | unauthentic
deriving DecidableEq, Repr

/-- How one tunnel turns messages into datagrams and back. -/
structure Codec where
  protection : Protection
  maxPayload : Nat
deriving DecidableEq, Repr

namespace Codec

/-- Room beyond the MTU for encryption and framing. -/
def slack : UInt64 := 64

/-- The codec of a protection and a tunnel MTU. The limit on payloads is counted in 64 bits, and an
MTU so great that the room no longer fits into them starts over from zero. -/
def ofMtu (protection : Protection) (mtu : UInt64) : Codec :=
  ⟨protection, min (mtu + slack).toNat 65535⟩

def fingerprint (c : Codec) : Fingerprint := c.protection.fingerprint

def encode (c : Codec) (iv : Block) (message : Message) : Except DatagramFault Bytes :=
  let payload := c.protection.encrypt iv message.encodeBody
  if c.maxPayload < payload.length then
    .error (.oversized message.kind payload.length c.maxPayload)
  else
    .ok (Header.encode ⟨c.fingerprint, message.kind.code, UInt16.ofNat payload.length⟩ ++ payload)

def decode (c : Codec) (datagram : Bytes) : Except Rejection Message :=
  match Header.decode datagram with
  | .error fault => .error (.malformed fault)
  | .ok header =>
    let payload := datagram.drop Header.size
    if !header.fingerprint.agrees c.fingerprint then .error .unauthentic
    else if payload.length ≠ header.payloadLength.toNat then
      .error (.malformed (.declaredLength header.payloadLength.toNat payload.length))
    else if c.maxPayload < payload.length then
      .error (.malformed (.overLimit payload.length c.maxPayload))
    else match MessageKind.ofCode? header.kind with
      | none => .error (.malformed (.kind header.kind))
      | some kind =>
        match c.protection.decrypt? payload with
        | none => .error .unauthentic
        | some body => (Message.decodeBody kind body).mapError .malformed

/-- How many routes one advertisement may carry, whatever their families; always at least one. -/
def routesPerMessage (c : Codec) : Nat :=
  max 1 ((c.maxPayload - (c.protection.overhead + 2)) / Message.longestRoute)

/-- Cut a list into pieces of at most `size` elements; `fuel` bounds the number of pieces. -/
def pieces {α : Type} (size : Nat) : Nat → List α → List (List α)
  | 0, _ => []
  | _ + 1, [] => []
  | fuel + 1, xs => xs.take size :: pieces size fuel (xs.drop size)

/-- Advertisements that carry the given routes in order, each small enough for a datagram. -/
def advertisements (c : Codec) (routes : List Route) : List Message :=
  (pieces c.routesPerMessage routes.length routes).map .routeAdvertise

end Codec

end PacketTunnel
