import PacketTunnel.Digest
import PacketTunnel.Cipher.Chaining
import PacketTunnel.Cipher.Padding

/-!
# Protection of payloads

A tunnel is either keyed by a passphrase or explicitly runs in clear text. The passphrase yields a
cipher key and, under a separate label, a fingerprint that travels in every header; the fingerprint
reveals nothing of the key. A keyed payload is an initialisation vector followed by the chained and
padded plain text. The vector is an argument of `encrypt`, so that encryption is a function.
-/
namespace PacketTunnel

/-- Sixteen bytes that name the passphrase of a tunnel. -/
abbrev Fingerprint := Block

/-- Whether two fingerprints are equal, looking at every byte before deciding. -/
def Fingerprint.agrees (x y : Fingerprint) : Bool :=
  (List.zipWith (· ^^^ ·) (Block.toBytes x) (Block.toBytes y)).foldl (· ||| ·) 0 == 0

/-- What a passphrase yields: the round keys of the cipher and the fingerprint. -/
structure KeyMaterial where
  roundKeys : List Block
  fingerprint : Fingerprint
deriving DecidableEq, Repr

inductive Protection where
  | keyed (keys : KeyMaterial)
  | clear
deriving DecidableEq, Repr

namespace KeyMaterial

def keyLabel : Bytes := ("vtunnel-key".toUTF8.toList ++ [0])

def fingerprintLabel : Bytes := ("vtunnel-auth".toUTF8.toList ++ [0])

def firstBlock (bytes : Bytes) : Block := ((Block.take? bytes).map Prod.fst).getD default

def derive (passphrase : String) : KeyMaterial :=
  let secret := passphrase.toUTF8.toList
  let key := Digest.digest (keyLabel ++ secret)
  let name := Digest.digest (fingerprintLabel ++ secret)
  { roundKeys := Cipher.roundKeys (firstBlock key) (firstBlock (key.drop 16))
    fingerprint := firstBlock name }

end KeyMaterial

namespace Protection

/-- The public fingerprint of a tunnel in clear text, the bytes of a fixed phrase. -/
def clearFingerprint : Fingerprint := KeyMaterial.firstBlock "vtunnel-cleartxt".toUTF8.toList

def ofPassphrase : Option String → Protection
  | some passphrase => .keyed (.derive passphrase)
  | none => .clear

def isEncrypted : Protection → Bool
  | keyed _ => true
  | clear => false

/-- The fingerprint put into, and expected from, every header. -/
def fingerprint : Protection → Fingerprint
  | keyed keys => keys.fingerprint
  | clear => clearFingerprint

/-- The most bytes that encryption adds: a vector and a full block of padding. -/
def overhead : Protection → Nat
  | keyed _ => 32
  | clear => 0

def encrypt (p : Protection) (iv : Block) (plain : Bytes) : Bytes :=
  match p with
  | keyed keys =>
    iv.toBytes ++
      Block.join (Cipher.chain keys.roundKeys iv ((Block.split? (Cipher.pad plain)).getD []))
  | clear => plain

/-- The plain text of a payload; refused when it is short, misaligned or badly padded. -/
def decrypt? (p : Protection) (payload : Bytes) : Option Bytes :=
  match p with
  | keyed keys =>
    if payload.length < 32 then none
    else match Block.take? payload with
      | none => none
      | some (iv, rest) =>
        (Block.split? rest).bind fun blocks =>
          Cipher.unpad? (Block.join (Cipher.unchain keys.roundKeys iv blocks))
  | clear => some payload

/-- How a protection shows itself: never more than the start of the fingerprint. -/
def describe : Protection → String
  | keyed keys =>
    s!"Encrypted(KeyMaterial \x7b fingerprint: \"{Bytes.toHex (keys.fingerprint.toBytes.take 4)}\", .. \x7d)"
  | clear => "Plaintext"

end Protection

end PacketTunnel
