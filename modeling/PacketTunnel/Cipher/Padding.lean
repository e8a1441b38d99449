import PacketTunnel.Block

/-!
# Padding to whole blocks

Between one and sixteen bytes are added so that the length becomes a multiple of sixteen, and each
added byte states how many there are. `unpad?` accepts exactly what `pad` produces: it checks every
added byte, not only the last.
-/
namespace PacketTunnel.Cipher

def padCount (length : Nat) : Nat := 16 - length % 16

def pad (bytes : Bytes) : Bytes :=
  bytes ++ List.replicate (padCount bytes.length) (UInt8.ofNat (padCount bytes.length))

/-- The bytes without their padding, if there is a sound padding. -/
def unpad? (bytes : Bytes) : Option Bytes :=
  match bytes.getLast? with
  | none => none
  | some last =>
    let count := last.toNat
    if count = 0 ∨ 16 < count ∨ bytes.length < count then none
    else if (bytes.drop (bytes.length - count)).all (· == last) then
      some (bytes.take (bytes.length - count))
    else none

end PacketTunnel.Cipher
