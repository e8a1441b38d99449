import PacketTunnel.Bytes

/-!
# Internet addresses

An address is a bit string of 32 or 128 bits together with its family. Addresses of different
families are never equal, even where one block of the longer ones is reserved for writing the
shorter.
-/
namespace PacketTunnel

abbrev IPv4 := BitVec 32

abbrev IPv6 := BitVec 128

/-- An address of either family. -/
inductive Address where
  | v4 (bits : IPv4)
  | v6 (bits : IPv6)
deriving DecidableEq, Repr

namespace IPv4

def toBytes (a : IPv4) : Bytes := Bytes.ofNat 4 a.toNat

def ofBytes (bytes : Bytes) : IPv4 := BitVec.ofNat 32 (Bytes.toNat bytes)

end IPv4

namespace IPv6

def toBytes (a : IPv6) : Bytes := Bytes.ofNat 16 a.toNat

def ofBytes (bytes : Bytes) : IPv6 := BitVec.ofNat 128 (Bytes.toNat bytes)

/-- The eight groups of sixteen bits, first to last. -/
def groups (a : IPv6) : List Nat :=
  [7, 6, 5, 4, 3, 2, 1, 0].map fun i => (a.toNat >>> (16 * i)) % 65536

def ofGroups (gs : List Nat) : IPv6 := BitVec.ofNat 128 (gs.foldl (fun n g => 65536 * n + g) 0)

end IPv6

namespace Address

def isV4 : Address → Bool
  | v4 _ => true
  | v6 _ => false

end Address

end PacketTunnel
