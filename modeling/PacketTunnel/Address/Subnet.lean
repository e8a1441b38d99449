import PacketTunnel.Address.Text
import PacketTunnel.Text.Blank

/-!
# Subnets

A subnet is an address with a prefix length that its family allows. It contains the addresses that
share its first bits. The bits after the prefix need not be zero; `truncate` clears them.
-/
namespace PacketTunnel

open Text

/-- An address of `width` bits with a prefix length. -/
structure Subnet (width : Nat) where
  address : BitVec width
  length : Fin (width + 1)
deriving DecidableEq, Repr

namespace Subnet

variable {width : Nat}

/-- The subnet of an address and a prefix length, if the length is in range. -/
def make? (address : BitVec width) (length : Nat) : Option (Subnet width) :=
  if h : length < width + 1 then some ⟨address, ⟨length, h⟩⟩ else none

def hostBits (s : Subnet width) : Nat := width - s.length

/-- The lowest address, in which all bits after the prefix are zero. -/
def first (s : Subnet width) : BitVec width := (s.address >>> s.hostBits) <<< s.hostBits

def last (s : Subnet width) : BitVec width := s.first ||| (BitVec.allOnes width >>> s.length.val)

/-- The subnet with all bits after the prefix cleared. -/
def truncate (s : Subnet width) : Subnet width := ⟨s.first, s.length⟩

def contains (s : Subnet width) (a : BitVec width) : Bool :=
  a >>> s.hostBits == s.address >>> s.hostBits

end Subnet

/-- A subnet of either family. -/
inductive Network where
  | v4 (subnet : Subnet 32)
  | v6 (subnet : Subnet 128)
deriving DecidableEq, Repr

namespace Network

def address : Network → Address
  | v4 s => .v4 s.address
  | v6 s => .v6 s.address

def length : Network → Nat
  | v4 s => s.length
  | v6 s => s.length

def isV4 : Network → Bool
  | v4 _ => true
  | v6 _ => false

/-- The network of an address and a prefix length, if the length suits the family. -/
def make? : Address → Nat → Option Network
  | .v4 a, n => (Subnet.make? a n).map v4
  | .v6 a, n => (Subnet.make? a n).map v6

def truncate : Network → Network
  | v4 s => v4 s.truncate
  | v6 s => v6 s.truncate

/-- Whether an address is of the same family and shares the prefix. -/
def contains : Network → Address → Bool
  | v4 s, .v4 a => s.contains a
  | v6 s, .v6 a => s.contains a
  | _, _ => false

def toChars (n : Network) : List Char := n.address.toChars ++ '/' :: decimal n.length

def toText (n : Network) : String := String.ofList n.toChars

/-- A whole text as a network, in which bits after the prefix may be set. -/
def parse? (text : List Char) : Option Network := do
  let (a, length) ← splitFirst? '/' text
  make? (← Address.parse? a) (← unsigned? 256 length)

end Network

namespace Subnet

/-- One number of a pool's address: at most three digits, leading zeros allowed. -/
def poolField : NumberField := ⟨10, some 3, true, 256⟩

/-- A version 4 subnet written as an address, a slash and a prefix length of at most two digits. -/
def parsePool? (text : List Char) : Option (Subnet 32) := do
  let (a, rest) ← number? poolField text
  let (b, rest) ← number? poolField (← skip? '.' rest)
  let (c, rest) ← number? poolField (← skip? '.' rest)
  let (d, rest) ← number? poolField (← skip? '.' rest)
  match number? ⟨10, some 2, true, 33⟩ (← skip? '/' rest) with
  | some (length, []) => make? (BitVec.ofNat 32 (((a * 256 + b) * 256 + c) * 256 + d)) length
  | _ => none

def toText (s : Subnet 32) : String := (Network.v4 s).toText

end Subnet

end PacketTunnel
