import PacketTunnel.Address.Basic
import PacketTunnel.Text.Numeral

/-!
# Addresses in text

A version 4 address is four decimal numbers without leading zeros. A version 6 address is eight
hexadecimal groups, in which one run of zero groups may be left out, and whose last two groups may
be written as a version 4 address. Printing leaves out the longest run of at least two zero groups,
the first of several, and writes the block of mapped addresses with its version 4 part. Reading
takes an address from the start of a text, so that ports and prefixes can follow.
-/
namespace PacketTunnel

open Text

namespace IPv4

def toChars (a : IPv4) : List Char := ['.'].intercalate (a.toBytes.map fun b => decimal b.toNat)

/-- One number of an address: at most three digits, no leading zero, below 256. -/
def numberField : NumberField := ⟨10, some 3, false, 256⟩

/-- The address at the start of a text, and what follows. -/
def read? (text : List Char) : Option (IPv4 × List Char) := do
  let (a, rest) ← number? numberField text
  let (b, rest) ← number? numberField (← skip? '.' rest)
  let (c, rest) ← number? numberField (← skip? '.' rest)
  let (d, rest) ← number? numberField (← skip? '.' rest)
  some (BitVec.ofNat 32 (((a * 256 + b) * 256 + c) * 256 + d), rest)

def parse? (text : List Char) : Option IPv4 :=
  match read? text with
  | some (a, []) => some a
  | _ => none

def toText (a : IPv4) : String := String.ofList a.toChars

end IPv4

namespace IPv6

structure ZeroRun where
  start : Nat
  length : Nat
deriving DecidableEq, Repr

/-- The longest run of zero groups, the first of several; its length may be zero. -/
def longestRun (gs : List Nat) : ZeroRun :=
  let step (s : ZeroRun × ZeroRun) (g : Nat × Nat) : ZeroRun × ZeroRun :=
    if g.1 = 0 then
      let run : ZeroRun := ⟨if s.2.length = 0 then g.2 else s.2.start, s.2.length + 1⟩
      (if s.1.length < run.length then run else s.1, run)
    else (s.1, ⟨0, 0⟩)
  (gs.zipIdx.foldl step (⟨0, 0⟩, ⟨0, 0⟩)).1

def groupChars (gs : List Nat) : List Char := [':'].intercalate (gs.map hexadecimal)

def mapped? (a : IPv6) : Option IPv4 :=
  if a.toNat >>> 32 = 0xffff then some (BitVec.ofNat 32 a.toNat) else none

/-- An address in its shortest customary form. -/
def toChars (a : IPv6) : List Char :=
  match mapped? a with
  | some low => "::ffff:".toList ++ IPv4.toChars low
  | none =>
    let run := longestRun a.groups
    if 1 < run.length then
      groupChars (a.groups.take run.start) ++ ':' :: ':' ::
        groupChars (a.groups.drop (run.start + run.length))
    else groupChars a.groups

/-- One group of an address: at most four digits, leading zeros allowed. -/
def groupField : NumberField := ⟨16, some 4, true, 65536⟩

/-- What follows the separator before an entry; the first entry has none. -/
def separated? (first : Bool) (text : List Char) : Option (List Char) :=
  if first then some text else skip? ':' text

/-- At most `limit` groups from the start of a text, whether they ended with a version 4 address,
and what follows. A version 4 address stands for two groups. -/
def readGroups : Nat → Bool → List Char → List Nat × Bool × List Char
  | 0, _, text => ([], false, text)
  | limit + 1, first, text =>
    match if 0 < limit then (separated? first text).bind IPv4.read? else none with
    | some (low, rest) => ([low.toNat / 65536, low.toNat % 65536], true, rest)
    | none =>
      match (separated? first text).bind (number? groupField) with
      | some (g, rest) =>
        let (gs, ended, rest) := readGroups limit false rest
        (g :: gs, ended, rest)
      | none => ([], false, text)

def read? (text : List Char) : Option (IPv6 × List Char) :=
  let (head, ended, rest) := readGroups 8 true text
  if head.length = 8 then some (ofGroups head, rest)
  else if ended then none
  else match rest with
    | ':' :: ':' :: rest =>
      let (tail, _, rest) := readGroups (7 - head.length) true rest
      some (ofGroups (head ++ List.replicate (8 - head.length - tail.length) 0 ++ tail), rest)
    | _ => none

def parse? (text : List Char) : Option IPv6 :=
  match read? text with
  | some (a, []) => some a
  | _ => none

def toText (a : IPv6) : String := String.ofList a.toChars

end IPv6

namespace Address

def toChars : Address → List Char
  | v4 a => a.toChars
  | v6 a => a.toChars

def parse? (text : List Char) : Option Address :=
  match IPv4.parse? text with
  | some a => some (v4 a)
  | none => (IPv6.parse? text).map v6

def toText (a : Address) : String := String.ofList a.toChars

end Address

end PacketTunnel
