import PacketTunnel.Address.Endpoint
import PacketTunnel.Text.Blank

/-!
# Addresses of hosts

A host may be named by its address. The forms are wider than those of an endpoint. A version 4
address has one to four numbers, each decimal, octal after a zero, or hexadecimal after a zero and
an x; every number but the last stands for one byte, and the last one for all bytes that remain. A
version 6 address may name its scope by number, after a percent sign.
-/
namespace PacketTunnel

open Text

/-- An address of a host, and the scope in which it holds. Only addresses of version 6 have scopes.
-/
structure HostAddress where
  address : Address
  scope : UInt32
deriving DecidableEq, Repr

namespace HostAddress

def endpoint (a : HostAddress) (port : UInt16) : Endpoint :=
  match a.address with
  | .v4 bits => .v4 bits port
  | .v6 bits => .v6 bits port a.scope

/-- The base of a number as its start tells it, and the digits. -/
def radix : List Char → Nat × List Char
  | '0' :: 'x' :: digits => (16, digits)
  | '0' :: 'X' :: digits => (16, digits)
  | '0' :: digits => (8, '0' :: digits)
  | digits => (10, digits)

def number? (text : List Char) : Option Nat :=
  let (base, digits) := radix text
  if digits.isEmpty || !digits.all (isDigit base) then none else some (digitsValue base digits)

/-- The value of the numbers of an address of so many bytes. -/
def assemble? : Nat → List Nat → Option Nat
  | 0, _ => none
  | _ + 1, [] => none
  | width + 1, [last] => if last < Bytes.capacity (width + 1) then some last else none
  | width + 1, n :: rest =>
    if n < 256 then (assemble? width rest).map (Bytes.capacity width * n + ·) else none

/-- A whole text as an address of version 4, in any of its forms. -/
def parseIPv4? (text : List Char) : Option IPv4 := do
  let value ← assemble? 4 (← (splitAll '.' text).mapM number?)
  some (BitVec.ofNat 32 value)

def parseScope? (text : List Char) : Option UInt32 :=
  match Text.number? ⟨10, none, true, UInt32.size⟩ text with
  | some (n, []) => some (UInt32.ofNat n)
  | _ => none

def parseIPv6? (text : List Char) : Option HostAddress :=
  match splitFirst? '%' text with
  | none => (IPv6.parse? text).map (⟨.v6 ·, 0⟩)
  | some (address, scope) => do some ⟨.v6 (← IPv6.parse? address), ← parseScope? scope⟩

def parse? (text : List Char) : Option HostAddress :=
  match parseIPv4? text with
  | some a => some ⟨.v4 a, 0⟩
  | none => parseIPv6? text

end HostAddress

end PacketTunnel
