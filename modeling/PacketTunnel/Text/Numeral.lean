/-!
# Numerals

Numbers in addresses and settings are unsigned. `decimal` and `hexadecimal` write them without
leading zeros. `number?` reads the digits at the start of a text under the rules of an address
field: a limit on the number of digits, a limit on the value, and leading zeros allowed or not.
`unsigned?` reads a whole text as a number and allows a plus sign and any number of leading zeros.
-/
namespace PacketTunnel.Text

def decimal (n : Nat) : List Char := Nat.toDigits 10 n

def hexadecimal (n : Nat) : List Char := Nat.toDigits 16 n

/-- The value of a digit, in either case, if it is one in the given base. -/
def digitValue? (base : Nat) (c : Char) : Option Nat :=
  let value :=
    if '0' ≤ c ∧ c ≤ '9' then c.toNat - 48
    else if 'a' ≤ c ∧ c ≤ 'f' then c.toNat - 87
    else if 'A' ≤ c ∧ c ≤ 'F' then c.toNat - 55
    else base
  if value < base then some value else none

def isDigit (base : Nat) (c : Char) : Bool := (digitValue? base c).isSome

def digitsValue (base : Nat) (digits : List Char) : Nat :=
  digits.foldl (fun n c => base * n + (digitValue? base c).getD 0) 0

/-- How a number field of an address is read. -/
structure NumberField where
  base : Nat
  /-- The greatest number of digits, if there is one. -/
  maxDigits : Option Nat
  /-- Whether more than one digit may start with zero. -/
  leadingZeros : Bool
  /-- The first value that is too great. -/
  bound : Nat

/-- The number at the start of a text, and what follows. -/
def number? (field : NumberField) (text : List Char) : Option (Nat × List Char) :=
  let digits := text.takeWhile (isDigit field.base)
  let value := digitsValue field.base digits
  if digits.isEmpty then none
  else if field.maxDigits.any (· < digits.length) then none
  else if !field.leadingZeros && digits.head? == some '0' && 1 < digits.length then none
  else if field.bound ≤ value then none
  else some (value, text.dropWhile (isDigit field.base))

def skip? (c : Char) : List Char → Option (List Char)
  | d :: rest => if d = c then some rest else none
  | [] => none

/-- A whole text as a number below the bound. -/
def unsigned? (bound : Nat) (text : List Char) : Option Nat :=
  let digits := match text with
    | '+' :: rest => rest
    | other => other
  if digits.isEmpty || !digits.all (isDigit 10) then none
  else
    let value := digitsValue 10 digits
    if value < bound then some value else none

end PacketTunnel.Text
