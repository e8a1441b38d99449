import PacketTunnel.Text.Numeral

/-!
# JSON values

A value as its text states it. Numbers keep their characters, since what they mean depends on who
asks. A string is missing where its escapes do not spell Unicode characters; such a string may stand
only where nobody looks at it. Members of objects keep their order, and keys may repeat.
-/
namespace PacketTunnel

inductive JsonValue where
  | null
  | bool (value : Bool)
  | number (text : List Char)
  | string (text : Option (List Char))
  | array (items : List JsonValue)
  | object (members : List (Option (List Char) × JsonValue))

namespace JsonValue

def ofString (s : String) : JsonValue := string (some s.toList)

def ofNat (n : Nat) : JsonValue := number (Text.decimal n)

def ofOption {α : Type} (item : α → JsonValue) : Option α → JsonValue
  | none => null
  | some a => item a

def field (key : String) (value : JsonValue) : Option (List Char) × JsonValue :=
  (some key.toList, value)

def toString? : JsonValue → Option String
  | string (some text) => some (String.ofList text)
  | _ => none

def toBool? : JsonValue → Option Bool
  | bool b => some b
  | _ => none

/-- The number that a value is, if it is written with digits alone and below 2^64. -/
def toUInt64? : JsonValue → Option UInt64
  | number text =>
    if text.all (Text.isDigit 10) && !text.isEmpty &&
      decide (Text.digitsValue 10 text < UInt64.size) then
      some (UInt64.ofNat (Text.digitsValue 10 text))
    else none
  | _ => none

end JsonValue

end PacketTunnel
