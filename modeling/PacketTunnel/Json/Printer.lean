import PacketTunnel.Bytes
import PacketTunnel.Json.Basic

/-!
# Printing JSON

A value over several lines: every item and every member stands on a line of its own, two blanks
further in than what holds it, and an empty array or object is closed at once. In strings only
quotes, backslashes and control characters are escaped.
-/
namespace PacketTunnel

namespace JsonValue

def escape (c : Char) : List Char :=
  if c = '"' then ['\\', '"']
  else if c = '\\' then ['\\', '\\']
  else if c = Char.ofNat 8 then ['\\', 'b']
  else if c = Char.ofNat 12 then ['\\', 'f']
  else if c = '\n' then ['\\', 'n']
  else if c = '\r' then ['\\', 'r']
  else if c = '\t' then ['\\', 't']
  else if c.toNat < 0x20 then
    ['\\', 'u', '0', '0', Bytes.hexDigit (c.toNat / 16), Bytes.hexDigit (c.toNat % 16)]
  else [c]

def quoted (text : List Char) : List Char := '"' :: text.flatMap escape ++ ['"']

/-- A new line at the given depth. -/
def newLine (depth : Nat) : List Char := '\n' :: List.replicate (2 * depth) ' '

mutual

/-- A value whose first line starts at the given depth. -/
def print (depth : Nat) : JsonValue → List Char
  | null => "null".toList
  | bool true => "true".toList
  | bool false => "false".toList
  | number text => text
  | string text => quoted (text.getD [])
  | array [] => "[]".toList
  | array (item :: items) =>
    '[' :: newLine (depth + 1) ++ print (depth + 1) item ++ printItems (depth + 1) items ++
      newLine depth ++ [']']
  | object [] => ['\x7b', '\x7d']
  | object ((key, value) :: members) =>
    '\x7b' :: newLine (depth + 1) ++ quoted (key.getD []) ++ ':' :: ' ' ::
      print (depth + 1) value ++ printMembers (depth + 1) members ++ newLine depth ++ ['\x7d']

/-- Further items, each after a comma. -/
def printItems (depth : Nat) : List JsonValue → List Char
  | [] => []
  | item :: items => ',' :: newLine depth ++ print depth item ++ printItems depth items

def printMembers (depth : Nat) : List (Option (List Char) × JsonValue) → List Char
  | [] => []
  | (key, value) :: members =>
    ',' :: newLine depth ++ quoted (key.getD []) ++ ':' :: ' ' :: print depth value ++
      printMembers depth members

end

def toText (v : JsonValue) : String := String.ofList (print 0 v)

end JsonValue

end PacketTunnel
