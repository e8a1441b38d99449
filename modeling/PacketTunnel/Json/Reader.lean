import PacketTunnel.Json.Basic

/-!
# Reading JSON

A reader for one value that makes up a whole text. Blanks are the space, the tab and the two line
ends. A string may hold any character but control characters, and the usual escapes; an escape for
half of a character must be followed by its other half for the string to be there.
-/
namespace PacketTunnel

open Text

namespace JsonValue

/-- The blanks between the parts of a JSON text. -/
def isSpace (c : Char) : Bool := c == ' ' || c == '\n' || c == '\t' || c == '\r'

def skipSpace (text : List Char) : List Char := text.dropWhile isSpace

/-- A run of at least one digit, and what follows. -/
def digits? (text : List Char) : Option (List Char × List Char) :=
  let run := text.takeWhile (isDigit 10)
  if run.isEmpty then none else some (run, text.dropWhile (isDigit 10))

/-- The whole part of a number, without leading zeros. -/
def wholePart? : List Char → Option (List Char × List Char)
  | '0' :: rest => if rest.head?.any (isDigit 10) then none else some (['0'], rest)
  | text => digits? text

def fraction? : List Char → Option (List Char × List Char)
  | '.' :: rest => (digits? rest).map fun (run, rest) => ('.' :: run, rest)
  | text => some ([], text)

def sign : List Char → List Char × List Char
  | '+' :: rest => (['+'], rest)
  | '-' :: rest => (['-'], rest)
  | text => ([], text)

def exponent? : List Char → Option (List Char × List Char)
  | c :: rest =>
    if c = 'e' ∨ c = 'E' then
      let (s, rest) := sign rest
      (digits? rest).map fun (run, rest) => (c :: s ++ run, rest)
    else some ([], c :: rest)
  | [] => some ([], [])

/-- The number at the start of a text, in its own characters, and what follows. -/
def number? (text : List Char) : Option (List Char × List Char) := do
  let (minus, rest) := match text with
    | '-' :: rest => (['-'], rest)
    | other => ([], other)
  let (whole, rest) ← wholePart? rest
  let (fraction, rest) ← fraction? rest
  let (exponent, rest) ← exponent? rest
  some (minus ++ whole ++ fraction ++ exponent, rest)

/-- A piece of a string: a character, or a code of sixteen bits from an escape. -/
inductive Piece where
  | char (c : Char)
  | unit (code : Nat)
deriving DecidableEq, Repr

def shortEscape? (c : Char) : Option Char :=
  if c = '"' ∨ c = '\\' ∨ c = '/' then some c
  else if c = 'b' then some (Char.ofNat 8)
  else if c = 'f' then some (Char.ofNat 12)
  else if c = 'n' then some '\n'
  else if c = 'r' then some '\r'
  else if c = 't' then some '\t'
  else none

def fourDigits? (a b c d : Char) : Option Nat :=
  if [a, b, c, d].all (isDigit 16) then some (digitsValue 16 [a, b, c, d]) else none

/-- The pieces of a string up to its closing quote, and what follows. -/
def pieces? : List Char → Option (List Piece × List Char)
  | [] => none
  | '"' :: rest => some ([], rest)
  | '\\' :: 'u' :: a :: b :: c :: d :: rest => do
    let code ← fourDigits? a b c d
    let (pieces, rest) ← pieces? rest
    some (.unit code :: pieces, rest)
  | '\\' :: c :: rest => do
    let c ← shortEscape? c
    let (pieces, rest) ← pieces? rest
    some (.char c :: pieces, rest)
  | c :: rest =>
    if c = '\\' ∨ c.toNat < 0x20 then none
    else (pieces? rest).map fun (pieces, rest) => (.char c :: pieces, rest)

/-- Whether a code is the first half of a character. -/
def isFirstHalf (code : Nat) : Bool := 0xd800 ≤ code && code < 0xdc00

def isSecondHalf (code : Nat) : Bool := 0xdc00 ≤ code && code < 0xe000

def join (first second : Nat) : Char :=
  Char.ofNat (0x10000 + (first - 0xd800) * 0x400 + (second - 0xdc00))

/-- The characters that pieces spell, unless a half stands alone. -/
def assemble? : List Piece → Option (List Char)
  | [] => some []
  | .char c :: rest => (assemble? rest).map (c :: ·)
  | .unit first :: .unit second :: rest =>
    if isFirstHalf first then
      if isSecondHalf second then (assemble? rest).map (join first second :: ·) else none
    else if isSecondHalf first then none
    else (assemble? (.unit second :: rest)).map (Char.ofNat first :: ·)
  | .unit code :: rest =>
    if isFirstHalf code || isSecondHalf code then none
    else (assemble? rest).map (Char.ofNat code :: ·)

/-- The string after an opening quote, and what follows its closing quote. -/
def string? (text : List Char) : Option (Option (List Char) × List Char) :=
  (pieces? text).map fun (pieces, rest) => (assemble? pieces, rest)

def skipWord? (word text : List Char) : Option (List Char) :=
  if text.take word.length = word then some (text.drop word.length) else none

mutual

/-- The value at the start of a text, and what follows; `fuel` bounds the number of steps. -/
def readValue : Nat → List Char → Option (JsonValue × List Char)
  | 0, _ => none
  | fuel + 1, text =>
    match skipSpace text with
    | '[' :: rest =>
      match skipSpace rest with
      | ']' :: rest => some (array [], rest)
      | rest => (readItems fuel rest).map fun (items, rest) => (array items, rest)
    | '"' :: rest => (string? rest).map fun (s, rest) => (string s, rest)
    | '\x7b' :: rest =>
      match skipSpace rest with
      | '\x7d' :: rest => some (object [], rest)
      | rest => (readMembers fuel rest).map fun (members, rest) => (object members, rest)
    | 'n' :: rest => (skipWord? "ull".toList rest).map fun rest => (null, rest)
    | 't' :: rest => (skipWord? "rue".toList rest).map fun rest => (bool true, rest)
    | 'f' :: rest => (skipWord? "alse".toList rest).map fun rest => (bool false, rest)
    | rest => (number? rest).map fun (text, rest) => (number text, rest)

/-- Items up to the end of an array, and what follows. -/
def readItems : Nat → List Char → Option (List JsonValue × List Char)
  | 0, _ => none
  | fuel + 1, text => do
    let (item, rest) ← readValue fuel text
    match skipSpace rest with
    | ',' :: rest => do
      let (items, rest) ← readItems fuel rest
      some (item :: items, rest)
    | ']' :: rest => some ([item], rest)
    | _ => none

def readMembers : Nat → List Char → Option (List (Option (List Char) × JsonValue) × List Char)
  | 0, _ => none
  | fuel + 1, text => do
    let (key, rest) ← string? (← skip? '"' (skipSpace text))
    let (value, rest) ← readValue fuel (← skip? ':' (skipSpace rest))
    match skipSpace rest with
    | ',' :: rest => do
      let (members, rest) ← readMembers fuel rest
      some ((key, value) :: members, rest)
    | '\x7d' :: rest => some ([(key, value)], rest)
    | _ => none

end

/-- A whole text as a value. The fuel suffices: two steps go to a bracket that opens, which in the
text of a value has one that closes, and one step goes to each comma. -/
def parse? (text : List Char) : Option JsonValue :=
  match readValue (text.length + 1) text with
  | some (value, rest) => if (skipSpace rest).isEmpty then some value else none
  | none => none

end JsonValue

end PacketTunnel
