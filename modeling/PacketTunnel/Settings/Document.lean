import PacketTunnel.Failure
import PacketTunnel.Host.Path
import PacketTunnel.Settings.Basic
import PacketTunnel.Text.Blank

/-!
# Settings documents

A settings file is a TOML document that has a line `key = value` for each setting. Values are
strings in any of the four kinds of quotes, integers, truth values, and arrays of strings. Comments
and empty lines are allowed, a key may be quoted and must not be given twice. Any other construct of
TOML has no setting that it could stand for, so a document that uses one is refused like one that is
malformed.
-/
namespace PacketTunnel

open Text

inductive SettingValue where
  | text (value : String)
  | number (value : Int)
  | flag (value : Bool)
  | texts (values : List String)
deriving DecidableEq, Repr

namespace SettingsDocument

/-- The character around literal strings. -/
def apostrophe : Char := Char.ofNat 0x27

def isGap (c : Char) : Bool := c == ' ' || c == '\t'

/-- Whether a character may stand in comments and strings: any but control characters, tabs
excepted. -/
def isPlain (c : Char) : Bool := c == '\t' || (0x20 ≤ c.toNat && c.toNat != 0x7f)

/-- What follows a line end at the start of a text. -/
def lineEnd? : List Char → Option (List Char)
  | '\n' :: rest => some rest
  | '\r' :: '\n' :: rest => some rest
  | _ => none

def skipGaps (text : List Char) : List Char := text.dropWhile isGap

def skipComment : List Char → List Char
  | '#' :: rest => rest.dropWhile isPlain
  | text => text

/-- What follows the end of a line that holds nothing more than blanks and a comment. -/
def finishLine? (text : List Char) : Option (List Char) :=
  match skipComment (skipGaps text) with
  | [] => some []
  | rest => lineEnd? rest

/-- The text without blanks, line ends and comments at its start. -/
def skipFiller : Nat → List Char → List Char
  | 0, text => text
  | fuel + 1, text =>
    let rest := skipComment (skipGaps text)
    match lineEnd? rest with
    | some rest => skipFiller fuel rest
    | none => rest

/-- The character that a code stands for: half a character does not count. -/
def scalar? (code : Nat) : Option Char :=
  if code < 0xd800 || (0xe000 ≤ code && code < 0x110000) then some (Char.ofNat code) else none

def codeEscape? (count : Nat) (text : List Char) : Option (Char × List Char) :=
  let digits := text.take count
  if digits.length = count && digits.all (isDigit 16) then
    (scalar? (digitsValue 16 digits)).map fun c => (c, text.drop count)
  else none

def escape? : List Char → Option (Char × List Char)
  | [] => none
  | c :: rest =>
    if c = 'u' then codeEscape? 4 rest
    else if c = 'U' then codeEscape? 8 rest
    else if c = '"' ∨ c = '\\' then some (c, rest)
    else if c = 'b' then some (Char.ofNat 8, rest)
    else if c = 't' then some ('\t', rest)
    else if c = 'n' then some ('\n', rest)
    else if c = 'f' then some (Char.ofNat 12, rest)
    else if c = 'r' then some ('\r', rest)
    else none

/-- The rest of a string with escapes on one line, and what follows its closing quote. -/
def basic? : Nat → List Char → Option (List Char × List Char)
  | 0, _ => none
  | _ + 1, [] => none
  | fuel + 1, c :: rest =>
    if c = '"' then some ([], rest)
    else do
      let (d, rest) ← if c = '\\' then escape? rest else if isPlain c then some (c, rest) else none
      let (cs, rest) ← basic? fuel rest
      some (d :: cs, rest)

def literal? : List Char → Option (List Char × List Char)
  | [] => none
  | c :: rest =>
    if c = apostrophe then some ([], rest)
    else if isPlain c then (literal? rest).map fun (cs, rest) => (c :: cs, rest)
    else none

/-- Three quotes end a string over several lines; up to two more in front of them belong to the
string. -/
def closing? (quote : Char) (text : List Char) : Option (List Char × List Char) :=
  let run := (text.takeWhile (· = quote)).length
  if run < 3 then none
  else some (List.replicate (min (run - 3) 2) quote, text.drop (min run 5))

/-- What follows a line end that is escaped by a backslash before it: the next character that is no
blank and no line end. -/
def joinLines? (text : List Char) : Option (List Char) :=
  let rec skip : Nat → List Char → List Char
    | 0, text => text
    | fuel + 1, text =>
      match lineEnd? (skipGaps text) with
      | some rest => skip fuel rest
      | none => skipGaps text
  (lineEnd? (skipGaps text)).map fun rest => skip rest.length rest

/-- The rest of a string over several lines, and what follows its closing quotes. Line ends become
single characters. Only strings in double quotes have escapes. -/
def multiLine? (quote : Char) : Nat → List Char → Option (List Char × List Char)
  | 0, _ => none
  | _ + 1, [] => none
  | fuel + 1, c :: rest =>
    match closing? quote (c :: rest), lineEnd? (c :: rest) with
    | some done, _ => some done
    | none, some rest => (multiLine? quote fuel rest).map fun (cs, rest) => ('\n' :: cs, rest)
    | none, none =>
      if c = '\\' ∧ quote = '"' then
        match joinLines? rest with
        | some rest => multiLine? quote fuel rest
        | none => do
          let (d, rest) ← escape? rest
          let (cs, rest) ← multiLine? quote fuel rest
          some (d :: cs, rest)
      else if isPlain c then (multiLine? quote fuel rest).map fun (cs, rest) => (c :: cs, rest)
      else none

/-- The string at the start of a text, and what follows. A line end right after three opening quotes
does not count. The fuel suffices if it exceeds the length of the text. -/
def string? (fuel : Nat) (text : List Char) : Option (List Char × List Char) :=
  match text with
  | [] => none
  | quote :: rest =>
    if quote ≠ '"' ∧ quote ≠ apostrophe then none
    else if rest.take 2 = [quote, quote] then
      multiLine? quote fuel ((lineEnd? (rest.drop 2)).getD (rest.drop 2))
    else if quote = '"' then basic? fuel rest
    else literal? rest

/-- Digits of a base with single underscores between them, as a number. -/
def grouped? (base : Nat) (text : List Char) : Option Nat :=
  let rec go : Nat → List Char → Option Nat
    | n, [] => some n
    | n, '_' :: c :: rest => (digitValue? base c).bind fun d => go (base * n + d) rest
    | n, c :: rest => (digitValue? base c).bind fun d => go (base * n + d) rest
  match text with
  | [] => none
  | c :: rest => (digitValue? base c).bind fun d => go d rest

/-- A whole text as an integer: in decimal with a sign that may be missing and without leading
zeros, or in another base after its sign-less mark. -/
def integer? : List Char → Option Int
  | '0' :: 'x' :: digits => (grouped? 16 digits).map Int.ofNat
  | '0' :: 'o' :: digits => (grouped? 8 digits).map Int.ofNat
  | '0' :: 'b' :: digits => (grouped? 2 digits).map Int.ofNat
  | text =>
    let (negative, digits) := match text with
      | '-' :: rest => (true, rest)
      | '+' :: rest => (false, rest)
      | rest => (false, rest)
    if digits.head? = some '0' ∧ 1 < digits.length then none
    else (grouped? 10 digits).map fun n => if negative then -Int.ofNat n else Int.ofNat n

def isWordChar (c : Char) : Bool :=
  c.isAlphanum || c == '_' || c == '+' || c == '-' || c == '.' || c == ':'

/-- The number or word at the start of a text as a value, and what follows. Integers have 64 bits.
-/
def word? (text : List Char) : Option (SettingValue × List Char) :=
  let word := text.takeWhile isWordChar
  let rest := text.dropWhile isWordChar
  if word = "true".toList then some (.flag true, rest)
  else if word = "false".toList then some (.flag false, rest)
  else (integer? word).bind fun n =>
    if -9223372036854775808 ≤ n ∧ n ≤ 9223372036854775807 then some (.number n, rest) else none

/-- The strings of an array up to its end, and what follows; a comma may stand after the last. The
fuel suffices if it exceeds the length of the text. -/
def items? : Nat → List Char → Option (List String × List Char)
  | 0, _ => none
  | fuel + 1, text =>
    match skipFiller fuel text with
    | ']' :: rest => some ([], rest)
    | rest => do
      let (s, rest) ← string? (fuel + 1) rest
      match skipFiller fuel rest with
      | ',' :: rest => do
        let (ss, rest) ← items? fuel rest
        some (String.ofList s :: ss, rest)
      | ']' :: rest => some ([String.ofList s], rest)
      | _ => none

def value? (text : List Char) : Option (SettingValue × List Char) :=
  match text with
  | '[' :: rest => (items? (text.length + 1) rest).map fun (ss, rest) => (.texts ss, rest)
  | _ =>
    match string? (text.length + 1) text with
    | some (s, rest) => some (.text (String.ofList s), rest)
    | none => word? text

def isKeyChar (c : Char) : Bool := c.isAlphanum || c == '_' || c == '-'

def key? (text : List Char) : Option (List Char × List Char) :=
  match text with
  | [] => none
  | c :: rest =>
    if c = '"' then basic? (text.length + 1) rest
    else if c = apostrophe then literal? rest
    else
      let key := text.takeWhile isKeyChar
      if key.isEmpty then none else some (key, text.dropWhile isKeyChar)

def entry? (text : List Char) : Option ((String × SettingValue) × List Char) := do
  let (key, rest) ← key? text
  let (value, rest) ← value? (skipGaps (← skip? '=' (skipGaps rest)))
  some ((String.ofList key, value), rest)

/-- The entries of a document, line by line. -/
def entries? : Nat → List Char → Option (List (String × SettingValue))
  | 0, _ => none
  | _ + 1, [] => some []
  | fuel + 1, text =>
    match finishLine? text with
    | some rest => entries? fuel rest
    | none => do
      let (entry, rest) ← entry? (skipGaps text)
      let entries ← entries? fuel (← finishLine? rest)
      some (entry :: entries)

def skipMark : List Char → List Char
  | c :: rest => if c.toNat = 0xfeff then rest else c :: rest
  | [] => []

/-- The entries of a whole text, if no key occurs twice. -/
def parse? (text : List Char) : Option (List (String × SettingValue)) :=
  let text := skipMark text
  (entries? (text.length + 1) text).bind fun entries =>
    if (entries.map Prod.fst).Nodup then some entries else none

end SettingsDocument

namespace Settings

def toUInt64? (n : Int) : Option UInt64 :=
  if 0 ≤ n ∧ n.toNat < UInt64.size then some (UInt64.ofNat n.toNat) else none

def toUInt16? (n : Int) : Option UInt16 :=
  if 0 ≤ n ∧ n.toNat < UInt16.size then some (UInt16.ofNat n.toNat) else none

/-- Settings with the setting of a key given a value, if the key is known and takes values of that
kind. -/
def set? (s : Settings) (key : String) (value : SettingValue) : Option Settings :=
  match value with
  | .text t =>
    if key = "local" then some { s with listen := some t }
    else if key = "remote" then some { s with remote := some t }
    else if key = "ipv4_addr" then some { s with ipv4Address := some t }
    else if key = "ipv6_addr" then some { s with ipv6Address := some t }
    else if key = "ifname" then some { s with interface := some t }
    else if key = "pidfile" then some { s with pidFile := some t }
    else if key = "encryption_key" then some { s with encryptionKey := some t }
    else if key = "address_pool" then some { s with addressPool := some t }
    else if key = "status_file" then some { s with statusFile := some t }
    else none
  | .number n =>
    if key = "mtu" then (toUInt16? n).map fun n => { s with mtu := some n }
    else if key = "keepalive" then (toUInt64? n).map fun n => { s with keepalive := some n }
    else if key = "reconnect_timeout" then
      (toUInt64? n).map fun n => { s with reconnectTimeout := some n }
    else if key = "session_expiry" then (toUInt64? n).map fun n =>
      { s with sessionExpiry := some n }
    else none
  | .flag b =>
    if key = "no_encryption" then some { s with noEncryption := b }
    else if key = "relay" then some { s with relay := b }
    else if key = "implicit_login" then some { s with implicitLogin := some b }
    else if key = "route_advertise" then some { s with advertiseRoutes := some b }
    else none
  | .texts ts => if key = "routes" then some { s with routes := ts } else none

def ofDocument (text : String) : Except Failure Settings :=
  match SettingsDocument.parse? text.toList with
  | none => .error .document
  | some entries =>
    match entries.foldlM (fun s e => s.set? e.1 e.2) unset with
    | some s => .ok s
    | none => .error .document

def ofFile (name : String) (content : ByteArray) : Except Failure Settings :=
  match String.fromUTF8? content with
  | some text => ofDocument text
  | none => .error (.configuration (.unreadable name "stream did not contain valid UTF-8"))

def ofRead (name : String) : Except PathFault ByteArray → Except Failure Settings
  | .ok content => ofFile name content
  | .error fault => .error (.configuration (.unreadable name fault.message))

end Settings

end PacketTunnel
