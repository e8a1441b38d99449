/-!
# Blanks and separators

Text is handled as a list of characters. Blank characters are those of the Unicode property
White_Space. `trim` removes them at both ends, and `splitFirst?`, `splitLast?` and `splitAll` cut a
text at a separator. Where a text goes to the host, `byteLength` and `holdsZero` tell what the host
will make of it.
-/
namespace PacketTunnel.Text

/-- The characters with the Unicode property White_Space. -/
def isBlank (c : Char) : Bool :=
  (9 ≤ c.toNat && c.toNat ≤ 13) || c.toNat == 0x20 || c.toNat == 0x85 || c.toNat == 0xa0 ||
    c.toNat == 0x1680 || (0x2000 ≤ c.toNat && c.toNat ≤ 0x200a) || c.toNat == 0x2028 ||
    c.toNat == 0x2029 || c.toNat == 0x202f || c.toNat == 0x205f || c.toNat == 0x3000

def trimLeft (text : List Char) : List Char := text.dropWhile isBlank

def trim (text : List Char) : List Char := (trimLeft (trimLeft text).reverse).reverse

/-- What stands before and after the first separator. -/
def splitFirst? (separator : Char) : List Char → Option (List Char × List Char)
  | [] => none
  | c :: rest =>
    if c = separator then some ([], rest)
    else (splitFirst? separator rest).map fun parts => (c :: parts.1, parts.2)

def splitLast? (separator : Char) (text : List Char) : Option (List Char × List Char) :=
  (splitFirst? separator text.reverse).map fun parts => (parts.2.reverse, parts.1.reverse)

def splitAll (separator : Char) : List Char → List (List Char)
  | [] => [[]]
  | c :: rest =>
    if c = separator then [] :: splitAll separator rest
    else match splitAll separator rest with
      | part :: others => (c :: part) :: others
      | [] => [[c]]

/-- The length of a text in UTF-8. -/
def byteLength (text : List Char) : Nat := text.foldl (fun n c => n + c.utf8Size) 0

/-- Whether a text holds a zero character, at which the host would take it to end. -/
def holdsZero (text : List Char) : Bool := text.contains (Char.ofNat 0)

end PacketTunnel.Text
