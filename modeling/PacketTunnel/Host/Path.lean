import PacketTunnel.Text.Blank

/-!
# Paths of files

A path is handed to the host as bytes that end at the first zero, and the host limits its length and
that of each name in it. `Path.fault?` tells why a path leads nowhere whatever files there are. What
it leads to is the matter of `FileTree`.
-/
namespace PacketTunnel

open Text

inductive PathFault where
  | zero
  | tooLong
  | directory
  /-- A name before the last one is not that of a directory. -/
  | notDirectory
  | denied
  | absent
deriving DecidableEq, Repr

def PathFault.message : PathFault → String
  | zero => "file name contained an unexpected NUL byte"
  | tooLong => "File name too long (os error 36)"
  | directory => "Is a directory (os error 21)"
  | notDirectory => "Not a directory (os error 20)"
  | denied => "Permission denied (os error 13)"
  | absent => "No such file or directory (os error 2)"

namespace Path

/-- The most bytes that a path may have. -/
def maxLength : Nat := 4095

def maxNameLength : Nat := 255

/-- Why a path leads nowhere whatever files there are, if it does not. -/
def fault? (path : List Char) : Option PathFault :=
  if holdsZero path then some .zero
  else if path.isEmpty then some .absent
  else if maxLength < byteLength path then some .tooLong
  else none

def parts (path : List Char) : List (List Char) := splitAll '/' path

def isAbsolute (path : List Char) : Bool := path.head? == some '/'

end Path

end PacketTunnel
