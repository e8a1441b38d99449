import PacketTunnel.Host.Path

/-!
# Files of a host

The files of a host form a tree. A path is followed from the root, or from a working directory of
which nothing is known: no name leads on from there, and the directory above it is taken to be no
other. The first name that leads nowhere decides what is wrong with a path, so that later ones are
not looked at.
-/
namespace PacketTunnel

open Text

/-- A file with its content, or a directory with what its names stand for. -/
inductive FileTree where
  | file (content : ByteArray)
  | directory (entries : List (String × FileTree))

namespace FileTree

def empty : FileTree := directory []

/-- Follow the parts of a path from a place, to which the given directories led, the nearest first.
An empty part and a single point stay at the place, which must be a directory; two points go back,
and stay at the root. -/
def follow : List FileTree → FileTree → List (List Char) → Except PathFault FileTree
  | _, place, [] => .ok place
  | _, file _, _ :: _ => .error .notDirectory
  | trail, directory entries, part :: rest =>
    if part = [] ∨ part = ['.'] then follow trail (directory entries) rest
    else if part = ['.', '.'] then
      match trail with
      | [] => follow [] (directory entries) rest
      | above :: trail => follow trail above rest
    else if Path.maxNameLength < byteLength part then .error .tooLong
    else match entries.find? fun entry => entry.1.toList = part with
      | none => .error .absent
      | some entry => follow (directory entries :: trail) entry.2 rest

def read (root : FileTree) (path : String) : Except PathFault ByteArray :=
  match Path.fault? path.toList with
  | some fault => .error fault
  | none =>
    let start := if Path.isAbsolute path.toList then root else empty
    match follow [] start (Path.parts path.toList) with
    | .error fault => .error fault
    | .ok (directory _) => .error .directory
    | .ok (file content) => .ok content

end FileTree

end PacketTunnel
