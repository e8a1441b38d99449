import PacketTunnel.Status.Format

/-!
# Status files

A snapshot is written to a temporary file beside the status file, which is then renamed. The
temporary file has the status file's name with another extension. Writing proceeds in pieces, so
that it may be seen, or end, after any part of the text; renaming happens at once.
-/
namespace PacketTunnel

abbrev Files := String → Option (List Char)

inductive FileOperation where
  /-- Empty a file, or make it, and fill it with a text. -/
  | write (path : String) (text : List Char)
  | rename (source target : String)
deriving DecidableEq, Repr

namespace Files

def put (files : Files) (path : String) (content : Option (List Char)) : Files :=
  fun p => if p = path then content else files p

end Files

namespace FileOperation

def perform (files : Files) : FileOperation → Files
  | write path text => files.put path (some text)
  | rename source target =>
    match files source with
    | none => files
    | some content => (files.put source none).put target (some content)

/-- The files while an operation is under way, or when it has stopped early. -/
def during (files : Files) : FileOperation → List Files
  | write path text =>
    files :: (List.range (text.length + 1)).map fun n => files.put path (some (text.take n))
  | rename _ _ => [files]

/-- The files at every moment of a list of operations, and after any of them has stopped early. -/
def moments (files : Files) : List FileOperation → List Files
  | [] => [files]
  | op :: rest => op.during files ++ moments (op.perform files) rest

end FileOperation

namespace StatusFile

/-- The last name of a path, reversed, with what stands before it, reversed too; slashes and single
points at the end do not count. -/
def lastName : List Char → List Char × List Char
  | '/' :: rest => lastName rest
  | '.' :: '/' :: rest => lastName rest
  | text => (text.takeWhile (· ≠ '/'), text.dropWhile (· ≠ '/'))

/-- A reversed name without its extension. A point at the very start of a name begins no extension.
-/
def stem (name : List Char) : List Char :=
  let rest := name.dropWhile (· ≠ '.')
  match rest with
  | '.' :: before => if before.isEmpty then name else before
  | _ => name

/-- The path of the temporary file: the last name gets the extension `tmp`. A path that ends in no
name stays as it is. -/
def temporaryPath (path : String) : String :=
  let (name, before) := lastName path.toList.reverse
  if name.isEmpty || name = ['.', '.'] || (name = ['.'] && before.isEmpty) then path
  else String.ofList (before.reverse ++ (stem name).reverse ++ ".tmp".toList)

/-- The operations that put a snapshot into a status file. -/
def operations (path : String) (s : Snapshot) : List FileOperation :=
  let temporary := temporaryPath path
  [.write temporary s.write.toList, .rename temporary path]

end StatusFile

end PacketTunnel
