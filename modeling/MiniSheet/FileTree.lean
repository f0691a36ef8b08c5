import MiniSheet.Location

/-!
# Trees of files

A directory is a list of named entries, in whatever order it enumerates them; an entry is a file
with its bytes or again a directory.
-/

namespace MiniSheet

/-- A file or a directory. -/
inductive FileTree where
  /-- a file and its bytes -/
  | file (bytes : ByteArray)
  /-- a directory and its entries -/
  | directory (entries : List (Text × FileTree))

/-- Why something could not be read. -/
inductive FileFault where
  /-- there is nothing there -/
  | notFound
  /-- a file stands where a directory was expected -/
  | notDirectory
  /-- the bytes of a file are no text -/
  | notText
  deriving Repr, DecidableEq

/-- The fault in words. -/
def FileFault.message : FileFault → String
  | notFound => "No such file or directory (os error 2)"
  | notDirectory => "Not a directory (os error 20)"
  | notText => "stream did not contain valid UTF-8"

namespace FileTree

/-- A file, and where it lies. -/
structure File where
  /-- where it lies -/
  location : Location
  /-- its bytes -/
  bytes : ByteArray

/-- The text of a file. -/
def File.text? (file : File) : Option Text := (String.fromUTF8? file.bytes).map String.toList

/-- The entry of a directory with the given name. -/
def named? (name : Text) (entries : List (Text × FileTree)) : Option FileTree :=
  (entries.find? fun entry => entry.1 == name).map Prod.snd

/-- Follow names down a tree. -/
def descend (tree : FileTree) : List Text → Except FileFault FileTree
  | [] => .ok tree
  | name :: names =>
    match tree with
    | .file _ => .error .notDirectory
    | .directory entries =>
      match named? name entries with
      | none => .error .notFound
      | some entry => entry.descend names

mutual

/-- The files of a tree that lies at the given location. -/
def files (location : Location) : FileTree → List File
  | .file bytes => [⟨location, bytes⟩]
  | .directory entries => filesOfEntries location entries

/-- The files of the entries of a directory that lies at the given location. -/
def filesOfEntries (location : Location) : List (Text × FileTree) → List File
  | [] => []
  | (name, tree) :: entries => files (location.child name) tree ++ filesOfEntries location entries

end

/-- The files below a directory that lies at the given location. The root of all paths is the tree
itself; a relative location leads nowhere. -/
def list (tree : FileTree) : Location → Except FileFault (List File)
  | .relative _ _ => .error .notFound
  | .absolute names =>
    match tree.descend names with
    | .error fault => .error fault
    | .ok (.file _) => .error .notDirectory
    | .ok (.directory entries) => .ok (filesOfEntries (.absolute names) entries)

/-! ## Building a tree -/

/-- The tree with a file or directory added below the given names. Missing directories are made, and
a file in the way gives way. -/
def add (tree new : FileTree) : List Text → FileTree
  | [] => new
  | name :: names =>
    let entries :=
      match tree with
      | .file _ => []
      | .directory entries => entries
    let entry := ((named? name entries).getD (.directory [])).add new names
    .directory ((entries.filter fun other => other.1 != name) ++ [(name, entry)])

end FileTree

end MiniSheet
