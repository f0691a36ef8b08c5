import MiniSheet.FileTree
import MiniSheet.Package.Basic

/-!
# Loading a package

Every file below the root of a package with the right extension is a stylesheet. Files are
registered in the order of their paths, name by name, whatever order the directories list them in.
-/

namespace MiniSheet

/-- Why a package could not be loaded. -/
structure LoadError where
  /-- the file or directory that could not be read -/
  location : Location
  /-- why not -/
  fault : FileFault
  deriving Repr, DecidableEq

/-- The error in words. -/
def LoadError.message (e : LoadError) : String := s!"{e.location.display}: {e.fault.message}"

namespace Package

/-- Whether a name comes before another: names are compared character by character. -/
def nameBefore (s t : Text) : Bool := s.lex t fun c d => decide (c.toNat < d.toNat)

/-- Whether a file comes no later than another: paths are compared name by name. -/
def fileOrder (a b : FileTree.File) : Bool := !b.location.names.lex a.location.names nameBefore

/-- The stylesheet files of a package, in the order they are registered. -/
def stylesheetFiles (p : Package) (tree : FileTree) : Except LoadError (List FileTree.File) :=
  match tree.list p.root with
  | .error fault => .error ⟨p.root, fault⟩
  | .ok files =>
    .ok ((files.filter fun file =>
      file.location.extension? == some p.options.extension).mergeSort fileOrder)

/-- Register files one after the other, up to the first that is no text. -/
def loadFiles (p : Package) : List FileTree.File → Package × Except LoadError Unit
  | [] => (p, .ok ())
  | file :: files =>
    match file.text? with
    | none => (p, .error ⟨file.location, .notText⟩)
    | some source => (p.insertAt file.location (some source)).loadFiles files

/-- Register the stylesheet files below the root of a package, and say how many there are. -/
def load (p : Package) (tree : FileTree) : Logged (Package × Except LoadError Nat) :=
  match p.stylesheetFiles tree with
  | .error e => pure (p, .error e)
  | .ok files =>
    match p.loadFiles files with
    | (p, .error e) => pure (p, .error e)
    | (p, .ok ()) => do
      Logged.record .info s!"PACKAGE: loaded {files.length} stylesheet(s) from {p.root.display}"
      return (p, .ok files.length)

end Package

end MiniSheet
