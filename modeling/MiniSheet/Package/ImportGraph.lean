import MiniSheet.Package.Sheet

/-!
# The import graph

Imports may not lead back to where they started. The graph is searched depth first, from the
stylesheets that nothing imports and then from all others, so that a cycle is found even if there is
no way into it. The search carries the path it is on and the stylesheets it is done with; coming to
a stylesheet of the path closes a cycle.
-/

namespace MiniSheet

/-- Imports that lead back to where they started. -/
structure ImportCycle where
  /-- the stylesheet that was reached twice -/
  start : Location
  /-- the stylesheets of the cycle, in order -/
  chain : List Location
  deriving Repr, DecidableEq

namespace ImportCycle

/-- The cycle in words. -/
def message (cycle : ImportCycle) : String :=
  s!"cyclic @import of {cycle.start.display}: " ++
    String.intercalate " -> " ((cycle.chain ++ [cycle.start]).map Location.display)

/-- The cycle that is closed by coming to a location of the path, which is given from its end: what
the path holds from that location on. -/
def closing (path : List Location) (location : Location) : ImportCycle :=
  let stack := path.reverse
  ⟨location, stack.drop ((stack.findIdx? (· == location)).getD 0)⟩

end ImportCycle

namespace ImportGraph

mutual

/-- Search from a location. The path leads to it and is given from its end; the result is what the
search is done with. A location without a stylesheet leads nowhere. -/
def visit (sheets : List Sheet) (path visited : List Location) (location : Location) :
    Except ImportCycle (List Location) :=
  if visited.contains location then .ok visited
  else if _hpath : path.contains location then .error (.closing path location)
  else
    match _hfind : Sheets.find? sheets location with
    | none => .ok visited
    | some sheet => do
      let visited ← visitAll sheets (location :: path) visited
        (sheet.compiled.imports.map (·.target))
      return location :: visited
termination_by (Sheets.idle sheets path, 0)
decreasing_by
  obtain rfl := Sheets.location_of_find? _hfind
  exact Prod.Lex.left
    _ _ (Sheets.idle_cons_lt (Sheets.mem_of_find? _hfind) (Bool.eq_false_iff.2 _hpath))

/-- Search from one location after the other. -/
def visitAll (sheets : List Sheet) (path visited : List Location) :
    List Location → Except ImportCycle (List Location)
  | [] => .ok visited
  | location :: locations => do
    let visited ← visit sheets path visited location
    visitAll sheets path visited locations
termination_by locations => (Sheets.idle sheets path, locations.length + 1)

end

/-- Where the search starts: at stylesheets that nothing imports, and then anywhere. -/
def starts (sheets : List Sheet) : List Location :=
  ((sheets.filter fun sheet => sheet.importers.isEmpty) ++ sheets).map Sheet.location

/-- Look for a cycle. -/
def check (sheets : List Sheet) : Except ImportCycle Unit := do
  let _ ← visitAll sheets [] [] (starts sheets)

end ImportGraph

end MiniSheet
