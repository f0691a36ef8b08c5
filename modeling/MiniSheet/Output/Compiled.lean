import MiniSheet.Location
import MiniSheet.Output.Chunk
import MiniSheet.Source.Position

/-!
# Compiled stylesheets

A compiled stylesheet is output with holes, together with the imports that stand behind its
references.
-/

namespace MiniSheet

/-- An import, from the stylesheet that makes it to the one it names. -/
structure ImportEdge where
  /-- the importing stylesheet -/
  source : Location
  /-- the imported stylesheet -/
  target : Location
  /-- where the import stands in the importing stylesheet -/
  span : Span
  deriving Repr, DecidableEq

/-- What a stylesheet compiles to. -/
structure Compiled where
  /-- the output with holes -/
  chunks : List (Chunk Location) := []
  /-- the imports, in the order of the source -/
  imports : List ImportEdge := []
  deriving Repr

end MiniSheet
