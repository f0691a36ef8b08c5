import MiniSheet.Output.Compiled

/-!
# Stylesheets of a package

A stylesheet is known by its location. Besides its source it carries what compiling and checking the
package made of it: chunks, the imports it makes, the imports made of it, and whether it stands
alone.
-/

namespace MiniSheet

/-- An import, as seen from the imported stylesheet. -/
structure Importer where
  /-- the importing stylesheet -/
  source : Location
  /-- where the import stands in it -/
  span : Span
  deriving Repr, DecidableEq

/-- A stylesheet of a package. -/
structure Sheet where
  /-- where it lies -/
  location : Location
  /-- its text; none if no file stands behind it -/
  source : Option Text
  /-- whether it is the stylesheet of the whole application -/
  isEntry : Bool := false
  /-- what it compiled to -/
  compiled : Compiled := {}
  /-- the imports made of it -/
  importers : List Importer := []
  /-- whether it may be delivered on its own -/
  isIndependent : Bool := false
  deriving Repr

namespace Sheet

/-- Whether the stylesheet has a text of its own that is not empty. -/
def hasSource (sheet : Sheet) : Bool := sheet.source.any fun source => !source.isEmpty

/-- Forget who imports the stylesheet. -/
def clearImporters (sheet : Sheet) : Sheet := { sheet with importers := [] }

/-- Note one more import of the stylesheet, behind all others. -/
def addImporter (sheet : Sheet) (importer : Importer) : Sheet :=
  { sheet with importers := sheet.importers ++ [importer] }

/-- Replace what the stylesheet compiled to, the imports it makes included. -/
def setCompiled (sheet : Sheet) (compiled : Compiled) : Sheet := { sheet with compiled }

end Sheet

/-! ## Lists of stylesheets -/

namespace Sheets

/-- The stylesheet at a location. -/
def find? (sheets : List Sheet) (location : Location) : Option Sheet :=
  sheets.find? fun sheet => sheet.location == location

/-- How many stylesheets are not among the given locations. Following imports without coming back to
a location lowers this number, which is why it ends. -/
def idle (sheets : List Sheet) (active : List Location) : Nat :=
  sheets.countP fun sheet => !active.contains sheet.location

theorem location_of_find? {sheets : List Sheet} {location : Location} {sheet : Sheet}
    (h : find? sheets location = some sheet) : sheet.location = location := by
  unfold find? at h
  have hp := List.find?_some h
  exact beq_iff_eq.1 hp

theorem mem_of_find? {sheets : List Sheet} {location : Location} {sheet : Sheet}
    (h : find? sheets location = some sheet) : sheet ∈ sheets :=
  List.mem_of_find?_eq_some h

theorem countP_lt_countP {α : Type} {p q : α → Bool} {l : List α}
    (himp : ∀ a ∈ l, p a = true → q a = true) {a : α} (ha : a ∈ l) (hp : p a = false)
    (hq : q a = true) : l.countP p < l.countP q := by
  induction l with
  | nil => cases ha
  | cons b l ih =>
    have hle : l.countP p ≤ l.countP q :=
      List.countP_mono_left fun c hc => himp c (List.mem_cons_of_mem b hc)
    rcases List.mem_cons.1 ha with rfl | hmem
    · rw [List.countP_cons_of_neg (by simp [hp]), List.countP_cons_of_pos hq]
      omega
    · have hlt := ih (fun c hc => himp c (List.mem_cons_of_mem b hc)) hmem
      have hb := himp b List.mem_cons_self
      rw [List.countP_cons, List.countP_cons]
      split
      · rename_i h
        rw [if_pos (hb h)]
        omega
      · split <;> omega

/-- Entering a stylesheet that is not active yet lowers the number of idle ones. -/
theorem idle_cons_lt {sheets : List Sheet} {active : List Location} {sheet : Sheet}
    (hmem : sheet ∈ sheets) (hactive : active.contains sheet.location = false) :
    idle sheets (sheet.location :: active) < idle sheets active := by
  refine countP_lt_countP (fun s _ hs => ?_) hmem ?_ ?_
  · simp only [List.contains_cons, Bool.not_or, Bool.and_eq_true] at hs
    exact hs.2
  · simp
  · rw [hactive]
    rfl

end Sheets

end MiniSheet
