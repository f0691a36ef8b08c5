import MiniSheet.Output.Production
import MiniSheet.Package.Sheet
import MiniSheet.Profile

/-!
# Packages

A package holds the stylesheets of an application in the order they were registered, at most one at
each location, and an index of their places in that order. Paths are taken from the root of the
package.

The index is kept apart from the stylesheets, and a package carries the proof that the two agree
(`Package.indexed`). So a stylesheet is registered together with its place (`Package.insertAt`), and
whatever else is done leaves all stylesheets where they are (`Package.revise`).
-/

namespace MiniSheet

/-- The settings of a package. -/
structure Options where
  /-- the path of the stylesheet of the whole application -/
  entry : Text := "app.wxss".toList
  /-- the extension of stylesheet files, without the point -/
  extension : Text := "wxss".toList
  /-- the width, in `rpx`, that devices are scaled from -/
  referenceWidth : Float := Profile.referenceWidth
  deriving Repr

/-- An index of locations tells the place of each of them, and nothing else. In particular no
location has two places. -/
def Indexes (index : List (Location × Nat)) (locations : List Location) : Prop :=
  ∀ location place, index.lookup location = some place ↔ locations[place]? = some location

theorem indexes_nil : Indexes [] [] := by
  intro location place
  rw [List.lookup_nil, List.getElem?_nil]
  constructor <;> intro h <;> cases h

theorem getElem?_concat_eq_some_iff {α : Type} {l : List α} {a b : α} {place : Nat} :
    (l ++ [a])[place]? = some b ↔ l[place]? = some b ∨ l.length = place ∧ a = b := by
  rw [List.getElem?_append]
  split
  · rename_i hlt
    exact (or_iff_left fun h => Nat.ne_of_gt hlt h.1).symm
  · rename_i hge
    have hnone : l[place]? ≠ some b := by
      rw [List.getElem?_eq_none (Nat.le_of_not_lt hge)]
      exact (Option.some_ne_none b).symm
    rw [or_iff_right hnone, List.getElem?_singleton]
    split
    · rename_i hzero
      rw [Option.some_inj, and_iff_right (by omega)]
    · rename_i hzero
      constructor
      · intro h
        cases h
      · rintro ⟨hplace, -⟩
        omega

/-- A location that the index does not have can be put behind all others. -/
theorem Indexes.concat {index : List (Location × Nat)} {locations : List Location}
    (h : Indexes index locations) {location : Location} (hnew : index.lookup location = none) :
    Indexes (index ++ [(location, locations.length)]) (locations ++ [location]) := by
  intro other place
  rw [List.lookup_append, List.lookup_cons, List.lookup_nil, getElem?_concat_eq_some_iff, ← h]
  by_cases hother : location = other
  · subst hother
    rw [hnew, Option.none_or, beq_self_eq_true, Option.some_inj, and_iff_left rfl]
    exact (or_iff_right fun hplace => by cases hplace).symm
  · rw [beq_eq_false_iff_ne.2 (Ne.symm hother), Option.or_none]
    exact (or_iff_left fun hplace => hother hplace.2).symm

/-- The stylesheets of an application. -/
@[ext]
structure Package where
  /-- where the package lies -/
  root : Location
  /-- a place in the package, taken from its root once more, is the same place -/
  root_join_root : root.join root = root
  /-- its settings -/
  options : Options
  /-- what it is compiled with -/
  transforms : Transforms
  /-- its stylesheets, in the order they were registered -/
  sheets : List Sheet
  /-- the locations of its stylesheets, each with its place in that order -/
  index : List (Location × Nat)
  /-- the index tells where the stylesheets are -/
  indexed : Indexes index (sheets.map Sheet.location)

namespace Package

/-- An empty package. It is assumed that the current directory can be read, and that it is the root
of all paths: a relative path to the package is taken from there. Only the empty path, which cannot
be made absolute, stays as it is. (In a directory that cannot be read every relative path would stay
relative. There a path of the package, taken from its root twice, is another path, and
`root_join_root` fails.) -/
def empty (path : Text) (options : Options) (transforms : Transforms) : Package where
  root := if path.isEmpty then .here else Location.root.join (.ofText path)
  root_join_root := by
    split
    · exact Location.join_here _
    · exact Location.join_root_join _ _
  options
  transforms
  sheets := []
  index := []
  indexed := indexes_nil

/-- The location of a path of the package. -/
def locate (p : Package) (path : Text) : Location := p.root.join (.ofText path)

/-- The location of the stylesheet of the whole application. -/
def entryLocation (p : Package) : Location := p.locate p.options.entry

/-- The stylesheet at a location. -/
def find? (p : Package) (location : Location) : Option Sheet := Sheets.find? p.sheets location

/-- The stylesheet at a location that is taken from the root of the package. -/
def at? (p : Package) (location : Location) : Option Sheet := p.find? (p.root.join location)

/-- The stylesheet at a path. -/
def get? (p : Package) (path : Text) : Option Sheet := p.at? (.ofText path)

/-- Where the stylesheet lies that a location names, taken from the root of the package. -/
def lookup (p : Package) (location : Location) : Option Location :=
  (p.at? location).map Sheet.location

theorem mem_of_at? {p : Package} {location : Location} {sheet : Sheet}
    (h : p.at? location = some sheet) : sheet ∈ p.sheets :=
  Sheets.mem_of_find? h

/-- The stylesheets whose file name has the given extension. Points in front of it do not matter. -/
def withExtension (p : Package) (extension : Text) : List Sheet :=
  let extension := extension.dropWhile (· == '.')
  p.sheets.filter fun sheet => sheet.location.extension? == some extension

/-- The stylesheets that may be delivered on their own. -/
def independent (p : Package) : List Sheet := p.sheets.filter Sheet.isIndependent

/-! ## Registering stylesheets -/

/-- Put a stylesheet in the place of the one at its location, or behind all others. -/
def register (sheets : List Sheet) (sheet : Sheet) : List Sheet :=
  match sheets with
  | [] => [sheet]
  | first :: rest =>
    if first.location == sheet.location then sheet :: rest else first :: register rest sheet

/-- Give a new location the place behind all others. One that has a place already keeps it. -/
def enlist (index : List (Location × Nat)) (location : Location) (place : Nat) :
    List (Location × Nat) :=
  match index.lookup location with
  | some _ => index
  | none => index ++ [(location, place)]

/-- Registering keeps the locations, in their order, and adds the new one if it is new. -/
theorem map_location_register (sheets : List Sheet) (sheet : Sheet) :
    (register sheets sheet).map Sheet.location =
      if sheet.location ∈ sheets.map Sheet.location then sheets.map Sheet.location
      else sheets.map Sheet.location ++ [sheet.location] := by
  induction sheets with
  | nil => rfl
  | cons first rest ih =>
    rw [register]
    by_cases hfirst : first.location = sheet.location
    · simp [hfirst]
    · -- the first stylesheet stays where it is, and the rest decides
      rw [if_neg (by simp [hfirst]), List.map_cons, ih]
      by_cases hrest : sheet.location ∈ rest.map Sheet.location
      · rw [if_pos hrest, if_pos (by rw [List.map_cons]; exact List.mem_cons_of_mem _ hrest),
          List.map_cons]
      · have hnew : sheet.location ∉ (first :: rest).map Sheet.location := by
          rw [List.map_cons, List.mem_cons, not_or]
          exact ⟨fun h => hfirst h.symm, hrest⟩
        rw [if_neg hrest, if_neg hnew, List.map_cons, List.cons_append]

/-- The index follows the stylesheets when one is registered. -/
theorem indexes_register {index : List (Location × Nat)} {sheets : List Sheet}
    (h : Indexes index (sheets.map Sheet.location)) (sheet : Sheet) :
    Indexes (enlist index sheet.location sheets.length)
      ((register sheets sheet).map Sheet.location) := by
  rw [enlist, map_location_register]
  cases hplace : index.lookup sheet.location with
  | some place =>
    rw [if_pos (List.mem_of_getElem? ((h _ _).1 hplace))]
    exact h
  | none =>
    have hnew : sheet.location ∉ sheets.map Sheet.location := by
      intro hmem
      obtain ⟨place, hat⟩ := List.mem_iff_getElem?.1 hmem
      rw [(h _ _).2 hat] at hplace
      cases hplace
    rw [if_neg hnew, ← List.length_map Sheet.location]
    exact h.concat hplace

/-- Register a source at a location that is taken from the root of the package. -/
def insertAt (p : Package) (location : Location) (source : Option Text) : Package :=
  let location := p.root.join location
  let sheet : Sheet := { location, source, isEntry := location == p.entryLocation }
  { p with
    sheets := register p.sheets sheet
    index := enlist p.index location p.sheets.length
    indexed := indexes_register p.indexed sheet }

/-- Register a source at a path. -/
def insert (p : Package) (path : Text) (source : Option Text) : Package :=
  p.insertAt (.ofText path) source

/-! ## Revising stylesheets -/

theorem map_location_map (sheets : List Sheet) {f : Sheet → Sheet}
    (hf : ∀ sheet, (f sheet).location = sheet.location) :
    (sheets.map f).map Sheet.location = sheets.map Sheet.location :=
  List.map_map.trans (List.map_congr_left fun sheet _ => hf sheet)

/-- Change the stylesheets one by one, without moving any of them. -/
def revise (p : Package) (f : Sheet → Sheet)
    (hf : ∀ sheet, (f sheet).location = sheet.location) : Package :=
  { p with
    sheets := p.sheets.map f
    indexed := by
      rw [map_location_map p.sheets hf]
      exact p.indexed }

theorem map_location_revise (p : Package) {f : Sheet → Sheet}
    (hf : ∀ sheet, (f sheet).location = sheet.location) :
    (p.revise f hf).sheets.map Sheet.location = p.sheets.map Sheet.location :=
  map_location_map p.sheets hf

/-- A stylesheet is found where it was, as it was revised. -/
theorem find?_revise (p : Package) {f : Sheet → Sheet}
    (hf : ∀ sheet, (f sheet).location = sheet.location) (location : Location) :
    (p.revise f hf).find? location = (p.find? location).map f := by
  refine List.find?_map.trans ?_
  simp only [Function.comp_def, hf]
  rfl

/-- Say whether a stylesheet is the one of the whole application. -/
def setEntry (p : Package) (location : Location) (isEntry : Bool) : Package :=
  p.revise (fun sheet => if sheet.location == location then { sheet with isEntry } else sheet)
    fun sheet => by split <;> rfl

end Package

end MiniSheet
