import MiniSheet.Proofs.PackageHistory
import MiniSheet.Proofs.Paths

/-!
# What a package holds, told from its history

Most operations leave alone what is registered in a package. Those that do not, register sources at
locations, one after the other (`Package.registrations`). The list of all of them tells what the
package holds: the locations are those of the list, in the order of their first appearance, each
with the source it was last given.

A package finds stylesheets by their location and keeps an index of their places besides, which is
known to lead to them (`Package.indexed`). That it holds them in order and nothing else is an
invariant (`Package.Recorded`). One step of it is registering a source, the other revising the
stylesheets, and every operation is made of these.
-/

namespace MiniSheet

/-! ## Places -/

theorem lookup_zipIdx (locations : List Location) (location : Location) (start : Nat) :
    (locations.zipIdx start).lookup location = (locations.idxOf? location).map (start + ·) := by
  induction locations generalizing start with
  | nil => rfl
  | cons first locations ih =>
    rw [List.zipIdx_cons, List.lookup_cons, List.idxOf?_cons]
    by_cases h : first = location
    · rw [beq_iff_eq.2 h, beq_iff_eq.2 h.symm]
      rfl
    · rw [beq_eq_false_iff_ne.2 h, beq_eq_false_iff_ne.2 (Ne.symm h), ih]
      cases locations.idxOf? location with
      | none => rfl
      | some i => exact congrArg some (by dsimp only; omega)

theorem Sheets.find?_cons (first : Sheet) (sheets : List Sheet) (location : Location) :
    find? (first :: sheets) location =
      if first.location = location then some first else find? sheets location := by
  rw [find?, List.find?_cons]
  by_cases h : first.location = location
  · rw [if_pos h, beq_iff_eq.2 h]
  · rw [if_neg h, beq_eq_false_iff_ne.2 h]
    rfl

/-- A stylesheet is found at the place of its location. -/
theorem Sheets.find?_eq_bind (sheets : List Sheet) (location : Location) :
    find? sheets location = ((sheets.map Sheet.location).idxOf? location).bind (sheets[·]?) := by
  induction sheets with
  | nil => rfl
  | cons first sheets ih =>
    rw [find?_cons, List.map_cons, List.idxOf?_cons]
    by_cases h : first.location = location
    · rw [if_pos h, if_pos (beq_iff_eq.2 h)]
      rfl
    · rw [if_neg h, if_neg (by simpa using h), ih]
      cases (sheets.map Sheet.location).idxOf? location <;> rfl

namespace Package

/-- A stylesheet is registered at the place of its location, or behind all others. -/
theorem register_eq (sheets : List Sheet) (sheet : Sheet) : register sheets sheet =
    match (sheets.map Sheet.location).idxOf? sheet.location with
    | some i => sheets.set i sheet
    | none => sheets ++ [sheet] := by
  induction sheets with
  | nil => rfl
  | cons first sheets ih =>
    rw [register, List.map_cons, List.idxOf?_cons, ih]
    cases hfirst : first.location == sheet.location with
    | true => rfl
    | false => cases (sheets.map Sheet.location).idxOf? sheet.location <;> rfl

theorem find?_register (sheets : List Sheet) (sheet : Sheet) (location : Location) :
    Sheets.find? (register sheets sheet) location =
      if sheet.location = location then some sheet else Sheets.find? sheets location := by
  induction sheets with
  | nil => exact Sheets.find?_cons sheet [] location
  | cons first sheets ih =>
    rw [register, Sheets.find?_cons]
    by_cases hfirst : first.location = sheet.location
    · rw [if_pos (beq_iff_eq.2 hfirst), Sheets.find?_cons]
      by_cases h : sheet.location = location
      · rw [if_pos h, if_pos h]
      · rw [if_neg h, if_neg h, if_neg (hfirst ▸ h)]
    · rw [if_neg (by simpa using hfirst), Sheets.find?_cons, ih]
      by_cases h : sheet.location = location
      · rw [if_pos h, if_pos h, if_neg (h ▸ hfirst)]
      · rw [if_neg h, if_neg h]

/-! ## Registrations -/

/-- The sources that are registered when files are loaded: those in front of the first that is no
text. -/
def loaded (p : Package) : List FileTree.File → List (Location × Option Text)
  | [] => []
  | file :: files =>
    match file.text? with
    | none => []
    | some source => (p.root.join file.location, some source) :: p.loaded files

/-- The sources that an operation registers, each with its location, in their order. -/
def registrations (p : Package) : Operation → List (Location × Option Text)
  | .insert path source => [(p.locate path, source)]
  | .load tree =>
    match p.stylesheetFiles tree with
    | .error _ => []
    | .ok files => p.loaded files
  | .setEntry _ _ | .compileAll | .resolveGraph | .process => []

/-- A package that came from the given one, in which so much has been registered since it was
empty. -/
structure Recorded (start : Package) (log : List (Location × Option Text))
    (p : Package) : Prop where
  /-- it lies where it lay -/
  root : p.root = start.root
  /-- its settings are the same -/
  options : p.options = start.options
  /-- the locations are in the order of their first registration -/
  locations : p.sheets.map Sheet.location = (log.map Prod.fst).eraseDups
  /-- the sources are those of the last registration -/
  sources : ∀ location, (p.find? location).map Sheet.source = log.reverse.lookup location
  /-- the index holds the place of every location -/
  index : p.index = (p.sheets.map Sheet.location).zipIdx

variable {start p : Package} {log : List (Location × Option Text)}

theorem recorded_empty (path : Text) (options : Options) (transforms : Transforms) :
    Recorded (Package.empty path options transforms) [] (Package.empty path options transforms) :=
  ⟨rfl, rfl, rfl, fun _ => rfl, rfl⟩

namespace Recorded

/-- Registering a source is recorded. -/
theorem insertAt (h : Recorded start log p) (location : Location) (source : Option Text) :
    Recorded start (log ++ [(start.root.join location, source)]) (p.insertAt location source) where
  root := h.root
  options := h.options
  locations := by
    refine (map_location_register _ _).trans ?_
    dsimp only
    rw [h.root, h.locations, List.map_append, List.eraseDups_append]
    by_cases hmem : start.root.join location ∈ log.map Prod.fst
    · simp [hmem, List.removeAll]
    · simp [hmem, List.removeAll, List.eraseDups_cons]
  sources other := by
    rw [List.reverse_append, List.reverse_singleton, List.singleton_append, List.lookup_cons,
      ← h.sources]
    refine (congrArg _ (find?_register _ _ _)).trans ?_
    dsimp only
    rw [h.root]
    by_cases heq : start.root.join location = other
    · rw [if_pos heq, beq_iff_eq.2 heq.symm]
      rfl
    · rw [if_neg heq, beq_eq_false_iff_ne.2 (Ne.symm heq)]
      rfl
  index := by
    refine Eq.trans ?_ (congrArg List.zipIdx (map_location_register _ _).symm)
    change enlist p.index (p.root.join location) p.sheets.length = _
    rw [enlist, h.index, lookup_zipIdx]
    by_cases hmem : p.root.join location ∈ p.sheets.map Sheet.location
    · obtain ⟨place, hplace⟩ :=
        Option.ne_none_iff_exists'.1 (mt List.idxOf?_eq_none_iff.1 (not_not.2 hmem))
      rw [if_pos hmem, hplace]
      rfl
    · rw [if_neg hmem, List.idxOf?_eq_none_iff.2 hmem, List.zipIdx_append, List.length_map,
        Nat.zero_add]
      rfl

/-- Revising stylesheets leaves the record as it is. -/
theorem revise (start : Package) (log : List (Location × Option Text)) :
    RevisionInvariant (Recorded start log) := by
  intro p f hf h
  refine ⟨h.root, h.options, (map_location_revise p _).trans h.locations, fun location => ?_, ?_⟩
  · rw [← h.sources, find?_revise, Option.map_map]
    exact congrArg (Option.map · _) (funext hf.source)
  · rw [map_location_revise]
    exact h.index

theorem loadFiles (h : Recorded start log p) (files : List FileTree.File) :
    Recorded start (log ++ start.loaded files) (p.loadFiles files).1 := by
  induction files generalizing p log with
  | nil =>
    rw [loaded, List.append_nil]
    exact h
  | cons file files ih =>
    rw [loaded, Package.loadFiles]
    rcases file.text? with _ | source
    · dsimp only
      rw [List.append_nil]
      exact h
    · dsimp only
      rw [List.append_cons]
      exact ih (h.insertAt file.location (some source))

theorem load (h : Recorded start log p) (tree : FileTree) :
    Recorded start (log ++ start.registrations (.load tree)) (p.load tree).value.1 := by
  have hfiles : p.stylesheetFiles tree = start.stylesheetFiles tree := by
    rw [stylesheetFiles, stylesheetFiles, h.root, h.options]
  rw [registrations, Package.load, hfiles]
  rcases start.stylesheetFiles tree with error | files
  · dsimp only
    rw [List.append_nil]
    exact h
  · have hloaded := h.loadFiles files
    dsimp only
    split
    · rename_i hload
      rw [hload] at hloaded
      exact hloaded
    · rename_i hload
      rw [hload] at hloaded
      exact hloaded

/-- Every operation is recorded. -/
theorem perform (h : Recorded start log p) (operation : Operation) :
    Recorded start (log ++ start.registrations operation) (p.perform operation) := by
  cases operation with
  | insert path source =>
    rw [registrations, locate]
    exact h.insertAt (.ofText path) source
  | load tree => exact h.load tree
  | setEntry location isEntry =>
    rw [registrations, List.append_nil]
    exact (revise start log).setEntry h location isEntry
  | compileAll =>
    rw [registrations, List.append_nil]
    exact (revise start log).compileAll h
  | resolveGraph =>
    rw [registrations, List.append_nil]
    exact (revise start log).resolveGraph h
  | process =>
    rw [registrations, List.append_nil]
    exact (revise start log).process h

/-- **A whole history is recorded.** -/
theorem performAll (h : Recorded start log p) (operations : List Operation) :
    Recorded start (log ++ operations.flatMap start.registrations) (p.performAll operations) := by
  induction operations generalizing p log with
  | nil =>
    rw [List.flatMap_nil, List.append_nil]
    exact h
  | cons operation operations ih =>
    rw [List.flatMap_cons, ← List.append_assoc]
    exact ih (h.perform operation)

end Recorded

/-! ## Where stylesheets are registered -/

/-- A location of the package that can be written. -/
def Addressable (p : Package) (location : Location) : Prop :=
  location.Proper ∧ p.root.join location = location

theorem addressable_join (hroot : p.root.Proper) {location : Location} (h : location.Proper) :
    p.Addressable (p.root.join location) :=
  ⟨hroot.join h, p.root_join_join location⟩

/-- A written location is located where it is. -/
theorem Addressable.locate_toText {location : Location} (h : p.Addressable location) :
    p.locate location.toText = location := by
  rw [locate, Location.ofText_toText h.1, h.2]

theorem proper_root_empty (path : Text) (options : Options) (transforms : Transforms) :
    (Package.empty path options transforms).root.Proper := by
  change Location.Proper (if _ then _ else _)
  split
  · exact Location.proper_here
  · exact Location.proper_root.join (Location.proper_ofText path)

theorem addressable_loaded (hroot : p.root.Proper) {files : List FileTree.File}
    (h : ∀ file ∈ files, file.location.Proper) :
    ∀ entry ∈ p.loaded files, p.Addressable entry.1 := by
  induction files with
  | nil => nofun
  | cons file files ih =>
    intro entry hmem
    rw [loaded] at hmem
    split at hmem
    · cases hmem
    · rcases List.mem_cons.1 hmem with rfl | hmem
      · exact addressable_join hroot (h file List.mem_cons_self)
      · exact ih (fun other hother => h other (List.mem_cons_of_mem _ hother)) entry hmem

/-- Sources are registered at locations that can be written, if the files they are loaded from have
names. -/
theorem addressable_registrations (hroot : p.root.Proper) {operation : Operation}
    (h : ∀ tree, operation = .load tree → tree.WellNamed) :
    ∀ entry ∈ p.registrations operation, p.Addressable entry.1 := by
  cases operation with
  | insert path source =>
    intro entry hmem
    obtain rfl := List.mem_singleton.1 hmem
    exact addressable_join hroot (Location.proper_ofText path)
  | load tree =>
    intro entry hmem
    rw [registrations, stylesheetFiles] at hmem
    rcases hlist : tree.list p.root with fault | files
    · rw [hlist] at hmem
      cases hmem
    · rw [hlist] at hmem
      refine addressable_loaded hroot (fun file hfile => ?_) entry hmem
      exact FileTree.proper_of_mem_list (h tree rfl) hroot hlist file
        (List.mem_of_mem_filter (List.mem_mergeSort.1 hfile))
  | setEntry | compileAll | resolveGraph | process => nofun

/-- **A package holds what was registered in it**, whatever was done with it since it was empty. No
two stylesheets lie at the same location, and each lies where its own path leads to, as long as
loaded files have names. The index holds their places and nothing else. They are in the order in
which their locations were registered first. By whatever path a stylesheet is asked for, the one at
its location is found, through the index as well, with the source that was registered last.
Registering a source once more puts a new stylesheet in the same place and leaves the others
alone. -/
theorem registry_follows_history (path : Text) (options : Options) (transforms : Transforms)
    (operations : List Operation) :
    let start := Package.empty path options transforms
    let p := start.performAll operations
    let log := operations.flatMap start.registrations
    (p.sheets.map Sheet.location).Nodup ∧
    ((∀ tree, .load tree ∈ operations → FileTree.WellNamed tree) →
      ∀ sheet ∈ p.sheets, p.locate sheet.location.toText = sheet.location) ∧
    p.index = (p.sheets.map Sheet.location).zipIdx ∧
    p.sheets.map Sheet.location = (log.map Prod.fst).eraseDups ∧
    (∀ query sheet, p.get? query = some sheet ↔
      sheet ∈ p.sheets ∧ sheet.location = p.locate query) ∧
    (∀ query, p.get? query = (p.index.lookup (p.locate query)).bind (p.sheets[·]?)) ∧
    (∀ query target, p.lookup (.ofText query) = some target ↔
      target ∈ p.sheets.map Sheet.location ∧ target = p.locate query) ∧
    (∀ query, (p.get? query).map Sheet.source = log.reverse.lookup (p.locate query)) ∧
    ∀ query source,
      let new : Sheet :=
        { location := p.locate query, source, isEntry := p.locate query == p.entryLocation
          compiled := {}, importers := [], isIndependent := false }
      (p.insert query source).sheets =
        match p.index.lookup (p.locate query) with
        | some place => p.sheets.set place new
        | none => p.sheets ++ [new] := by
  intro start p log
  have hrecorded : Recorded start log p :=
    (recorded_empty path options transforms).performAll operations
  have hdistinct : (p.sheets.map Sheet.location).Nodup := p.distinct
  have hplace (location : Location) : p.index.lookup location =
      (p.sheets.map Sheet.location).idxOf? location := by
    rw [hrecorded.index, lookup_zipIdx]
    cases (p.sheets.map Sheet.location).idxOf? location <;> simp
  have hget (query : Text) (sheet : Sheet) :
      p.get? query = some sheet ↔ sheet ∈ p.sheets ∧ sheet.location = p.locate query := by
    refine ⟨fun h => ⟨mem_of_at? h, Sheets.location_of_find? h⟩, ?_⟩
    rintro ⟨hmem, hlocation⟩
    exact (congrArg p.find? hlocation.symm).trans (Sheets.find?_of_mem hdistinct hmem)
  refine ⟨hdistinct, fun hnamed sheet hsheet => ?_, hrecorded.index, hrecorded.locations, hget,
    fun query => ?_, fun query target => ?_, fun query => hrecorded.sources (p.locate query),
    fun query source => ?_⟩
  · have hmem : sheet.location ∈ log.map Prod.fst := by
      rw [← List.mem_eraseDups, ← hrecorded.locations]
      exact List.mem_map_of_mem hsheet
    obtain ⟨entry, hentry, hlocation⟩ := List.mem_map.1 hmem
    obtain ⟨operation, hoperation, hentry⟩ := List.mem_flatMap.1 hentry
    have haddressable : start.Addressable entry.1 :=
      addressable_registrations (proper_root_empty path options transforms)
      (fun tree htree => hnamed tree (htree ▸ hoperation)) entry hentry
    rw [hlocation, Addressable, ← hrecorded.root] at haddressable
    exact Addressable.locate_toText haddressable
  · rw [hplace]
    exact Sheets.find?_eq_bind _ _
  · rw [lookup, Option.map_eq_some_iff, List.mem_map]
    constructor
    · rintro ⟨sheet, hsheet, rfl⟩
      obtain ⟨hmem, hlocation⟩ := (hget query sheet).1 hsheet
      exact ⟨⟨sheet, hmem, rfl⟩, hlocation⟩
    · rintro ⟨⟨sheet, hmem, rfl⟩, hlocation⟩
      exact ⟨sheet, (hget query sheet).2 ⟨hmem, hlocation⟩, rfl⟩
  · dsimp only
    rw [hplace]
    exact register_eq _ _

/-- A file tree with two stylesheets. -/
def shelf : FileTree :=
  .directory [("p".toList, .directory
    [("a.wxss".toList, .file ".a\x7b\x7d".toUTF8), ("b.wxss".toList, .file ".b\x7b\x7d".toUTF8)])]

/-- One of them is registered before that, and once more at the end by another path. -/
def shelving : List Operation :=
  [.insert "b.wxss".toList none, .load shelf, .process, .insert "../x".toList none, .compileAll,
    .insert "./c/..//b.wxss".toList (some ".c\x7b\x7d".toList)]

theorem registrations_shelf : (Package.empty ['p'] {} .standard).registrations (.load shelf) =
    [(.absolute ["p".toList, "a.wxss".toList], some ".a\x7b\x7d".toList),
      (.absolute ["p".toList, "b.wxss".toList], some ".b\x7b\x7d".toList)] := by
  have hfiles : (Package.empty ['p'] {} .standard).stylesheetFiles shelf =
      .ok [⟨.absolute ["p".toList, "a.wxss".toList], ".a\x7b\x7d".toUTF8⟩,
        ⟨.absolute ["p".toList, "b.wxss".toList], ".b\x7b\x7d".toUTF8⟩] := by
    -- they are in order already
    exact congrArg Except.ok (List.mergeSort_of_pairwise (by decide +kernel))
  rw [registrations, hfiles]
  decide +kernel

/-- It keeps the first place and has the last source. -/
theorem registry_follows_history_shelving :
    let p := (Package.empty ['p'] {} .standard).performAll shelving
    let b : Location := .absolute ["p".toList, "b.wxss".toList]
    let a : Location := .absolute ["p".toList, "a.wxss".toList]
    let x : Location := .absolute ["x".toList]
    p.sheets.map Sheet.location = [b, a, x] ∧ p.index = [(b, 0), (a, 1), (x, 2)] ∧
      (p.get? "/p/b.wxss".toList).map Sheet.source = some (some ".c\x7b\x7d".toList) ∧
      (∀ tree, .load tree ∈ shelving → FileTree.WellNamed tree) ∧
      ∀ sheet ∈ p.sheets, p.locate sheet.location.toText = sheet.location := by
  intro p b a x
  have hnamed : ∀ tree, .load tree ∈ shelving → FileTree.WellNamed tree := by
    intro tree hmem
    simp only [shelving, List.mem_cons, Operation.load.injEq, reduceCtorEq, false_or, or_false,
      List.not_mem_nil] at hmem
    rw [hmem, shelf]
    simp only [FileTree.WellNamed, FileTree.WellNamedEntries]
    decide
  obtain ⟨-, hlocate, hindex, horder, -, -, -, hsource, -⟩ :=
    registry_follows_history ['p'] {} .standard shelving
  have hlog : shelving.flatMap (Package.empty ['p'] {} .standard).registrations =
      [(b, none), (a, some ".a\x7b\x7d".toList), (b, some ".b\x7b\x7d".toList), (x, none),
        (b, some ".c\x7b\x7d".toList)] := by
    rw [shelving, List.flatMap_cons, List.flatMap_cons, registrations_shelf]
    decide +kernel
  rw [hlog] at horder
  have horder : p.sheets.map Sheet.location = [b, a, x] := horder.trans (by decide +kernel)
  refine ⟨horder, hindex.trans (congrArg List.zipIdx horder), ?_, hnamed, hlocate hnamed⟩
  have hplace : p.locate "/p/b.wxss".toList = b := p.root.join_absolute _
  rw [hsource, hlog, hplace]
  decide +kernel

end Package

end MiniSheet
