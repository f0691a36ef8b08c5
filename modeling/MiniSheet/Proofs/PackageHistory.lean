import MiniSheet.Package.Load
import MiniSheet.Proofs.ImportSearch
import MiniSheet.Proofs.Importers
import MiniSheet.Proofs.References
import MiniSheet.Proofs.RenderOutcome

/-!
# What holds of a package, whatever was done with it

A package starts empty and is changed by a few operations, in any order: stylesheets are registered
one by one or loaded from a file tree, marked as entry, compiled, checked. All of them come to two
kinds of changes: a stylesheet is registered, or the stylesheets are revised one by one without
being moved (`Package.Revises`). What survives both survives every history
(`Package.HistoryInvariant.performAll`).

The main case is `Package.Consistent`, what all packages have in common
(`Package.consistent_performAll`). Registering may throw away what a stylesheet was compiled to, but
it never takes a location away, so whatever others refer to stays (`Package.map_location_register`).
-/

namespace MiniSheet

namespace Package

/-! ## Histories -/

/-- Something that changes a package. -/
inductive Operation where
  /-- a source is registered at a path -/
  | insert (path : Text) (source : Option Text)
  /-- the stylesheet files of a file tree are registered -/
  | load (tree : FileTree)
  /-- a stylesheet is marked as that of the whole application, or no longer -/
  | setEntry (location : Location) (isEntry : Bool)
  /-- every stylesheet is compiled -/
  | compileAll
  /-- the import graph is checked -/
  | resolveGraph
  /-- every stylesheet is compiled, then the import graph is checked -/
  | process

/-- The package after an operation, whether it succeeded or not. -/
def perform (p : Package) : Operation → Package
  | .insert path source => p.insert path source
  | .load tree => (p.load tree).value.1
  | .setEntry location isEntry => p.setEntry location isEntry
  | .compileAll => p.compileAll.value.1
  | .resolveGraph => p.resolveGraph.value.1
  | .process => p.process.value.1

/-- The package after a history of operations. -/
def performAll (p : Package) (operations : List Operation) : Package := operations.foldl perform p

/-! ### What compiling comes to -/

/-- What a stylesheet compiles to in a package; nothing if it does not compile. -/
def compiledOf (p : Package) (sheet : Sheet) : Compiled := output (p.compileSheet sheet).value

/-- All imports that the stylesheets of a package make when they are compiled, in the order they
were registered. -/
def edges (p : Package) : List ImportEdge :=
  p.sheets.flatMap fun sheet => (p.compiledOf sheet).imports

/-- A stylesheet of a package, compiled anew. -/
def recompiled (p : Package) (sheet : Sheet) : Sheet :=
  { sheet with compiled := p.compiledOf sheet, importers := importersOf p.edges sheet.location }

theorem location_recompiled (p : Package) (sheet : Sheet) :
    (p.recompiled sheet).location = sheet.location :=
  rfl

/-- Compiling comes to a revision of the stylesheets, one by one. -/
theorem compileAll_eq (p : Package) : p.compileAll.value =
    (p.revise p.recompiled p.location_recompiled,
      failures (p.sheets.map fun sheet => (p.compileSheet sheet).value)) := by
  let results := p.sheets.map fun sheet => (p.compileSheet sheet).value
  have hresults : (p.sheets.map p.compileSheet).map Logged.value = results := List.map_map
  have hlength : p.sheets.length = results.length := (List.length_map _).symm
  have hedges : importsOf results = p.edges := List.flatMap_map ..
  have htaken : takeResults p.index p.sheets ((p.sheets.map p.compileSheet).map Logged.value) =
      ⟨p.sheets.map p.recompiled, failures results⟩ := by
    rw [hresults, takeResults_eq p.indexed hlength, hedges, List.zipWith_map_right,
      List.zipWith_self]
    rfl
  exact Prod.ext (Package.ext rfl rfl rfl (congrArg Progress.sheets htaken) rfl)
    (congrArg Progress.failures htaken)

/-- A stylesheet is found where it was, compiled anew. -/
theorem at?_compileAll (p : Package) (location : Location) :
    p.compileAll.value.1.at? location = (p.at? location).map p.recompiled := by
  rw [compileAll_eq]
  exact p.find?_revise p.location_recompiled _

/-! ### What an operation comes to -/

/-- How stylesheets may change without being registered anew: they stay where they are and keep
their source, and what they are compiled to stays or is what they compile to now. -/
structure Revises (p : Package) (f : Sheet → Sheet) : Prop where
  /-- they stay where they are -/
  location : ∀ sheet, (f sheet).location = sheet.location
  /-- they keep their source -/
  source : ∀ sheet, (f sheet).source = sheet.source
  /-- they are compiled to what they were compiled to, or compiled anew -/
  compiled : ∀ sheet, (f sheet).compiled = sheet.compiled ∨ (f sheet).compiled = p.compiledOf sheet

theorem revises_recompiled (p : Package) : p.Revises p.recompiled :=
  ⟨p.location_recompiled, fun _ => rfl, fun _ => .inr rfl⟩

/-- Marks do not count. -/
theorem revises_mark (p : Package) (mark : Sheet → Bool) :
    p.Revises fun sheet => { sheet with isIndependent := mark sheet } :=
  ⟨fun _ => rfl, fun _ => rfl, fun _ => .inl rfl⟩

/-- Something that survives every revision. -/
def RevisionInvariant (P : Package → Prop) : Prop :=
  ∀ p f, (hf : p.Revises f) → P p → P (p.revise f hf.location)

namespace RevisionInvariant

variable {P : Package → Prop} (hP : RevisionInvariant P) {p : Package}

include hP

theorem setEntry (h : P p) (location : Location) (isEntry : Bool) :
    P (p.setEntry location isEntry) := by
  refine hP p _ ⟨fun sheet => ?_, fun sheet => ?_, fun sheet => .inl ?_⟩ h
  all_goals split <;> rfl

theorem compileAll (h : P p) : P p.compileAll.value.1 := by
  rw [compileAll_eq]
  exact hP p _ p.revises_recompiled h

theorem resolveGraph (h : P p) : P p.resolveGraph.value.1 := by
  rcases hcheck : ImportGraph.check p.sheets with cycle | ⟨⟩
  · rw [resolveGraph_of_check_eq_error hcheck]
    exact hP p _ (p.revises_mark fun _ => false) h
  · rw [resolveGraph_of_check_eq_ok hcheck]
    exact hP p _ (p.revises_mark standsAlone) h

theorem process (h : P p) : P p.process.value.1 := by
  rw [Package.process, Logged.value_bind]
  dsimp only
  -- the graph is checked only if everything compiled
  split
  · exact hP.resolveGraph (hP.compileAll h)
  · exact hP.compileAll h

end RevisionInvariant

/-- Something that survives every operation. -/
structure HistoryInvariant (P : Package → Prop) : Prop where
  /-- a source is registered -/
  insertAt : ∀ p location source, P p → P (p.insertAt location source)
  /-- the stylesheets are revised -/
  revise : ∀ p f, (hf : p.Revises f) → P p → P (p.revise f hf.location)

namespace HistoryInvariant

variable {P : Package → Prop} (hP : HistoryInvariant P) {p : Package}

include hP

theorem loadFiles (h : P p) (files : List FileTree.File) : P (p.loadFiles files).1 := by
  induction files generalizing p with
  | nil => exact h
  | cons file files ih =>
    rw [Package.loadFiles]
    split
    · exact h
    · exact ih (hP.insertAt _ _ _ h)

theorem load (h : P p) (tree : FileTree) : P (p.load tree).value.1 := by
  rw [Package.load]
  split
  · exact h
  · rename_i files _
    have hfiles := hP.loadFiles h files
    split
    · rename_i hload
      rw [hload] at hfiles
      exact hfiles
    · rename_i hload
      rw [hload] at hfiles
      exact hfiles

theorem setEntry (h : P p) (location : Location) (isEntry : Bool) :
    P (p.setEntry location isEntry) :=
  RevisionInvariant.setEntry hP.revise h location isEntry

theorem compileAll (h : P p) : P p.compileAll.value.1 := RevisionInvariant.compileAll hP.revise h

theorem resolveGraph (h : P p) : P p.resolveGraph.value.1 :=
  RevisionInvariant.resolveGraph hP.revise h

theorem process (h : P p) : P p.process.value.1 := RevisionInvariant.process hP.revise h

/-- No operation spoils an invariant. -/
theorem perform (h : P p) (operation : Operation) : P (p.perform operation) := by
  cases operation with
  | insert path source => exact hP.insertAt _ _ _ h
  | load tree => exact hP.load h tree
  | setEntry location isEntry => exact hP.setEntry h location isEntry
  | compileAll => exact hP.compileAll h
  | resolveGraph => exact hP.resolveGraph h
  | process => exact hP.process h

/-- **Induction along a history**: no history spoils an invariant. -/
theorem performAll (h : P p) (operations : List Operation) : P (p.performAll operations) := by
  induction operations generalizing p with
  | nil => exact h
  | cons operation operations ih => exact ih (hP.perform h operation)

end HistoryInvariant

/-! ## Consistent packages -/

/-- What all packages have in common that are compiled with plain transforms. -/
structure Consistent (p : Package) : Prop where
  /-- the transforms write no references -/
  plain : p.transforms.Plain
  /-- the stylesheets lie where the package would look for them -/
  located : ∀ sheet ∈ p.sheets, p.root.join sheet.location = sheet.location
  /-- the stylesheets refer to what they import, and import only stylesheets of the package -/
  faithful : ∀ sheet ∈ p.sheets, sheet.compiled.Faithful (· ∈ p.sheets.map Sheet.location)

variable {p : Package}

theorem consistent_empty {transforms : Transforms} (hplain : transforms.Plain) (path : Text)
    (options : Options) :
    (Package.empty path options transforms).Consistent where
  plain := hplain
  located _ hmem := absurd hmem List.not_mem_nil
  faithful _ hmem := absurd hmem List.not_mem_nil

/-- The stylesheet that a lookup finds is in the package. -/
theorem mem_of_lookup {place target : Location} (h : p.lookup place = some target) :
    target ∈ p.sheets.map Sheet.location := by
  obtain ⟨sheet, hat, rfl⟩ := Option.map_eq_some_iff.1 h
  exact List.mem_map_of_mem (mem_of_at? hat)

/-! ### Registering -/

/-- A stylesheet takes the place of another one, or is new. -/
theorem mem_register {sheets : List Sheet} {sheet other : Sheet}
    (h : other ∈ register sheets sheet) : other = sheet ∨ other ∈ sheets := by
  induction sheets with
  | nil => exact .inl (List.mem_singleton.1 h)
  | cons first rest ih =>
    rw [register] at h
    split at h
    · rcases List.mem_cons.1 h with rfl | hrest
      · exact .inl rfl
      · exact .inr (List.mem_cons_of_mem _ hrest)
    · rcases List.mem_cons.1 h with rfl | hrest
      · exact .inr List.mem_cons_self
      · exact (ih hrest).imp_right (List.mem_cons_of_mem _)

theorem mem_map_location_register {sheets : List Sheet} {location : Location}
    (h : location ∈ sheets.map Sheet.location) (sheet : Sheet) :
    location ∈ (register sheets sheet).map Sheet.location := by
  rw [map_location_register]
  split
  · exact h
  · exact List.mem_append_left _ h

/-- Registering a source keeps a package consistent: the new stylesheet refers to nothing yet, and
what the others refer to is still there. -/
theorem Consistent.insertAt (h : p.Consistent) (location : Location) (source : Option Text) :
    (p.insertAt location source).Consistent where
  plain := h.plain
  located sheet hmem := by
    rcases mem_register hmem with rfl | hmem
    · exact p.root_join_join location
    · exact h.located sheet hmem
  faithful sheet hmem := by
    rcases mem_register hmem with rfl | hmem
    · exact Compiled.faithful_empty
    · exact (h.faithful sheet hmem).mono fun _ hknown => mem_map_location_register hknown _

/-! ### Revising -/

/-- What a stylesheet compiles to is faithful; one that does not compile is left empty. -/
theorem Consistent.faithful_compiledOf (h : p.Consistent) (sheet : Sheet) :
    (p.compiledOf sheet).Faithful (· ∈ p.sheets.map Sheet.location) := by
  rw [compiledOf]
  rcases hresult : (p.compileSheet sheet).value with error | compiled
  · exact Compiled.faithful_empty
  · exact Compiler.faithful_of_compile h.plain (fun _ _ => mem_of_lookup) hresult

/-- Revising keeps a package consistent: nothing is moved, and what is compiled anew is faithful. -/
theorem Consistent.revise (h : p.Consistent) {f : Sheet → Sheet} (hf : p.Revises f) :
    (p.revise f hf.location).Consistent := by
  refine ⟨h.plain, fun sheet hmem => ?_, fun sheet hmem => ?_⟩
  · obtain ⟨before, hbefore, rfl⟩ := List.mem_map.1 hmem
    rw [hf.location]
    exact h.located before hbefore
  · obtain ⟨before, hbefore, rfl⟩ := List.mem_map.1 hmem
    rw [map_location_revise]
    rcases hf.compiled before with hkept | hnew
    · rw [hkept]
      exact h.faithful before hbefore
    · rw [hnew]
      exact h.faithful_compiledOf before

/-! ### Whole histories -/

theorem historyInvariant_consistent : HistoryInvariant Consistent where
  insertAt _ location source h := h.insertAt location source
  revise _ _ hf h := h.revise hf

/-- **Every package is consistent**, whatever was done with it since it was empty. -/
theorem consistent_performAll {transforms : Transforms} (hplain : transforms.Plain) (path : Text)
    (options : Options) (operations : List Operation) :
    ((Package.empty path options transforms).performAll operations).Consistent :=
  historyInvariant_consistent.performAll (consistent_empty hplain path options) operations

theorem historyInvariant_transforms (transforms : Transforms) :
    HistoryInvariant fun p => p.transforms = transforms where
  insertAt _ _ _ h := h
  revise _ _ _ h := h

/-- No operation changes the transforms. -/
theorem transforms_performAll (transforms : Transforms) (path : Text) (options : Options)
    (operations : List Operation) :
    ((Package.empty path options transforms).performAll operations).transforms = transforms :=
  (historyInvariant_transforms transforms).performAll (p := Package.empty path options transforms)
    rfl operations

end Package

end MiniSheet
