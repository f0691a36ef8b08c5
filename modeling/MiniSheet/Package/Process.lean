import MiniSheet.Package.Basic
import MiniSheet.Package.ImportGraph

/-!
# Processing a package

A package is compiled as a whole: every stylesheet against the package as it stands, so that their
order does not matter, and a stylesheet that fails is left empty without holding up the others. Then
the graph of imports is checked, and the stylesheets that stand alone are marked.

A stylesheet stands alone if nothing imports it, unless it is the entry and has a source. If there
is a cycle, no stylesheet does.
-/

namespace MiniSheet

/-- Why a package could not be processed. -/
inductive ProcessError where
  /-- stylesheets that do not compile, in the order they were registered -/
  | compile (errors : List CompileError)
  /-- imports that lead back to where they started -/
  | cyclic (cycle : ImportCycle)
  deriving Repr, DecidableEq

/-- The failures of a package in words. -/
def CompileError.summary (errors : List CompileError) : String :=
  s!"{errors.length} stylesheet(s) failed to compile: " ++
    String.intercalate "; " (errors.map CompileError.message)

/-- The error in words. -/
def ProcessError.message : ProcessError → String
  | compile errors => CompileError.summary errors
  | cyclic cycle => cycle.message

namespace Package

/-! ## Compiling -/

/-- What a stylesheet of the package is compiled with. -/
def compiler (p : Package) (sheet : Sheet) : Compiler := ⟨sheet.location, p.lookup, p.transforms⟩

/-- Compile one stylesheet of the package. -/
def compileSheet (p : Package) (sheet : Sheet) : Logged (Except CompileError Compiled) :=
  (p.compiler sheet).compile (sheet.source.getD [])

/-! ### Taking over what was compiled -/

/-- Note an import with the stylesheet that it leads to. The index tells the place of that. -/
def noteImport (index : List (Location × Nat)) (sheets : List Sheet) (edge : ImportEdge) :
    List Sheet :=
  match index.lookup edge.target with
  | some place => sheets.modify place fun sheet => sheet.addImporter ⟨edge.source, edge.span⟩
  | none => sheets

/-- Take over what the stylesheet at a place compiled to: note its imports one by one, then replace
its own output. -/
def takeOutput (index : List (Location × Nat)) (sheets : List Sheet) (place : Nat)
    (compiled : Compiled) : List Sheet :=
  (compiled.imports.foldl (noteImport index) sheets).modify place
    fun sheet => sheet.setCompiled compiled

/-- What has become of the stylesheets, and the failures among the results so far. -/
structure Progress where
  /-- the stylesheets -/
  sheets : List Sheet
  /-- the failures, in the order of the stylesheets -/
  failures : List CompileError := []

/-- Take over the result for the stylesheet at a place. A failure is noted, and stands for an empty
output. -/
def takeResult (index : List (Location × Nat)) (progress : Progress)
    (entry : Except CompileError Compiled × Nat) : Progress :=
  match entry.1 with
  | .ok compiled => { progress with sheets := takeOutput index progress.sheets entry.2 compiled }
  | .error error =>
    { sheets := takeOutput index progress.sheets entry.2 {},
      failures := progress.failures ++ [error] }

/-- Take over the results for all stylesheets, in order, after everything that was known of their
importers is forgotten. -/
def takeResults (index : List (Location × Nat)) (sheets : List Sheet)
    (results : List (Except CompileError Compiled)) : Progress :=
  results.zipIdx.foldl (takeResult index) { sheets := sheets.map Sheet.clearImporters }

/-! Whatever is taken over, no stylesheet is moved. -/

theorem map_location_modify (sheets : List Sheet) (place : Nat) (f : Sheet → Sheet)
    (hf : ∀ sheet, (f sheet).location = sheet.location) :
    (sheets.modify place f).map Sheet.location = sheets.map Sheet.location := by
  refine List.ext_getElem? fun i => ?_
  rw [List.getElem?_map, List.getElem?_map, List.getElem?_modify]
  cases sheets[i]? with
  | none => rfl
  | some sheet =>
    refine congrArg some ?_
    dsimp only
    split
    · exact hf sheet
    · rfl

theorem map_location_noteImport (index : List (Location × Nat)) (sheets : List Sheet)
    (edge : ImportEdge) :
    (noteImport index sheets edge).map Sheet.location = sheets.map Sheet.location := by
  rw [noteImport]
  split
  · exact map_location_modify _ _ _ fun _ => rfl
  · rfl

theorem map_location_takeOutput (index : List (Location × Nat)) (sheets : List Sheet) (place : Nat)
    (compiled : Compiled) :
    (takeOutput index sheets place compiled).map Sheet.location = sheets.map Sheet.location := by
  refine (map_location_modify _ _ (·.setCompiled compiled) fun _ => rfl).trans ?_
  generalize compiled.imports = edges
  induction edges generalizing sheets with
  | nil => rfl
  | cons edge edges ih => rw [List.foldl_cons, ih, map_location_noteImport]

theorem map_location_takeResults (index : List (Location × Nat)) (sheets : List Sheet)
    (results : List (Except CompileError Compiled)) :
    (takeResults index sheets results).sheets.map Sheet.location = sheets.map Sheet.location := by
  have hfold (entries : List (Except CompileError Compiled × Nat)) (progress : Progress) :
      (entries.foldl (takeResult index) progress).sheets.map Sheet.location =
        progress.sheets.map Sheet.location := by
    induction entries generalizing progress with
    | nil => rfl
    | cons entry entries ih =>
      rw [List.foldl_cons, ih, takeResult]
      split <;> exact map_location_takeOutput ..
  rw [takeResults, hfold]
  exact map_location_map sheets fun _ => rfl

/-- Compile every stylesheet. The failures come in the order the stylesheets were registered. -/
def compileAll (p : Package) : Logged (Package × List CompileError) :=
  let results := p.sheets.map p.compileSheet
  let progress := takeResults p.index p.sheets (results.map Logged.value)
  let errors := progress.failures
  let summary := s!"PACKAGE: compiled {p.sheets.length} stylesheet(s), {errors.length} failed"
  let compiled : Package :=
    { p with
      sheets := progress.sheets
      indexed := by
        rw [map_location_takeResults]
        exact p.indexed }
  { value := (compiled, errors)
    records := results.flatMap Logged.records ++
      errors.map (fun error => ⟨.warn, "COMPILE: " ++ error.message⟩) ++ [⟨.info, summary⟩] }

/-! ## Checking the import graph -/

/-- Whether a stylesheet stands alone in a package without cycles. -/
def standsAlone (sheet : Sheet) : Bool :=
  sheet.importers.isEmpty && (!sheet.isEntry || !sheet.hasSource)

/-- Check the import graph and mark the stylesheets that stand alone. -/
def resolveGraph (p : Package) : Logged (Package × Option ImportCycle) :=
  match ImportGraph.check p.sheets with
  | .error cycle => do
    Logged.record .warn ("GRAPH: " ++ cycle.message)
    return (p.revise (fun sheet => { sheet with isIndependent := false }) fun _ => rfl, some cycle)
  | .ok () => do
    let p := p.revise (fun sheet => { sheet with isIndependent := standsAlone sheet }) fun _ => rfl
    Logged.record .debug
      s!"GRAPH: {p.independent.length} of {p.sheets.length} stylesheet(s) independent"
    return (p, none)

/-- Compile every stylesheet, then check the import graph. A package with a stylesheet that does not
compile is not checked. -/
def process (p : Package) : Logged (Package × Option ProcessError) := do
  let (p, errors) ← p.compileAll
  if errors.isEmpty then
    let (p, cycle) ← p.resolveGraph
    return (p, cycle.map ProcessError.cyclic)
  else return (p, some (.compile errors))

end Package

end MiniSheet
