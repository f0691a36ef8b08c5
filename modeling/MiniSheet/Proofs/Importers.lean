import MiniSheet.Package.Process

/-!
# Who imports a stylesheet

The results of compiling are taken over one after the other. Each result touches stylesheets all
over the package: its imports are noted with the stylesheets they lead to, among them some whose own
result was taken over before and some whose turn is yet to come. Only then is the output of the
stylesheet itself replaced.

In the end the importers of a stylesheet are the imports made of it, by whichever stylesheet, in
order (`Package.takeResults_eq`). This rests on the index: it leads from the target of an import to
the one stylesheet that lies there (`Package.noteImport_eq_map`). From there on it is an induction
over the imports of a stylesheet (`Package.foldl_noteImport`), and one over the results
(`Package.foldl_takeResult`).
-/

namespace MiniSheet

namespace Package

/-! ## What the results come to -/

/-- The failures among results. -/
def failures (results : List (Except CompileError Compiled)) : List CompileError :=
  results.filterMap fun result =>
    match result with
    | .ok _ => none
    | .error error => some error

/-- What a result comes to; a failure to nothing. -/
def output (result : Except CompileError Compiled) : Compiled :=
  match result with
  | .ok compiled => compiled
  | .error _ => {}

/-- All imports that results make, in order. -/
def importsOf (results : List (Except CompileError Compiled)) : List ImportEdge :=
  results.flatMap fun result => (output result).imports

/-- The imports made of a stylesheet, out of all imports. -/
def importersOf (edges : List ImportEdge) (location : Location) : List Importer :=
  (edges.filter fun edge => edge.target == location).map fun edge => ⟨edge.source, edge.span⟩

/-- A stylesheet that is imported by further imports. -/
def importedBy (edges : List ImportEdge) (sheet : Sheet) : Sheet :=
  { sheet with importers := sheet.importers ++ importersOf edges sheet.location }

theorem importedBy_nil (sheet : Sheet) : importedBy [] sheet = sheet := by
  rw [importedBy, importersOf, List.filter_nil, List.map_nil, List.append_nil]

theorem importedBy_importedBy (edges edges' : List ImportEdge) (sheet : Sheet) :
    importedBy edges' (importedBy edges sheet) = importedBy (edges ++ edges') sheet := by
  simp only [importedBy, importersOf, List.filter_append, List.map_append, List.append_assoc]

/-- A single import leaves a stylesheet alone, unless it leads there. -/
theorem importedBy_singleton (edge : ImportEdge) (sheet : Sheet) : importedBy [edge] sheet =
    if edge.target = sheet.location then sheet.addImporter ⟨edge.source, edge.span⟩ else sheet := by
  by_cases h : edge.target = sheet.location
  · simp [importedBy, importersOf, Sheet.addImporter, h]
  · simp [importedBy, importersOf, h]

theorem importedBy_setCompiled (edges : List ImportEdge) (sheet : Sheet) (compiled : Compiled) :
    importedBy edges (sheet.setCompiled compiled) = (importedBy edges sheet).setCompiled compiled :=
  rfl

theorem map_location_importedBy (edges : List ImportEdge) (sheets : List Sheet) :
    (sheets.map (importedBy edges)).map Sheet.location = sheets.map Sheet.location :=
  List.map_map

/-! ## Taking the results over -/

variable {index : List (Location × Nat)}

/-- An import is noted with the stylesheet it leads to, and with no other: the index leads there and
nowhere else. -/
theorem noteImport_eq_map {sheets : List Sheet} (h : Indexes index (sheets.map Sheet.location))
    (edge : ImportEdge) : noteImport index sheets edge = sheets.map (importedBy [edge]) := by
  refine List.ext_getElem? fun i => ?_
  rw [List.getElem?_map, noteImport]
  have hplace := h edge.target i
  rw [List.getElem?_map] at hplace
  cases hsheet : sheets[i]? with
  | none =>
    split
    · rw [List.getElem?_modify, hsheet]
      rfl
    · exact hsheet
  | some sheet =>
    rw [hsheet, Option.map_some, Option.some_inj] at hplace
    rw [Option.map_some, importedBy_singleton]
    split
    · rename_i place hlookup
      rw [hlookup, Option.some_inj] at hplace
      rw [List.getElem?_modify, hsheet]
      simp only [hplace, eq_comm, Option.map_eq_map, Option.map_some]
    · rename_i hlookup
      have hother : edge.target ≠ sheet.location := by
        intro htarget
        rw [hlookup, ← htarget, eq_self_iff_true, iff_true] at hplace
        cases hplace
      rw [if_neg hother, hsheet]

/-- The imports of a stylesheet are noted with the stylesheets they lead to, in order. -/
theorem foldl_noteImport {sheets : List Sheet} (h : Indexes index (sheets.map Sheet.location))
    (edges : List ImportEdge) :
    edges.foldl (noteImport index) sheets = sheets.map (importedBy edges) := by
  induction edges generalizing sheets with
  | nil => rw [List.foldl_nil, funext importedBy_nil, List.map_id']
  | cons edge edges ih =>
    rw [List.foldl_cons, noteImport_eq_map h, ih (by rw [map_location_importedBy]; exact h),
      List.map_map]
    refine List.map_congr_left fun sheet _ => ?_
    exact importedBy_importedBy [edge] edges sheet

theorem modify_append_cons {α : Type} (front back : List α) (a : α) (f : α → α) :
    (front ++ a :: back).modify front.length f = front ++ f a :: back := by
  induction front with
  | nil => rfl
  | cons b front ih => exact congrArg (b :: ·) ih

/-- Taking over an output touches the stylesheets that are imported, and the stylesheet itself. -/
theorem takeOutput_eq {front back : List Sheet} {sheet : Sheet}
    (h : Indexes index ((front ++ sheet :: back).map Sheet.location)) (compiled : Compiled) :
    takeOutput index (front ++ sheet :: back) front.length compiled =
      front.map (importedBy compiled.imports) ++
        (importedBy compiled.imports sheet).setCompiled compiled ::
          back.map (importedBy compiled.imports) := by
  rw [takeOutput, foldl_noteImport h, List.map_append, List.map_cons,
    ← List.length_map (importedBy compiled.imports), modify_append_cons]

theorem takeResult_eq (progress : Progress) (result : Except CompileError Compiled) (place : Nat) :
    takeResult index progress (result, place) =
      ⟨takeOutput index progress.sheets place (output result),
        progress.failures ++ failures [result]⟩ := by
  cases result with
  | ok compiled =>
    rw [show failures [.ok compiled] = [] from rfl, List.append_nil]
    rfl
  | error error => rfl

/-- **Halfway through**, the stylesheets whose results were taken over before only gain importers
from the remaining results. The others gain them as well, and each gets its own output. -/
theorem foldl_takeResult {front back : List Sheet} {results : List (Except CompileError Compiled)}
    (hlength : back.length = results.length)
    (h : Indexes index ((front ++ back).map Sheet.location)) (errors : List CompileError) :
    (results.zipIdx front.length).foldl (takeResult index) ⟨front ++ back, errors⟩ =
      ⟨front.map (importedBy (importsOf results)) ++
          List.zipWith (fun sheet result =>
            (importedBy (importsOf results) sheet).setCompiled (output result)) back results,
        errors ++ failures results⟩ := by
  induction results generalizing front back errors with
  | nil =>
    obtain rfl := List.length_eq_zero_iff.1 hlength
    have hedges : importsOf [] = [] := rfl
    have hfailures : failures [] = [] := rfl
    rw [hedges, hfailures, funext importedBy_nil, List.map_id', List.zipWith_nil_left,
      List.append_nil, List.append_nil]
    rfl
  | cons result results ih =>
    obtain ⟨sheet, back, rfl⟩ := List.exists_cons_of_length_eq_add_one hlength
    -- after this result the stylesheet is one of those in front
    let imported := importedBy (output result).imports
    let front' := front.map imported ++ [(imported sheet).setCompiled (output result)]
    have hfront' : front'.length = front.length + 1 := by
      rw [List.length_append, List.length_map, List.length_singleton]
    have hindexes : Indexes index ((front' ++ back.map imported).map Sheet.location) := by
      rw [List.append_assoc, List.singleton_append, ← takeOutput_eq h, map_location_takeOutput]
      exact h
    have hcompose (sheet : Sheet) :
        importedBy (importsOf results) (imported sheet) =
          importedBy (importsOf (result :: results)) sheet :=
      (importedBy_importedBy ..).trans (by rw [importsOf, importsOf, List.flatMap_cons])
    calc
      ((result :: results).zipIdx front.length).foldl (takeResult index)
          ⟨front ++ sheet :: back, errors⟩
      _ = (results.zipIdx front'.length).foldl (takeResult index)
            ⟨front' ++ back.map imported, errors ++ failures [result]⟩ := by
        rw [List.zipIdx_cons, List.foldl_cons, takeResult_eq, takeOutput_eq h, hfront',
          List.append_assoc]
        rfl
      _ = _ := by
        rw [ih (by simpa using hlength) hindexes, List.append_assoc errors, Progress.mk.injEq]
        refine ⟨?_, congrArg (errors ++ ·) List.filterMap_append.symm⟩
        simp only [front', List.map_append, List.map_map, List.map_singleton, Function.comp_def,
          importedBy_setCompiled, hcompose, List.zipWith_map_left, List.zipWith_cons_cons,
          List.append_assoc, List.singleton_append]

/-- **The importers are the imports turned around**: if the index is right, each stylesheet gets its
own output and all imports made of it, and nothing is left of what was there before. -/
theorem takeResults_eq {sheets : List Sheet} (h : Indexes index (sheets.map Sheet.location))
    {results : List (Except CompileError Compiled)} (hlength : sheets.length = results.length) :
    takeResults index sheets results =
      ⟨List.zipWith
          (fun sheet result =>
            { sheet with
              compiled := output result
              importers := importersOf (importsOf results) sheet.location })
          sheets results,
        failures results⟩ := by
  have hcleared : Indexes index (([] ++ sheets.map Sheet.clearImporters).map Sheet.location) := by
    rw [List.nil_append, List.map_map]
    exact h
  have hfold := foldl_takeResult ((List.length_map _).trans hlength) hcleared []
  rw [List.map_nil, List.nil_append, List.nil_append, List.nil_append,
    List.zipWith_map_left] at hfold
  exact hfold

end Package

end MiniSheet
