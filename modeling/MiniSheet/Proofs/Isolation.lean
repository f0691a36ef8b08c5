import Mathlib.Data.List.Perm.Basic
import MiniSheet.Proofs.ImportSites
import MiniSheet.Proofs.PackageHistory

/-!
# Stylesheets compile on their own

All that a stylesheet sees of its package while it is compiled is the root, the transforms, and
which locations are taken (`Package.SameSurroundings`). So what it compiles to depends on its own
location and source and on those alone (`Package.compileSheet_congr`): neither on the order in which
stylesheets were registered, nor on what the others contain or whether they compile, nor on what was
compiled before.

Checking the graph of imports does visit the stylesheets in order. But all that the outcome depends
on is the *footing* of each stylesheet: where it lies, what it imports and whether it stands alone
(`Package.resolvesAlike_of_footings`). The footings of stylesheets are the same in every order.
-/

namespace MiniSheet

/-- A stylesheet as it was registered, before anything was made of it. -/
def Sheet.asRegistered (sheet : Sheet) : Sheet :=
  { location := sheet.location, source := sheet.source, isEntry := sheet.isEntry }

namespace Package

variable {p p' : Package}

/-! ## What a stylesheet sees of its package -/

/-- Stylesheets of the two packages are compiled in the same surroundings. -/
structure SameSurroundings (p p' : Package) : Prop where
  /-- paths are taken from the same root -/
  root : p.root = p'.root
  /-- the same transforms apply -/
  transforms : p.transforms = p'.transforms
  /-- the same locations are taken -/
  locations : ∀ location, location ∈ p.sheets.map Sheet.location ↔
    location ∈ p'.sheets.map Sheet.location

/-- A lookup finds a location if it is taken. -/
theorem lookup_eq_some_iff {place target : Location} :
    p.lookup place = some target ↔
      target = p.root.join place ∧ target ∈ p.sheets.map Sheet.location := by
  constructor
  · intro h
    refine ⟨?_, mem_of_lookup h⟩
    obtain ⟨sheet, hat, rfl⟩ := Option.map_eq_some_iff.1 h
    exact location_of_at? hat
  · rintro ⟨rfl, hmem⟩
    obtain ⟨sheet, hsheet, hlocation⟩ := List.mem_map.1 hmem
    obtain ⟨found, hfound⟩ := Sheets.exists_find?_of_mem hsheet
    rw [hlocation] at hfound
    have hat : p.at? place = some found := hfound
    rw [lookup, hat, Option.map_some, location_of_at? hat]

theorem SameSurroundings.lookup_eq (h : p.SameSurroundings p') : p.lookup = p'.lookup := by
  funext place
  ext target
  rw [lookup_eq_some_iff, lookup_eq_some_iff, h.root, h.locations]

/-- **Stylesheets compile on their own**: two stylesheets at the same location and with the same
source, in the same surroundings, compile alike. -/
theorem compileSheet_congr (h : p.SameSurroundings p') {sheet sheet' : Sheet}
    (hlocation : sheet.location = sheet'.location) (hsource : sheet.source = sheet'.source) :
    p.compileSheet sheet = p'.compileSheet sheet' := by
  rw [compileSheet, compileSheet, compiler, compiler, h.lookup_eq, h.transforms, hlocation, hsource]

theorem compiledOf_congr (h : p.SameSurroundings p') {sheet sheet' : Sheet}
    (hlocation : sheet.location = sheet'.location) (hsource : sheet.source = sheet'.source) :
    p.compiledOf sheet = p'.compiledOf sheet' := by
  rw [compiledOf, compiledOf, compileSheet_congr h hlocation hsource]

/-- A revision takes no location and frees none. -/
theorem sameSurroundings_revise (p : Package) {f : Sheet → Sheet}
    (hf : ∀ sheet, (f sheet).location = sheet.location) : (p.revise f hf).SameSurroundings p :=
  ⟨rfl, rfl, fun location => by rw [map_location_revise]⟩

/-! ## Compiling again -/

theorem sheets_compileAll (p : Package) :
    p.compileAll.value.1.sheets = p.sheets.map p.recompiled := by
  rw [compileAll_eq]
  rfl

theorem sameSurroundings_compileAll (p : Package) : p.compileAll.value.1.SameSurroundings p := by
  rw [compileAll_eq]
  exact p.sameSurroundings_revise p.location_recompiled

/-- A stylesheet that was compiled compiles as it did before. -/
theorem compileSheet_recompiled (p : Package) (sheet : Sheet) :
    p.compileAll.value.1.compileSheet (p.recompiled sheet) = p.compileSheet sheet :=
  compileSheet_congr p.sameSurroundings_compileAll rfl rfl

theorem compiledOf_recompiled (p : Package) (sheet : Sheet) :
    p.compileAll.value.1.compiledOf (p.recompiled sheet) = p.compiledOf sheet :=
  compiledOf_congr p.sameSurroundings_compileAll rfl rfl

theorem edges_compileAll (p : Package) : p.compileAll.value.1.edges = p.edges := by
  rw [edges, sheets_compileAll, List.flatMap_map, edges]
  simp only [compiledOf_recompiled]

/-- Compiling once more changes nothing and fails in the same way. -/
theorem compileAll_compileAll (p : Package) :
    p.compileAll.value.1.compileAll.value = p.compileAll.value := by
  have hsheets : p.compileAll.value.1.sheets.map p.compileAll.value.1.recompiled =
      p.sheets.map p.recompiled := by
    rw [sheets_compileAll, List.map_map]
    refine List.map_congr_left fun sheet _ => ?_
    rw [Function.comp_apply, recompiled, compiledOf_recompiled, edges_compileAll]
    rfl
  have hresults :
      (p.compileAll.value.1.sheets.map fun sheet =>
          (p.compileAll.value.1.compileSheet sheet).value) =
        p.sheets.map fun sheet => (p.compileSheet sheet).value := by
    rw [sheets_compileAll, List.map_map]
    exact List.map_congr_left fun sheet _ => by rw [Function.comp_apply, compileSheet_recompiled]
  rw [compileAll_eq p.compileAll.value.1, hresults]
  refine Prod.ext ?_ (congrArg Prod.snd p.compileAll_eq).symm
  rw [compileAll_eq p] at hsheets ⊢
  exact Package.ext rfl rfl rfl hsheets rfl

/-! ## Failures -/

/-- Whether a stylesheet does not compile. -/
def fails (p : Package) (sheet : Sheet) : Bool := !(p.compileSheet sheet).value.isOk

theorem fails_of_error {sheet : Sheet} {error : CompileError}
    (h : (p.compileSheet sheet).value = .error error) : p.fails sheet = true := by
  rw [fails, h]
  rfl

theorem not_fails_of_ok {sheet : Sheet} {compiled : Compiled}
    (h : (p.compileSheet sheet).value = .ok compiled) : p.fails sheet = false := by
  rw [fails, h]
  rfl

/-- A stylesheet that does not compile is left empty. -/
theorem compiledOf_of_fails {sheet : Sheet} (h : p.fails sheet = true) :
    p.compiledOf sheet = {} := by
  rcases hresult : (p.compileSheet sheet).value with error | compiled
  · rw [compiledOf, hresult]
    rfl
  · rw [not_fails_of_ok hresult] at h
    cases h

/-- An import that was made was made by a stylesheet that compiled, and is put down to it. -/
theorem exists_source_of_mem_edges {edge : ImportEdge} (h : edge ∈ p.edges) :
    ∃ sheet ∈ p.sheets, p.fails sheet = false ∧ edge.source = sheet.location := by
  obtain ⟨sheet, hsheet, hedge⟩ := List.mem_flatMap.1 h
  rcases hresult : (p.compileSheet sheet).value with error | compiled
  · rw [compiledOf_of_fails (fails_of_error hresult)] at hedge
    cases hedge
  · rw [compiledOf, hresult] at hedge
    exact ⟨sheet, hsheet, not_fails_of_ok hresult, Compiler.source_of_compile hresult edge hedge⟩

theorem mem_importersOf {edges : List ImportEdge} {location : Location} {importer : Importer} :
    importer ∈ importersOf edges location ↔
      ∃ edge ∈ edges, edge.target = location ∧ importer = ⟨edge.source, edge.span⟩ := by
  rw [importersOf, List.mem_map]
  constructor
  · rintro ⟨edge, hedge, rfl⟩
    obtain ⟨hmem, htarget⟩ := List.mem_filter.1 hedge
    exact ⟨edge, hmem, beq_iff_eq.1 htarget, rfl⟩
  · rintro ⟨edge, hmem, htarget, rfl⟩
    exact ⟨edge, List.mem_filter.2 ⟨hmem, beq_iff_eq.2 htarget⟩, rfl⟩

/-- A stylesheet that does not compile leaves no trace: it ends up empty, and no import is put down
to it. -/
theorem no_trace_of_fails {sheet after : Sheet} (hsheet : sheet ∈ p.sheets)
    (hfails : p.fails sheet = true) (hafter : after ∈ p.compileAll.value.1.sheets) :
    (after.location = sheet.location → after.compiled = {}) ∧
      ∀ importer ∈ after.importers, importer.source ≠ sheet.location := by
  rw [sheets_compileAll] at hafter
  obtain ⟨before, hbefore, rfl⟩ := List.mem_map.1 hafter
  constructor
  · intro hlocation
    obtain rfl : before = sheet := List.inj_on_of_nodup_map p.distinct hbefore hsheet hlocation
    exact compiledOf_of_fails hfails
  · intro importer himporter hsource
    obtain ⟨edge, hedge, -, rfl⟩ := mem_importersOf.1 himporter
    obtain ⟨source, hmem, hok, hedgesource⟩ := exists_source_of_mem_edges hedge
    -- the import was made by a stylesheet that compiled, and there is only one at its location
    obtain rfl : source = sheet :=
      List.inj_on_of_nodup_map p.distinct hmem hsheet (hedgesource.symm.trans hsource)
    rw [hfails] at hok
    cases hok

/-- There is one failure for each stylesheet that does not compile, in order, and it names it. -/
theorem forall₂_failures (p : Package) (sheets : List Sheet) :
    List.Forall₂ (fun sheet error =>
        (p.compileSheet sheet).value = .error error ∧ error.sheet = sheet.location)
      (sheets.filter p.fails)
      (failures (sheets.map fun sheet => (p.compileSheet sheet).value)) := by
  induction sheets with
  | nil => exact .nil
  | cons sheet sheets ih =>
    rcases hresult : (p.compileSheet sheet).value with error | compiled
    · rw [List.filter_cons_of_pos (fails_of_error hresult), List.map_cons, hresult]
      exact .cons ⟨hresult, Compiler.sheet_of_compile hresult⟩ ih
    · rw [List.filter_cons_of_neg (by rw [not_fails_of_ok hresult]; exact Bool.false_ne_true),
        List.map_cons, hresult]
      exact ih

/-! ## Checking in another order -/

/-- What the check makes of a stylesheet. -/
structure Footing where
  /-- where it lies -/
  location : Location
  /-- what it imports -/
  targets : List Location
  /-- whether it stands alone if there is no cycle -/
  standsAlone : Bool

/-- The footing of a stylesheet. -/
def footing (sheet : Sheet) : Footing where
  location := sheet.location
  targets := sheet.compiled.imports.map (·.target)
  standsAlone := standsAlone sheet

/-- The check passes for both packages or for neither, and if it does, it marks stylesheets at the
same locations. -/
structure ResolvesAlike (p p' : Package) : Prop where
  /-- the check passes for both or for neither -/
  passes : p.resolveGraph.value.2 = none ↔ p'.resolveGraph.value.2 = none
  /-- the same locations are marked, possibly in another order -/
  independent : p.resolveGraph.value.2 = none →
    (p.resolveGraph.value.1.independent.map Sheet.location).Perm
      (p'.resolveGraph.value.1.independent.map Sheet.location)

/-- Who imports whom can be read off the footings. -/
theorem imports_iff_footing {sheets : List Sheet} {a b : Location} : Sheets.Imports sheets a b ↔
    ∃ source ∈ sheets.map footing, ∃ target ∈ sheets.map footing,
      source.location = a ∧ target.location = b ∧ b ∈ source.targets := by
  constructor
  · rintro ⟨source, hsource, target, htarget, ha, hb, edge, hedge, hedgeb⟩
    exact ⟨footing source, List.mem_map_of_mem hsource, footing target,
      List.mem_map_of_mem htarget, ha, hb, List.mem_map.2 ⟨edge, hedge, hedgeb⟩⟩
  · rintro ⟨_, hfrom, _, hto, ha, hb, hmem⟩
    obtain ⟨source, hsource, rfl⟩ := List.mem_map.1 hfrom
    obtain ⟨target, htarget, rfl⟩ := List.mem_map.1 hto
    obtain ⟨edge, hedge, hedgeb⟩ := List.mem_map.1 hmem
    exact ⟨source, hsource, target, htarget, ha, hb, edge, hedge, hedgeb⟩

theorem imports_eq_of_footings {sheets sheets' : List Sheet}
    (h : (sheets.map footing).Perm (sheets'.map footing)) :
    Sheets.Imports sheets = Sheets.Imports sheets' := by
  funext a b
  refine propext ?_
  rw [imports_iff_footing, imports_iff_footing]
  simp only [h.mem_iff]

/-- The stylesheets that are marked are those whose footing stands alone. -/
theorem independent_of_check (h : ImportGraph.check p.sheets = .ok ()) :
    p.resolveGraph.value.1.independent.map Sheet.location =
      ((p.sheets.map footing).filter Footing.standsAlone).map Footing.location := by
  rw [resolveGraph_of_check_eq_ok h, independent, revise, List.filter_map, List.filter_map,
    List.map_map, List.map_map]
  rfl

/-- The footings decide what the check says. -/
theorem resolvesAlike_of_footings (h : (p.sheets.map footing).Perm (p'.sheets.map footing)) :
    p.ResolvesAlike p' := by
  have hpasses : p.resolveGraph.value.2 = none ↔ p'.resolveGraph.value.2 = none := by
    rw [resolveGraph_eq_none_iff_check, resolveGraph_eq_none_iff_check,
      ImportGraph.check_eq_ok_iff p.distinct, ImportGraph.check_eq_ok_iff p'.distinct,
      Sheets.HasCycle, Sheets.HasCycle, imports_eq_of_footings h]
  refine ⟨hpasses, fun hnone => ?_⟩
  rw [independent_of_check (resolveGraph_eq_none_iff_check.1 hnone),
    independent_of_check (resolveGraph_eq_none_iff_check.1 (hpasses.1 hnone))]
  exact (h.filter _).map _

/-! ## Registering in another order -/

/-- Both packages have the same stylesheets, registered in any order and compiled with the same
transforms. -/
structure Reordered (p p' : Package) : Prop where
  /-- paths are taken from the same root -/
  root : p.root = p'.root
  /-- the same transforms apply -/
  transforms : p.transforms = p'.transforms
  /-- the same stylesheets were registered -/
  sheets : (p.sheets.map Sheet.asRegistered).Perm (p'.sheets.map Sheet.asRegistered)

theorem Reordered.sameSurroundings (h : p.Reordered p') : p.SameSurroundings p' := by
  refine ⟨h.root, h.transforms, fun location => ?_⟩
  have hlocations := (h.sheets.map Sheet.location).mem_iff (a := location)
  rw [List.map_map, List.map_map] at hlocations
  exact hlocations

/-- The same imports are made, in another order. -/
theorem Reordered.edges (h : p.Reordered p') : p.edges.Perm p'.edges := by
  have hcompiled : p.compiledOf = p'.compiledOf :=
    funext fun _ => compiledOf_congr h.sameSurroundings rfl rfl
  have hedges := h.sheets.flatMap_right fun sheet => (p.compiledOf sheet).imports
  rw [List.flatMap_map, List.flatMap_map] at hedges
  rw [Package.edges, Package.edges, ← hcompiled]
  exact hedges

/-- The footing of a stylesheet that was compiled anew is that of any stylesheet registered like
it. -/
theorem Reordered.footing_recompiled (h : p.Reordered p') {sheet sheet' : Sheet}
    (hsheet : sheet.asRegistered = sheet'.asRegistered) :
    footing (p.recompiled sheet) = footing (p'.recompiled sheet') := by
  obtain ⟨hlocation, hsource, hentry⟩ : sheet.location = sheet'.location ∧
      sheet.source = sheet'.source ∧ sheet.isEntry = sheet'.isEntry := by
    simpa [Sheet.asRegistered] using hsheet
  have hcompiled : p.compiledOf sheet = p'.compiledOf sheet' :=
    compiledOf_congr h.sameSurroundings hlocation hsource
  have himporters : (importersOf p.edges sheet'.location).isEmpty =
      (importersOf p'.edges sheet'.location).isEmpty :=
    ((h.edges.filter _).map _).isEmpty_eq
  simp only [footing, Package.standsAlone, recompiled, Sheet.hasSource, hlocation, hsource,
    hentry, hcompiled, himporters]

/-- The stylesheets have the same footings once they are compiled. -/
theorem Reordered.footings (h : p.Reordered p') :
    (p.compileAll.value.1.sheets.map footing).Perm (p'.compileAll.value.1.sheets.map footing) := by
  have hrefl : p.Reordered p := ⟨rfl, rfl, .refl _⟩
  rw [sheets_compileAll, sheets_compileAll, List.map_map, List.map_map]
  calc p.sheets.map (footing ∘ p.recompiled)
    _ = (p.sheets.map Sheet.asRegistered).map (footing ∘ p.recompiled) := by
      rw [List.map_map]
      exact List.map_congr_left fun _ _ => hrefl.footing_recompiled rfl
    List.Perm _ ((p'.sheets.map Sheet.asRegistered).map (footing ∘ p.recompiled)) := h.sheets.map _
    _ = p'.sheets.map (footing ∘ p'.recompiled) := by
      rw [List.map_map]
      exact List.map_congr_left fun _ _ => h.footing_recompiled rfl

/-! ## Whole packages -/

/-- **Compiling isolates the stylesheets of a package**, whatever was done with it before. What a
stylesheet is compiled to depends on its own location and source, and on its surroundings; another
package with the same surroundings may have registered other sources, in another order, and compiled
anything before. A stylesheet that does not compile leaves no trace and is reported once, in the
order of registration. Compiling again changes nothing. And if the same stylesheets were registered
in another order, checking says the same. -/
theorem compileAll_isolates_stylesheets (transforms : Transforms) (path : Text) (options : Options)
    (operations : List Operation) :
    let p := (Package.empty path options transforms).performAll operations
    let compiled := p.compileAll.value.1
    (∀ p', p.SameSurroundings p' →
        ∀ sheet ∈ compiled.sheets, ∀ sheet' ∈ p'.compileAll.value.1.sheets,
          sheet.location = sheet'.location → sheet.source = sheet'.source →
            sheet.compiled = sheet'.compiled) ∧
      (∀ sheet ∈ p.sheets, p.fails sheet = true → ∀ after ∈ compiled.sheets,
        (after.location = sheet.location → after.compiled = {}) ∧
          ∀ importer ∈ after.importers, importer.source ≠ sheet.location) ∧
      List.Forall₂ (fun sheet error => (p.compileSheet sheet).value = .error error ∧
        error.sheet = sheet.location)
        (p.sheets.filter p.fails) p.compileAll.value.2 ∧
      compiled.compileAll.value = p.compileAll.value ∧
      (∀ p', p.Reordered p' → compiled.ResolvesAlike p'.compileAll.value.1) ∧
      ∀ p', p.sheets.Perm p'.sheets → p.ResolvesAlike p' := by
  intro p compiled
  refine ⟨fun p' hsame sheet hsheet sheet' hsheet' hlocation hsource => ?_,
    fun sheet hsheet hfails after hafter => no_trace_of_fails hsheet hfails hafter, ?_,
    p.compileAll_compileAll, fun p' hreordered => resolvesAlike_of_footings hreordered.footings,
    fun p' hperm => resolvesAlike_of_footings (hperm.map _)⟩
  · rw [sheets_compileAll] at hsheet hsheet'
    obtain ⟨before, -, rfl⟩ := List.mem_map.1 hsheet
    obtain ⟨before', -, rfl⟩ := List.mem_map.1 hsheet'
    exact compiledOf_congr hsame hlocation hsource
  · rw [compileAll_eq]
    exact p.forall₂_failures p.sheets

/-- Three stylesheets are registered: `a` imports `b`, which does not parse, and `c` imports `a`. -/
def brokenHistory : List Operation :=
  let importing (name : Char) : Option Text :=
    some ['@', 'i', 'm', 'p', 'o', 'r', 't', '"', name, '"', ';']
  [.insert ['a'] (importing 'b'), .insert ['b'] (some ['.', 'b', '{']),
    .insert ['c'] (importing 'a')]

/-- The package after this history. -/
def broken : Package := (Package.empty ['/'] {} .standard).performAll brokenHistory

/-- The package with the same stylesheets, registered the other way round. Some were registered and
compiled before with other sources. -/
def brokenReversed : Package :=
  (Package.empty ['/'] {} .standard).performAll
    ([.insert ['c'] none, .insert ['b'] (some ['.', 'b', '{', '}']), .compileAll] ++
      brokenHistory.reverse)

theorem reordered_broken : broken.Reordered brokenReversed where
  root := rfl
  transforms := rfl
  sheets := by
    -- compiling changes nothing that was registered
    have hcompile (p : Package) : p.perform .compileAll =
        p.revise p.recompiled p.location_recompiled :=
      congrArg Prod.fst p.compileAll_eq
    have hsheets : brokenReversed.sheets.map Sheet.asRegistered =
        (broken.sheets.map Sheet.asRegistered).reverse := by
      rw [brokenReversed, performAll, List.foldl_append, List.foldl_cons, List.foldl_cons,
        List.foldl_cons, List.foldl_nil, hcompile]
      rfl
    rw [hsheets]
    exact (List.reverse_perm _).symm

theorem resolveGraph_broken : broken.compileAll.value.1.resolveGraph.value.2 = none := by
  refine resolveGraph_eq_none_of_rank [.absolute [['b']], .absolute [['a']],
    .absolute [['c']]].idxOf ?_
  decide +kernel

/-- Of the three only `b` fails, and no import is put down to it. In either order `c` alone is
marked. -/
theorem compileAll_isolates_stylesheets_broken :
    broken.compileAll.value.2.map (·.sheet) = [.absolute [['b']]] ∧
      broken.compileAll.value.1.sheets.map (·.importers.map (·.source)) =
        [[.absolute [['c']]], [.absolute [['a']]], []] ∧
      broken.Reordered brokenReversed ∧
      broken.compileAll.value.1.ResolvesAlike brokenReversed.compileAll.value.1 ∧
      broken.compileAll.value.1.resolveGraph.value.2 = none ∧
      broken.compileAll.value.1.resolveGraph.value.1.independent.map Sheet.location =
        [.absolute [['c']]] := by
  obtain ⟨-, -, -, -, halike, -⟩ := compileAll_isolates_stylesheets .standard ['/'] {} brokenHistory
  refine ⟨by decide +kernel, by decide +kernel, reordered_broken, halike _ reordered_broken,
    resolveGraph_broken, ?_⟩
  rw [independent_of_check (resolveGraph_eq_none_iff_check.1 resolveGraph_broken)]
  decide +kernel

end Package

end MiniSheet
