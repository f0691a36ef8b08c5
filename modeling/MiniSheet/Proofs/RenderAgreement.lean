import MiniSheet.Proofs.PackageHistory

/-!
# The check and the renderer agree

Two walks decide whether the imports of a package are in order. The check follows the edges of the
stylesheets, looks locations up as they are and visits everything once; the renderer follows the
references in their chunks, takes each one from the root of the package and remembers only what it
is inside of. In a consistent package both walk the same graph (`Package.Consistent.refers_eq`), so
what is known about each of them is known about the other:

* the renderer misses a stylesheet only if it was asked for it
  (`Package.Consistent.renderAt_eq_unknown_iff`);
* it fails for a cycle exactly if there is one ahead, and then names a stylesheet that lies on one
  (`Package.Consistent.renderAt_eq_cyclic_iff`, `Package.Consistent.cycleBelow_of_renderAt`);
* the check passes exactly if every stylesheet renders
  (`Package.Consistent.resolveGraph_eq_none_iff`).

All packages are consistent, so this is true after any history (`Package.render_agrees_with_graph`).
-/

namespace MiniSheet

open Relation

namespace Sheets

/-- Imports lead from a location to another one that lies on a cycle. -/
def CycleBelow (sheets : List Sheet) (start c : Location) : Prop :=
  ReflTransGen (Imports sheets) start c ∧ TransGen (Imports sheets) c c

variable {sheets : List Sheet} {a b start c : Location}

theorem Imports.exists_source (h : Imports sheets a b) : ∃ sheet ∈ sheets, sheet.location = a := by
  obtain ⟨source, hmem, -, -, hsource, -⟩ := h
  exact ⟨source, hmem, hsource⟩

/-- There is a stylesheet where a way to a cycle starts, if only because it lies on the cycle. -/
theorem CycleBelow.exists_start (h : CycleBelow sheets start c) :
    ∃ sheet ∈ sheets, sheet.location = start := by
  rcases h.1.cases_head with rfl | ⟨next, hstep, -⟩
  · obtain ⟨next, hstep, -⟩ := TransGen.head'_iff.1 h.2
    exact hstep.exists_source
  · exact hstep.exists_source

end Sheets

namespace Package

open Sheets

variable {p : Package} {profile : Profile} {location : Location} {error : RenderError} {css : Text}

/-! ## One graph -/

/-- In a consistent package a stylesheet refers to another location exactly if it imports it. -/
theorem Consistent.refers_iff (h : p.Consistent) {a b : Location} :
    p.Refers a b ↔ Imports p.sheets a b := by
  constructor
  · rintro ⟨sheet, hfind, target, htarget, rfl⟩
    have hfaithful := h.faithful sheet (mem_of_find? hfind)
    rw [hfaithful.targets_eq] at htarget
    obtain ⟨edge, hedge, rfl⟩ := List.mem_map.1 htarget
    obtain ⟨imported, himported, hlocation⟩ := List.mem_map.1 (hfaithful.known_target edge hedge)
    -- the imported stylesheet lies where it is looked for, so looking it up again changes nothing
    rw [← hlocation, h.located imported himported]
    exact imports_of_find? hfind (hlocation ▸ htarget) (find?_of_mem p.distinct himported)
  · rintro ⟨source, hsource, target, htarget, rfl, rfl, edge, hedge, hlocation⟩
    refine ⟨source, find?_of_mem p.distinct hsource, target.location, ?_, h.located target htarget⟩
    rw [(h.faithful source hsource).targets_eq]
    exact List.mem_map.2 ⟨edge, hedge, hlocation⟩

theorem Consistent.refers_eq (h : p.Consistent) : p.Refers = Imports p.sheets :=
  funext fun _ => funext fun _ => propext h.refers_iff

/-- Looking a stylesheet up where it lies finds it. -/
theorem Consistent.at?_of_mem (h : p.Consistent) {sheet : Sheet} (hmem : sheet ∈ p.sheets) :
    p.at? sheet.location = some sheet := by
  rw [at?, h.located sheet hmem]
  exact find?_of_mem p.distinct hmem

/-- Imports lead only to stylesheets of the package. -/
theorem exists_find?_of_reflTransGen {a b : Location} {sheet : Sheet}
    (hfind : p.find? a = some sheet) (h : ReflTransGen (Imports p.sheets) a b) :
    ∃ found, p.find? b = some found := by
  rcases h.cases_tail with rfl | ⟨c, -, hstep⟩
  · exact ⟨sheet, hfind⟩
  · exact hstep.exists_find?

/-! ## What the renderer says -/

/-- A stylesheet is missing only if it is the one that was asked for. -/
theorem Consistent.renderAt_eq_unknown_iff (h : p.Consistent) {a : Location} :
    p.renderAt profile location = .error (.unknown a) ↔
      a = p.root.join location ∧ p.at? location = none := by
  constructor
  · intro hrender
    obtain ⟨hreach, hnone⟩ := explains_of_renderAt hrender
    rw [h.refers_eq] at hreach
    rcases hreach.cases_tail with rfl | ⟨b, -, hstep⟩
    · exact ⟨rfl, hnone⟩
    · -- anything further on was imported, and so is in the package
      obtain ⟨found, hfound⟩ := hstep.exists_find?
      have hsome : p.find? a = some found := hfound
      rw [hnone] at hsome
      cases hsome
  · rintro ⟨rfl, hat⟩
    exact renderIn_of_at?_eq_none hat

/-- A stylesheet that is named for a cycle lies on one that imports lead to. -/
theorem Consistent.cycleBelow_of_renderAt (h : p.Consistent) {q : Location}
    (hrender : p.renderAt profile location = .error (.cyclic q)) :
    CycleBelow p.sheets (p.root.join location) q := by
  have hexplains := explains_of_renderAt hrender
  rw [Explains, h.refers_eq] at hexplains
  exact hexplains

/-- Rendering succeeds if the stylesheet is there and imports lead to no cycle. -/
theorem Consistent.renderAt_succeeds (h : p.Consistent) {sheet : Sheet}
    (hat : p.at? location = some sheet)
    (hcycle : ¬ ∃ c, CycleBelow p.sheets (p.root.join location) c) :
    ∃ css, p.renderAt profile location = .ok css := by
  refine renderAt_succeeds_iff.2 fun b hreach => ?_
  rw [h.refers_eq] at hreach
  refine ⟨exists_find?_of_reflTransGen hat hreach, fun hb => hcycle ⟨b, hreach, ?_⟩⟩
  rw [← h.refers_eq]
  exact hb

/-- Rendering fails for a cycle exactly if imports lead to one. -/
theorem Consistent.renderAt_eq_cyclic_iff (h : p.Consistent) :
    (∃ q, p.renderAt profile location = .error (.cyclic q)) ↔
      ∃ c, CycleBelow p.sheets (p.root.join location) c := by
  constructor
  · rintro ⟨q, hrender⟩
    exact ⟨q, h.cycleBelow_of_renderAt hrender⟩
  · rintro ⟨c, hcycle⟩
    rcases hrender : p.renderAt profile location with (a | q) | css
    · -- the stylesheet is there, since imports lead on from it
      obtain ⟨-, hnone⟩ := h.renderAt_eq_unknown_iff.1 hrender
      obtain ⟨sheet, hmem, hlocation⟩ := hcycle.exists_start
      exact absurd hlocation (find?_eq_none_iff.1 hnone sheet hmem)
    · exact ⟨q, rfl⟩
    · have hsound := renderAt_succeeds_iff.1 ⟨css, hrender⟩ c
      rw [Sound, h.refers_eq] at hsound
      exact absurd hcycle.2 (hsound hcycle.1).2

/-! ## What the check says -/

/-- The check passes exactly if every stylesheet renders. -/
theorem Consistent.resolveGraph_eq_none_iff (h : p.Consistent) (profile : Profile) :
    p.resolveGraph.value.2 = none ↔
      ∀ sheet ∈ p.sheets, ∃ css, p.renderAt profile sheet.location = .ok css := by
  rw [resolveGraph_eq_none_iff_check, ImportGraph.check_eq_ok_iff p.distinct]
  constructor
  · intro hacyclic sheet hmem
    refine h.renderAt_succeeds (h.at?_of_mem hmem) ?_
    rintro ⟨c, -, hc⟩
    exact hacyclic ⟨c, hc⟩
  · rintro hall ⟨a, ha⟩
    obtain ⟨b, hstep, -⟩ := TransGen.head'_iff.1 ha
    obtain ⟨sheet, hmem, rfl⟩ := hstep.exists_source
    have hsound := renderAt_succeeds_iff.1 (hall sheet hmem) sheet.location
    rw [h.located sheet hmem, Sound, h.refers_eq] at hsound
    exact (hsound .refl).2 ha

@[simp] theorem value_render (p : Package) (profile : Profile) (path : Text) :
    (p.render profile path).value = p.renderAt profile (.ofText path) :=
  value_renderNamed p profile path _

/-- **The check and the renderer agree**, after any history of a package that is compiled with plain
transforms, for every device. Asked for a path, the renderer fails

* for a missing stylesheet exactly if there is none at that path, whatever is imported;
* for a cycle exactly if imports lead from there to one, and then it names a stylesheet on one of
  those;

and otherwise it succeeds. The check passes exactly if every stylesheet of the package renders. -/
theorem render_agrees_with_graph (transforms : Transforms) (hplain : transforms.Plain) (root : Text)
    (options : Options) (operations : List Operation) (profile : Profile) :
    let p := (Package.empty root options transforms).performAll operations
    (∀ path,
      (∀ a, (p.render profile path).value = .error (.unknown a) ↔
        a = p.locate path ∧ p.get? path = none) ∧
      ((∃ q, (p.render profile path).value = .error (.cyclic q)) ↔
        ∃ c, CycleBelow p.sheets (p.locate path) c) ∧
      (∀ q, (p.render profile path).value = .error (.cyclic q) →
        CycleBelow p.sheets (p.locate path) q) ∧
      (p.get? path ≠ none → (¬ ∃ c, CycleBelow p.sheets (p.locate path) c) →
        ∃ css, (p.render profile path).value = .ok css)) ∧
    (p.resolveGraph.value.2 = none ↔
      ∀ sheet ∈ p.sheets, ∃ css, p.renderAt profile sheet.location = .ok css) := by
  intro p
  have h : p.Consistent := consistent_performAll hplain root options operations
  refine ⟨fun path => ?_, h.resolveGraph_eq_none_iff profile⟩
  rw [value_render]
  refine ⟨fun a => h.renderAt_eq_unknown_iff, h.renderAt_eq_cyclic_iff,
    fun q => h.cycleBelow_of_renderAt, ?_⟩
  intro hget hcycle
  obtain ⟨sheet, hat⟩ := Option.ne_none_iff_exists'.1 hget
  exact h.renderAt_succeeds hat hcycle

/-- Two stylesheets `a` and `b` import each other, and a third one, `c`, imports `a`. They are
compiled, and `a` is registered and compiled once more. -/
def circleHistory : List Operation :=
  let importing (name : Char) : Option Text :=
    some ['@', 'i', 'm', 'p', 'o', 'r', 't', '"', name, '"', ';']
  [.insert ['a'] (importing 'b'), .insert ['b'] (importing 'a'), .insert ['c'] (importing 'a'),
    .compileAll, .insert ['a'] (importing 'b'), .compileAll, .setEntry (.absolute [['a']]) true]

/-- The package after this history. -/
def circle : Package := (Package.empty ['/'] {} .standard).performAll circleHistory

theorem cycleBelow_circle : CycleBelow circle.sheets (circle.locate ['c']) (.absolute [['a']]) := by
  have hca : Imports circle.sheets (circle.locate ['c']) (.absolute [['a']]) := by decide +kernel
  have hab : Imports circle.sheets (.absolute [['a']]) (.absolute [['b']]) := by decide +kernel
  have hba : Imports circle.sheets (.absolute [['b']]) (.absolute [['a']]) := by decide +kernel
  exact ⟨.single hca, (TransGen.single hab).tail hba⟩

/-- The renderer does not render `c` and names a stylesheet on a cycle, and the check finds one
too. -/
theorem render_agrees_with_graph_circle :
    Transforms.standard.Plain ∧
      (∃ q, (circle.render (.ofMetrics {}) ['c']).value = .error (.cyclic q) ∧
        CycleBelow circle.sheets (circle.locate ['c']) q) ∧
      circle.resolveGraph.value.2 ≠ none := by
  have hplain : Transforms.standard.Plain := Transforms.plain_of_stock (.inl rfl) rfl
  obtain ⟨hpath, hcheck⟩ :=
    render_agrees_with_graph .standard hplain ['/'] {} circleHistory (.ofMetrics {})
  obtain ⟨-, hcyclic, hnamed, -⟩ := hpath ['c']
  obtain ⟨q, hq⟩ := hcyclic.2 ⟨_, cycleBelow_circle⟩
  refine ⟨hplain, ⟨q, hq, hnamed q hq⟩, fun hnone => ?_⟩
  -- if the check passed, `c` would render
  obtain ⟨sheet, hmem, hlocation⟩ := cycleBelow_circle.exists_start
  obtain ⟨css, hcss⟩ : ∃ css, circle.renderAt (.ofMetrics {}) sheet.location = .ok css :=
    hcheck.1 hnone sheet hmem
  rw [hlocation, locate, renderAt_root_join] at hcss
  have hconflict := hq.symm.trans ((value_render circle _ _).trans hcss)
  cases hconflict

end Package

end MiniSheet
