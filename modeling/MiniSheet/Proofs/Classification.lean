import MiniSheet.Proofs.Isolation

/-!
# Which stylesheets stand alone

Processing a package ends in one of three ways (`Package.process_cases`): a stylesheet does not
compile, the imports run in a circle, or all is well. If all is well, the importers of each
stylesheet are the imports made by the package turned around, each as often as it is written, and
the marks say who has none (`Package.process_classifies`). That taking over the results one by one
turns the imports around is `Package.takeResults_eq`; processing comes to it by
`Package.compileAll_eq`.

If it is not, it matters which way it ended. A circle clears all marks. A stylesheet that does not
compile ends the processing before the marks are looked at, so that all of them stay as they were
(`Package.process_failure_marks`), even if they are out of date (`Package.stale_mark`).
-/

namespace MiniSheet

namespace Package

variable {p : Package}

/-- How processing ends: without a check if a stylesheet does not compile, and as the check says
otherwise. -/
theorem process_cases (p : Package) :
    (p.compileAll.value.2 ≠ [] ∧
      p.process.value = (p.compileAll.value.1, some (.compile p.compileAll.value.2))) ∨
      (p.compileAll.value.2 = [] ∧ p.process.value =
        (p.compileAll.value.1.resolveGraph.value.1,
          p.compileAll.value.1.resolveGraph.value.2.map .cyclic)) := by
  rw [process, Logged.value_bind]
  dsimp only
  rcases herrors : p.compileAll.value.2 with _ | ⟨error, errors⟩
  · exact .inr ⟨rfl, rfl⟩
  · exact .inl ⟨List.cons_ne_nil _ _, rfl⟩

/-! ## Success -/

/-- A stylesheet of a package as it comes out of processing: compiled anew, and marked if it stands
alone. -/
def classified (p : Package) (sheet : Sheet) : Sheet :=
  { p.recompiled sheet with isIndependent := standsAlone (p.recompiled sheet) }

theorem location_classified (p : Package) (sheet : Sheet) :
    (p.classified sheet).location = sheet.location :=
  rfl

/-- If processing succeeds, every stylesheet compiles, and nothing but the stylesheets changes. -/
theorem process_eq_none (h : p.process.value.2 = none) :
    p.compileAll.value.2 = [] ∧
      p.process.value.1 = p.revise p.classified p.location_classified := by
  rcases p.process_cases with ⟨-, hprocess⟩ | ⟨herrors, hprocess⟩
  · rw [hprocess] at h
    cases h
  · rw [hprocess] at h ⊢
    have hcheck := resolveGraph_eq_none_iff_check.1 (Option.map_eq_none_iff.1 h)
    refine ⟨herrors, ?_⟩
    rw [resolveGraph_of_check_eq_ok hcheck, compileAll_eq]
    exact Package.ext rfl rfl rfl List.map_map rfl

/-- Processing succeeds if every stylesheet compiles and all imports lead downwards. -/
theorem process_eq_none_of_rank (herrors : p.compileAll.value.2 = [])
    (rank : Location → Nat)
    (h : ∀ sheet ∈ p.compileAll.value.1.sheets, ∀ edge ∈ sheet.compiled.imports,
      rank edge.target < rank sheet.location) :
    p.process.value.2 = none := by
  rcases p.process_cases with ⟨hfailed, -⟩ | ⟨-, hprocess⟩
  · exact absurd herrors hfailed
  · rw [hprocess]
    exact Option.map_eq_none_iff.2 (resolveGraph_eq_none_of_rank rank h)

/-- A stylesheet compiles if there are no failures. -/
theorem compileSheet_of_no_failures (h : p.compileAll.value.2 = []) {sheet : Sheet}
    (hsheet : sheet ∈ p.sheets) : (p.compileSheet sheet).value = .ok (p.compiledOf sheet) := by
  rw [compiledOf]
  rcases hresult : (p.compileSheet sheet).value with error | compiled
  · -- otherwise its failure would be among them
    have hfails : sheet ∈ p.sheets.filter p.fails :=
      List.mem_filter.2 ⟨hsheet, fails_of_error hresult⟩
    have hlength := (p.forall₂_failures p.sheets).length_eq
    rw [compileAll_eq] at h
    dsimp only at h
    rw [h, List.length_nil, List.length_eq_zero_iff] at hlength
    rw [hlength] at hfails
    cases hfails
  · rfl

/-- A stylesheet comes out marked if no import leads to it, unless it is the entry and has a
source. -/
theorem isIndependent_classified {sheet : Sheet} : (p.classified sheet).isIndependent = true ↔
    (¬ ∃ edge ∈ p.edges, edge.target = sheet.location) ∧
    ¬ (sheet.isEntry = true ∧ sheet.hasSource = true) := by
  have hmark : (p.classified sheet).isIndependent =
      ((importersOf p.edges sheet.location).isEmpty && (!sheet.isEntry || !sheet.hasSource)) := rfl
  rw [hmark, Bool.and_eq_true]
  refine and_congr ?_ ?_
  · simp [importersOf]
  · cases sheet.isEntry <;> cases sheet.hasSource <;> simp

/-- **Processing classifies the stylesheets of a package**, whatever was done with it before. If it
succeeds, the stylesheets are those that were registered, and the imports of each are those written
in its source. The importers of a stylesheet are all imports made of it, in the order the importing
stylesheets were registered and within each in the order they are written. And a stylesheet is
marked if no stylesheet imports it, unless it is the entry and has a source. -/
theorem process_classifies (p : Package) (h : p.process.value.2 = none) :
    let after := p.process.value.1
    after.sheets.map Sheet.asRegistered = p.sheets.map Sheet.asRegistered ∧
      ∀ sheet ∈ after.sheets,
        (∃ document, Document.parse (sheet.source.getD []) = .ok document ∧
          (after.compiler sheet).Resolved (Node.sitesAll document.nodes) sheet.compiled.imports) ∧
        sheet.importers =
          ((after.sheets.flatMap fun other => other.compiled.imports).filter fun edge =>
            edge.target == sheet.location).map (fun edge => ⟨edge.source, edge.span⟩) ∧
        (sheet.isIndependent = true ↔
          (¬ ∃ other ∈ after.sheets, ∃ edge ∈ other.compiled.imports,
            edge.target = sheet.location) ∧
          ¬ (sheet.isEntry = true ∧ sheet.hasSource = true)) := by
  obtain ⟨herrors, hafter⟩ := process_eq_none h
  rw [hafter]
  intro after
  -- the imports that the stylesheets come out with are those they are compiled to
  have hedges : (after.sheets.flatMap fun other => other.compiled.imports) = p.edges :=
    List.flatMap_map ..
  have hsame : after.SameSurroundings p := p.sameSurroundings_revise p.location_classified
  refine ⟨List.map_map, fun sheet hsheet => ?_⟩
  obtain ⟨before, hbefore, rfl⟩ := List.mem_map.1 hsheet
  -- its importers are what noting the imports one by one came to
  have himporters : (p.classified before).importers = importersOf p.edges before.location := rfl
  refine ⟨?_, by rw [himporters, hedges]; rfl, ?_⟩
  · obtain ⟨document, hparse, hresolved⟩ :=
      Compiler.resolved_of_compile (compileSheet_of_no_failures herrors hbefore)
    refine ⟨document, hparse, ?_⟩
    rw [compiler, hsame.lookup_eq, hsame.transforms]
    exact hresolved
  · rw [isIndependent_classified, ← hedges]
    refine and_congr (not_congr ?_) Iff.rfl
    simp only [List.mem_flatMap]
    constructor
    · rintro ⟨edge, ⟨other, hother, hedge⟩, htarget⟩
      exact ⟨other, hother, edge, hedge, htarget⟩
    · rintro ⟨other, hother, edge, hedge, htarget⟩
      exact ⟨edge, ⟨other, hother, hedge⟩, htarget⟩

/-- Three stylesheets: `a` imports `b` twice, the second time inside an at-rule, and `c` is marked
as entry. Before that `b` imported `a`, and both were compiled. -/
def settledHistory : List Operation :=
  let importing (name : Char) : Text := ['@', 'i', 'm', 'p', 'o', 'r', 't', '"', name, '"', ';']
  [.insert ['a'] none, .insert ['b'] (some (importing 'a')), .compileAll,
    .insert ['a'] (some (importing 'b' ++ ['@', 'm', '{'] ++ importing 'b' ++ ['}'])),
    .insert ['b'] (some ['.', 'b', '{', '}']), .insert ['c'] (some ['.', 'c', '{', '}']),
    .setEntry (.absolute [['c']]) true]

/-- The package after this history. -/
def settled : Package := (Package.empty ['/'] {} .standard).performAll settledHistory

theorem process_settled : settled.process.value.2 = none := by
  refine process_eq_none_of_rank (by decide +kernel)
    (fun location => if location == .absolute [['a']] then 1 else 0) ?_
  decide +kernel

/-- Here `b` has two importers and `a` none any more, so that `a` alone is marked. -/
theorem process_classifies_settled :
    settled.process.value.2 = none ∧
      settled.process.value.1.sheets.map Sheet.asRegistered =
        settled.sheets.map Sheet.asRegistered ∧
      settled.process.value.1.sheets.map
        (fun sheet => (sheet.importers.map (·.source), sheet.isIndependent)) =
          [([], true), ([.absolute [['a']], .absolute [['a']]], false), ([], false)] := by
  refine ⟨process_settled, (process_classifies settled process_settled).1, ?_⟩
  rw [(process_eq_none process_settled).2]
  decide +kernel

/-! ## Failure -/

/-- Compiling leaves the marks alone. -/
theorem marks_compileAll (p : Package) :
    p.compileAll.value.1.sheets.map Sheet.isIndependent = p.sheets.map Sheet.isIndependent := by
  rw [sheets_compileAll, List.map_map]
  rfl

/-- **What a failure leaves of the marks** depends on the failure. After a circle no stylesheet is
marked. After a failure to compile the same stylesheets are marked as before. So a failure leaves a
mark if and only if it is a failure to compile and there was a mark before. -/
theorem process_failure_marks (p : Package) (error : ProcessError)
    (h : p.process.value.2 = some error) :
    let after := p.process.value.1
    ((∃ cycle, error = .cyclic cycle) → ∀ sheet ∈ after.sheets, sheet.isIndependent = false) ∧
      ((∃ errors, error = .compile errors) →
        after.sheets.map Sheet.isIndependent = p.sheets.map Sheet.isIndependent) ∧
      ((∃ sheet ∈ after.sheets, sheet.isIndependent = true) ↔
        (∃ errors, error = .compile errors) ∧ ∃ sheet ∈ p.sheets, sheet.isIndependent = true) := by
  rcases p.process_cases with ⟨-, hprocess⟩ | ⟨-, hprocess⟩
  · rw [hprocess] at h ⊢
    obtain rfl := Option.some.inj h
    have hmarks := p.marks_compileAll
    have hmem := congrArg (true ∈ ·) hmarks
    simp only [List.mem_map] at hmem
    refine ⟨fun ⟨_, hcycle⟩ => (ProcessError.noConfusion hcycle), fun _ => hmarks, ?_⟩
    rw [hmem]
    exact (and_iff_right ⟨_, rfl⟩).symm
  · rw [hprocess] at h ⊢
    obtain ⟨cycle, hcycle, rfl⟩ := Option.map_eq_some_iff.1 h
    have hclear (sheet : Sheet)
        (hsheet : sheet ∈ p.compileAll.value.1.resolveGraph.value.1.sheets) :
        sheet.isIndependent = false := isIndependent_of_resolveGraph_eq_some hcycle hsheet
    refine ⟨fun _ => hclear, fun ⟨_, herrors⟩ => ProcessError.noConfusion herrors, ?_⟩
    constructor
    · rintro ⟨sheet, hsheet, hmark⟩
      rw [hclear sheet hsheet] at hmark
      cases hmark
    · rintro ⟨⟨errors, herrors⟩, -⟩
      cases herrors

/-- A package with one stylesheet, `a`. -/
def fresh : Package :=
  (Package.empty ['/'] {} .standard).performAll [.insert ['a'] (some ['.', 'a', '{', '}'])]

theorem process_fresh : fresh.process.value.2 = none := by
  refine process_eq_none_of_rank (by decide +kernel) (fun _ => 0) ?_
  decide +kernel

/-- The package after it was processed and another stylesheet was registered, `b`, which does not
parse. -/
def stale : Package := fresh.performAll [.process, .insert ['b'] (some ['.', 'b', '{'])]

theorem stale_eq :
    stale =
      (fresh.revise fresh.classified fresh.location_classified).insert ['b']
        (some ['.', 'b', '{']) := by
  change fresh.process.value.1.insert _ _ = _
  rw [(process_eq_none process_fresh).2]

theorem process_stale : stale.process.value =
    (stale.compileAll.value.1, some (.compile stale.compileAll.value.2)) := by
  have herrors : stale.compileAll.value.2 ≠ [] := by
    rw [stale_eq]
    decide +kernel
  rcases stale.process_cases with ⟨-, hprocess⟩ | ⟨hnone, -⟩
  · exact hprocess
  · exact absurd hnone herrors

theorem process_failure_marks_stale :
    (∃ errors, stale.process.value.2 = some (.compile errors)) ∧
      stale.process.value.1.sheets.map Sheet.isIndependent =
        stale.sheets.map Sheet.isIndependent := by
  have herror := congrArg Prod.snd process_stale
  exact ⟨⟨_, herror⟩, (process_failure_marks stale _ herror).2.1 ⟨_, rfl⟩⟩

/-- The mark of `a` is still there after the package could not be processed once more. -/
theorem stale_mark :
    (∃ errors, stale.process.value.2 = some (.compile errors)) ∧
      ∃ sheet ∈ stale.process.value.1.sheets, sheet.isIndependent = true := by
  rw [process_stale, stale_eq]
  exact ⟨⟨_, rfl⟩, by decide +kernel⟩

end Package

end MiniSheet
