import Mathlib.Data.List.Forall2
import MiniSheet.Proofs.Walk

/-!
# One edge for each import

A stylesheet that compiles has one edge for each import of its source, in the order they are
written, and each edge is what its import resolves to (`Compiler.resolved_of_compile`). So an import
is never lost, never made twice, and never put down to another stylesheet
(`Compiler.source_of_compile`).

A stylesheet that does not compile fails with an error that names it (`Compiler.sheet_of_compile`).
-/

namespace MiniSheet

namespace Compiler

variable {c : Compiler}

/-! ## Edges -/

/-- An import is put down to the stylesheet that makes it, where it stands. -/
theorem source_of_resolveImport {params : Text} {span : Span} {edge : ImportEdge}
    (h : c.resolveImport params span = .ok edge) : edge.source = c.sheet ∧ edge.span = span := by
  rw [resolveImport] at h
  split at h
  · cases h
  · dsimp only at h
    split at h
    · cases h
    · obtain rfl := Except.ok.inj h
      exact ⟨rfl, rfl⟩

/-- There is one edge for each site, in the same order, and each site resolves to its edge. -/
def Resolved (c : Compiler) (sites : List ImportSite) (edges : List ImportEdge) : Prop :=
  List.Forall₂ (fun site edge => c.resolveImport site.params site.span = .ok edge) sites edges

theorem Resolved.source {sites : List ImportSite} {edges : List ImportEdge}
    (h : c.Resolved sites edges) : ∀ edge ∈ edges, edge.source = c.sheet := by
  induction h with
  | nil => exact fun edge hmem => absurd hmem List.not_mem_nil
  | cons hfirst _ ih =>
    intro edge hmem
    rcases List.mem_cons.1 hmem with rfl | hmem
    · exact (source_of_resolveImport hfirst).1
    · exact ih edge hmem

end Compiler

namespace Production

variable {c : Compiler} {sites sites' : List ImportSite} {first second : Production}

/-- The parts of a production that does not fail do not fail, and their events follow on each
other. -/
theorem events_append (h : (first ++ second).failure = none) :
    first.failure = none ∧ second.failure = none ∧
      (first ++ second).events = first.events ++ second.events := by
  change (first.append second).failure = none at h
  change _ ∧ _ ∧ (first.append second).events = _
  rw [Production.append] at h ⊢
  rcases hfirst : first.failure with _ | error
  · rw [hfirst] at h
    exact ⟨rfl, h, rfl⟩
  · -- a production that failed already is all there is
    rw [hfirst] at h
    cases hfirst.symm.trans h

/-- Unless the production fails, its imports are what the sites resolve to. -/
def Resolves (c : Compiler) (sites : List ImportSite) (p : Production) : Prop :=
  p.failure = none → c.Resolved sites p.imports

theorem Resolves.append (hfirst : Resolves c sites first) (hsecond : Resolves c sites' second) :
    Resolves c (sites ++ sites') (first ++ second) := by
  intro h
  obtain ⟨hfailure, hfailure', hevents⟩ := events_append h
  rw [imports, hevents, List.filterMap_append]
  exact List.rel_append (hfirst hfailure) (hsecond hfailure')

/-- What makes no import goes with no site. -/
theorem resolves_nil {p : Production} (h : p.imports = []) : Resolves c [] p := by
  intro _
  rw [h]
  exact .nil

theorem imports_emissions (list : List (Emission Location)) : (emissions list).imports = [] := by
  rw [imports, emissions, List.filterMap_map]
  exact List.filterMap_eq_nil_iff.2 fun _ _ => rfl

theorem resolves_emissions (list : List (Emission Location)) : Resolves c [] (emissions list) :=
  resolves_nil (imports_emissions list)

theorem resolves_fail (error : CompileError) : Resolves c sites (fail error) := fun h => by cases h

end Production

namespace Compiler

open Production

variable {c : Compiler} {source : Text} {compiled : Compiled}

/-- A walk that does not fail makes the imports of the source. -/
theorem walkInvariant_resolves (c : Compiler) : c.WalkInvariant (Resolves c) where
  empty := resolves_nil rfl
  append := Resolves.append
  text _ := resolves_nil rfl
  note _ _ := resolves_nil rfl
  imported params span := by
    rw [produceImport]
    split
    · rename_i edge hedge
      exact fun _ => .cons hedge .nil
    · exact resolves_fail _
  selector context selector := by
    rw [produceSelector]
    split
    · exact resolves_emissions _
    · exact resolves_fail _
  value context declaration := by
    rw [produceValue]
    split
    · refine (resolves_emissions _).append ?_
      split <;> exact resolves_nil rfl
    · exact resolves_fail _

/-- **One edge for each import**: a source that compiles is a stylesheet, and its edges are what the
imports in it resolve to, one for one and in the order they are written. -/
theorem resolved_of_compile (h : (c.compile source).value = .ok compiled) :
    ∃ document, Document.parse source = .ok document ∧
      c.Resolved (Node.sitesAll document.nodes) compiled.imports := by
  rw [compile] at h
  dsimp only at h
  split at h
  · cases h
  · rename_i hfailure
    obtain rfl := Except.ok.inj h
    rw [produce] at hfailure ⊢
    rcases hparse : Document.parse source with error | document
    · rw [hparse] at hfailure
      cases hfailure
    · rw [hparse] at hfailure
      exact ⟨document, rfl, c.walkInvariant_resolves.produceNodes .root document.nodes hfailure⟩

/-- All edges of a stylesheet start at it. -/
theorem source_of_compile (h : (c.compile source).value = .ok compiled) :
    ∀ edge ∈ compiled.imports, edge.source = c.sheet := by
  obtain ⟨_, _, hresolved⟩ := resolved_of_compile h
  exact hresolved.source

/-! ## Failures -/

/-- If the production fails, it blames the stylesheet. -/
def Blames (c : Compiler) (p : Production) : Prop := ∀ error ∈ p.failure, error.sheet = c.sheet

theorem blames_of_failure_eq_none {p : Production} (h : p.failure = none) : c.Blames p := by
  intro error herror
  rw [h] at herror
  cases herror

theorem blames_fail {error : CompileError} (h : error.sheet = c.sheet) : c.Blames (fail error) := by
  intro other hother
  obtain rfl := Option.some.inj hother
  exact h

theorem Blames.append {first second : Production} (hfirst : c.Blames first)
    (hsecond : c.Blames second) : c.Blames (first ++ second) := by
  change c.Blames (first.append second)
  rw [Production.append]
  -- the first failure is the one that counts
  split
  · exact hsecond
  · exact hfirst

theorem sheet_of_resolveImport {params : Text} {span : Span} {error : CompileError}
    (h : c.resolveImport params span = .error error) : error.sheet = c.sheet := by
  rw [resolveImport] at h
  split at h
  · obtain rfl := Except.error.inj h
    rfl
  · dsimp only at h
    split at h
    · obtain rfl := Except.error.inj h
      rfl
    · cases h

theorem walkInvariant_blames (c : Compiler) : c.WalkInvariant fun _ p => c.Blames p where
  empty := blames_of_failure_eq_none rfl
  append := Blames.append
  text _ := blames_of_failure_eq_none rfl
  note _ _ := blames_of_failure_eq_none rfl
  imported params span := by
    rw [produceImport]
    split
    · exact blames_of_failure_eq_none rfl
    · rename_i error herror
      exact blames_fail (sheet_of_resolveImport herror)
  selector context selector := by
    rw [produceSelector]
    split
    · exact blames_of_failure_eq_none rfl
    · exact blames_fail rfl
  value context declaration := by
    rw [produceValue]
    split
    · refine (blames_of_failure_eq_none rfl).append ?_
      split <;> exact blames_of_failure_eq_none rfl
    · exact blames_fail rfl

/-- **A failure names its stylesheet**, whatever the reason. -/
theorem sheet_of_compile {error : CompileError} (h : (c.compile source).value = .error error) :
    error.sheet = c.sheet := by
  have hblames : c.Blames (c.produce source) := by
    rw [produce]
    split
    · exact c.walkInvariant_blames.produceNodes .root _
    · exact blames_fail rfl
  rw [compile] at h
  dsimp only at h
  split at h
  · rename_i hfailure
    obtain rfl := Except.error.inj h
    exact hblames _ hfailure
  · cases h

end Compiler

end MiniSheet
