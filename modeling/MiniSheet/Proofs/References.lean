import MiniSheet.Proofs.NormalForm
import MiniSheet.Proofs.Walk

/-!
# References stand for imports

A compiled stylesheet names the stylesheets it builds on twice: its chunks refer to them, and its
edges list them. The renderer follows the references, the check for cycles follows the edges. This
module shows that both say the same, one for one and in the same order
(`Compiler.faithful_of_compile`), as long as no transform writes references of its own
(`Transforms.Plain`). The stock transforms do not.

References pass through the accumulator untouched, as all symbols do: `Chunk.targets` of the chunks
is what the emissions refer to (`Production.targets_chunks`). So it is enough to look at the events
of the walk one by one, and each of them is `Event.Faithful`.
-/

namespace MiniSheet

/-! ## The accumulator keeps references -/

variable {ρ : Type}

/-- What a symbol refers to. -/
def Symbol.target? : Symbol ρ → Option ρ
  | nested target => some target
  | _ => none

/-- What an emission refers to. -/
def Emission.target? : Emission ρ → Option ρ
  | text _ => none
  | chunk content => content.target?

theorem Chunk.filterMap_symbols (chunk : Chunk ρ) :
    chunk.symbols.filterMap Symbol.target? = chunk.target?.toList := by
  cases chunk with
  | text content => simp [symbols, Symbol.target?, target?]
  | pixel raw | suffix raw | nested target => rfl

theorem Emission.filterMap_symbols (emission : Emission ρ) :
    emission.symbols.filterMap Symbol.target? = emission.target?.toList := by
  cases emission with
  | text content => exact Chunk.filterMap_symbols (.text content)
  | chunk content => exact Chunk.filterMap_symbols content

/-- References can be told from the symbols. -/
theorem Chunk.targets_eq_filterMap (chunks : List (Chunk ρ)) :
    targets chunks = (flatten chunks).filterMap Symbol.target? := by
  rw [flatten, List.filterMap_flatMap, targets, List.filterMap_eq_flatMap_toList]
  exact congrArg (List.flatMap · chunks) (funext fun chunk => chunk.filterMap_symbols.symm)

/-- The chunks of a production refer to what its emissions refer to, in order. -/
theorem Production.targets_chunks (p : Production) :
    Chunk.targets p.chunks = (p.events.filterMap Event.emission?).filterMap Emission.target? := by
  rw [Chunk.targets_eq_filterMap, flatten_chunks, List.filterMap_flatMap,
    List.filterMap_eq_flatMap_toList _ (List.filterMap ..)]
  exact congrArg (List.flatMap · _) (funext Emission.filterMap_symbols)

/-! ## Transforms without references -/

/-- Neither transform ever writes a reference. -/
structure Transforms.Plain (transforms : Transforms) : Prop where
  /-- selectors are written without references -/
  selector : ∀ context selector emissions, transforms.selector context selector = .ok emissions →
    ∀ emission ∈ emissions, emission.target? = none
  /-- values are written without references -/
  declaration : ∀ context declaration written, transforms.declaration context declaration =
    .ok written → ∀ emission ∈ written.emissions, emission.target? = none

/-- Values with lengths that wait for the device are written without references. -/
theorem DeclarationTransform.target?_of_rpx (context : Context) (declaration : Declaration)
    (written : WrittenValue) (h : rpx context declaration = .ok written) :
    ∀ emission ∈ written.emissions, emission.target? = none := by
  obtain rfl := Except.ok.inj h
  intro emission hmem
  obtain ⟨atom, -, rfl⟩ := List.mem_map.1 hmem
  cases atom <;> rfl

/-- **The stock transforms are plain**, whether they copy selectors or tag them. -/
theorem Transforms.plain_of_stock {transforms : Transforms}
    (hselector : transforms.selector = .copy ∨ ∃ tag, transforms.selector = .tag tag)
    (hdeclaration : transforms.declaration = .rpx) : transforms.Plain where
  selector context selector emissions h := by
    rcases hselector with hcopy | ⟨tag, htag⟩
    · rw [hcopy] at h
      obtain rfl := Except.ok.inj h
      simp [Emission.target?]
    · rw [htag] at h
      obtain rfl := Except.ok.inj h
      simp [Emission.target?]
  declaration := by
    rw [hdeclaration]
    exact DeclarationTransform.target?_of_rpx

/-! ## Events without references of their own -/

variable {known : Location → Prop}

/-- An event refers to something only by importing it, and imports only what is known. -/
def Event.Faithful (known : Location → Prop) : Event → Prop
  | emit emission => emission.target? = none
  | imported edge => known edge.target
  | note _ => True

/-- The references of faithful events are those of their imports. -/
theorem Event.targets_of_faithful {events : List Event}
    (h : ∀ event ∈ events, event.Faithful known) :
    (events.filterMap emission?).filterMap Emission.target? =
      (events.filterMap edge?).map (·.target) := by
  induction events with
  | nil => rfl
  | cons event events ih =>
    have hrest := ih fun other hmem => h other (List.mem_cons_of_mem _ hmem)
    have hfirst := h event List.mem_cons_self
    cases event with
    | emit emission =>
      have hplain : emission.target? = none := hfirst
      simpa [List.filterMap_cons, emission?, edge?, hplain] using hrest
    | imported edge =>
      simpa [List.filterMap_cons, emission?, edge?, Emission.target?, Chunk.target?] using hrest
    | note record => simpa [List.filterMap_cons, emission?, edge?] using hrest

/-- What was compiled refers to exactly the stylesheets that it imports, and all of those are
known. -/
structure Compiled.Faithful (known : Location → Prop) (compiled : Compiled) : Prop where
  /-- there is a reference for each import, and the other way round -/
  targets_eq : Chunk.targets compiled.chunks = compiled.imports.map (·.target)
  /-- what is imported is known -/
  known_target : ∀ edge ∈ compiled.imports, known edge.target

namespace Compiled

/-- A stylesheet that was not compiled refers to nothing. -/
theorem faithful_empty : Faithful known {} where
  targets_eq := rfl
  known_target _ hmem := absurd hmem List.not_mem_nil

/-- It does no harm if more becomes known. -/
theorem Faithful.mono {compiled : Compiled} {known' : Location → Prop} (h : compiled.Faithful known)
    (himp : ∀ location, known location → known' location) : compiled.Faithful known' where
  targets_eq := h.targets_eq
  known_target edge hmem := himp _ (h.known_target edge hmem)

end Compiled

namespace Production

/-- All events of a production are faithful, also of one that fails. -/
def Faithful (known : Location → Prop) (p : Production) : Prop :=
  ∀ event ∈ p.events, event.Faithful known

theorem faithful_empty : Faithful known empty := fun _ hmem => absurd hmem List.not_mem_nil

theorem faithful_fail (error : CompileError) : Faithful known (fail error) :=
  fun _ hmem => absurd hmem List.not_mem_nil

theorem faithful_text (content : Text) : Faithful known (text content) := by
  intro event hmem
  rw [List.mem_singleton.1 hmem]
  rfl

theorem faithful_note (level : Level) (message : String) : Faithful known (note level message) := by
  intro event hmem
  rw [List.mem_singleton.1 hmem]
  trivial

theorem faithful_emissions {list : List (Emission Location)}
    (h : ∀ emission ∈ list, emission.target? = none) : Faithful known (emissions list) := by
  intro event hmem
  obtain ⟨emission, hemission, rfl⟩ := List.mem_map.1 hmem
  exact h emission hemission

theorem Faithful.append {first second : Production} (hfirst : first.Faithful known)
    (hsecond : second.Faithful known) : (first ++ second).Faithful known := by
  intro event hmem
  change event ∈ (first.append second).events at hmem
  rw [Production.append] at hmem
  -- behind a failure nothing is added
  split at hmem
  · rcases List.mem_append.1 hmem with hmem | hmem
    · exact hfirst event hmem
    · exact hsecond event hmem
  · exact hfirst event hmem

/-- A faithful production is compiled to something faithful. -/
theorem Faithful.compiled {p : Production} (h : p.Faithful known) :
    Compiled.Faithful known ⟨p.chunks, p.imports⟩ where
  targets_eq := p.targets_chunks.trans (Event.targets_of_faithful h)
  known_target edge hmem := by
    obtain ⟨event, hevent, hedge⟩ := List.mem_filterMap.1 hmem
    have hfaithful := h event hevent
    cases event with
    | imported edge' =>
      obtain rfl := Option.some.inj hedge
      exact hfaithful
    | emit emission => cases hedge
    | note record => cases hedge

end Production

/-! ## The walk -/

namespace Compiler

open Production

variable {c : Compiler}

/-- What an import names was looked up. -/
theorem lookup_of_resolveImport {params : Text} {span : Span} {edge : ImportEdge}
    (h : c.resolveImport params span = .ok edge) : ∃ place, c.lookup place = some edge.target := by
  rw [resolveImport] at h
  split at h
  · cases h
  · dsimp only at h
    split at h
    · cases h
    · rename_i path target hlookup
      obtain rfl := Except.ok.inj h
      exact ⟨_, hlookup⟩

/-- The walk refers to nothing that it does not import. -/
theorem walkInvariant_faithful (hplain : c.transforms.Plain)
    (hlookup : ∀ place target, c.lookup place = some target → known target) :
    c.WalkInvariant fun _ p => p.Faithful known where
  empty := faithful_empty
  append := Faithful.append
  text := faithful_text
  note := faithful_note
  imported params span := by
    rw [produceImport]
    split
    · rename_i edge hedge
      intro event hmem
      obtain ⟨place, hplace⟩ := lookup_of_resolveImport hedge
      rw [List.mem_singleton.1 hmem]
      exact hlookup place _ hplace
    · exact faithful_fail _
  selector context selector := by
    rw [produceSelector]
    split
    · rename_i list hlist
      exact faithful_emissions (hplain.selector context selector list hlist)
    · exact faithful_fail _
  value context declaration := by
    rw [produceValue]
    split
    · rename_i written hwritten
      have hvalue := hplain.declaration context declaration written hwritten
      refine (faithful_emissions hvalue).append ?_
      split
      · exact faithful_note _ _
      · exact faithful_empty
    · exact faithful_fail _

theorem faithful_produce (hplain : c.transforms.Plain)
    (hlookup : ∀ place target, c.lookup place = some target → known target) (source : Text) :
    (c.produce source).Faithful known := by
  rw [produce]
  split
  · exact (walkInvariant_faithful hplain hlookup).produceNodes .root _
  · exact faithful_fail _

/-- **References stand for imports**: a stylesheet that compiles refers to exactly what it imports,
and imports only what the compiler could look up. -/
theorem faithful_of_compile (hplain : c.transforms.Plain)
    (hlookup : ∀ place target, c.lookup place = some target → known target)
    {source : Text} {compiled : Compiled} (h : (c.compile source).value = .ok compiled) :
    compiled.Faithful known := by
  rw [compile] at h
  dsimp only at h
  split at h
  · cases h
  · obtain rfl := Except.ok.inj h
    exact (faithful_produce hplain hlookup source).compiled

end Compiler

end MiniSheet
