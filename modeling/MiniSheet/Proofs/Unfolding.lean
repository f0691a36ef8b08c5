import MiniSheet.Proofs.Output
import MiniSheet.Proofs.RenderAgreement
import MiniSheet.Proofs.Splicing

/-!
# Rendering is compositional

The renderer carries along the stylesheets that it is inside of, and writes all it renders behind
one another. None of this can be told from its output: a stylesheet is rendered to the texts of its
chunks, one behind the other, where a reference stands for what the stylesheet that it names is
rendered to on its own (`Package.Spells`). This is not only true of what was rendered, it also says
what can be rendered (`Package.renderAt_eq_ok_iff`).

So a reference can be replaced by the chunks of the stylesheet that it names (`Package.Inlines`), as
often as one likes, and the text stays the same (`Package.spells_iff_of_inlines`): where a reference
stands, how deep it lies and how often it comes again makes no difference.
-/

namespace MiniSheet

open Relation Outcome

namespace Package

variable {p : Package} {profile : Profile} {active : List Location} {location : Location}
  {sheet : Sheet}
  {chunk : Chunk Location} {chunks chunks' front back : List (Chunk Location)} {css css' s t : Text}

/-! ## The text of chunks -/

/-- What a chunk comes to. -/
inductive Yields (p : Package) (profile : Profile) : Chunk Location → Text → Prop where
  /-- a text comes to itself -/
  | text (content : Text) : Yields p profile (.text content) content
  /-- a length comes to a whole number of pixels -/
  | pixel (raw : Float) : Yields p profile (.pixel raw)
      (Decimal.ofInt (profile.resolve p.options.referenceWidth raw) ++ ['p', 'x'])
  /-- a value that is never written comes to nothing -/
  | suffix (raw : Float) : Yields p profile (.suffix raw) []
  /-- a reference comes to what the stylesheet that it names is rendered to on its own -/
  | nested {target : Location} {css : Text} (h : p.renderAt profile target = .ok css) :
    Yields p profile (.nested target) css

/-- The text is what the chunks come to, one behind the other. -/
def Spells (p : Package) (profile : Profile) (chunks : List (Chunk Location)) (css : Text) : Prop :=
  ∃ texts, List.Forall₂ (p.Yields profile) chunks texts ∧ css = texts.flatten

theorem Yields.unique (hs : p.Yields profile chunk s) (ht : p.Yields profile chunk t) : s = t := by
  cases hs with
  | text | pixel | suffix =>
    cases ht
    rfl
  | nested hs =>
    cases ht with
    | nested ht => exact Except.ok.inj (hs.symm.trans ht)

theorem yields_nested_iff {target : Location} :
    p.Yields profile (.nested target) css ↔ p.renderAt profile target = .ok css := by
  constructor
  · rintro ⟨⟩
    assumption
  · exact .nested

theorem spells_nil : p.Spells profile [] [] := ⟨[], .nil, rfl⟩

theorem spells_cons : p.Spells profile (chunk :: chunks) css ↔
    ∃ first rest, p.Yields profile chunk first ∧ p.Spells profile chunks rest ∧
      css = first ++ rest := by
  constructor
  · rintro ⟨_, hchunk | ⟨hfirst, hrest⟩, rfl⟩
    exact ⟨_, _, hfirst, ⟨_, hrest, rfl⟩, rfl⟩
  · rintro ⟨first, _, hfirst, ⟨texts, hrest, rfl⟩, rfl⟩
    exact ⟨first :: texts, .cons hfirst hrest, rfl⟩

theorem spells_append : p.Spells profile (front ++ back) css ↔
    ∃ s t, p.Spells profile front s ∧ p.Spells profile back t ∧ css = s ++ t := by
  induction front generalizing css with
  | nil =>
    constructor
    · exact fun h => ⟨[], css, spells_nil, h, rfl⟩
    · rintro ⟨_, t, ⟨_, ⟨⟩, rfl⟩, h, rfl⟩
      exact h
  | cons chunk front ih =>
    rw [List.cons_append, spells_cons]
    constructor
    · rintro ⟨first, _, hfirst, hrest, rfl⟩
      obtain ⟨s, t, hs, ht, rfl⟩ := ih.1 hrest
      exact ⟨first ++ s, t, spells_cons.2 ⟨first, s, hfirst, hs, rfl⟩, ht,
        (List.append_assoc ..).symm⟩
    · rintro ⟨_, t, hfront, ht, rfl⟩
      obtain ⟨first, s, hfirst, hs, rfl⟩ := spells_cons.1 hfront
      exact ⟨first, s ++ t, hfirst, ih.2 ⟨s, t, hs, ht, rfl⟩, List.append_assoc ..⟩

theorem Spells.unique (hs : p.Spells profile chunks s)
    (ht : p.Spells profile chunks t) : s = t := by
  induction chunks generalizing s t with
  | nil =>
    obtain ⟨_, ⟨⟩, rfl⟩ := hs
    obtain ⟨_, ⟨⟩, rfl⟩ := ht
    rfl
  | cons chunk chunks ih =>
    obtain ⟨first, rest, hfirst, hrest, rfl⟩ := spells_cons.1 hs
    obtain ⟨first', rest', hfirst', hrest', rfl⟩ := spells_cons.1 ht
    rw [hfirst.unique hfirst', ih hrest hrest']

/-- What a text is made of can be rendered on its own. -/
theorem Spells.exists_renderAt (h : p.Spells profile chunks css) :
    ∀ target ∈ Chunk.targets chunks, ∃ text, p.renderAt profile target = .ok text := by
  intro target hmem
  obtain ⟨front, back, rfl⟩ := List.append_of_mem (Chunk.mem_targets.1 hmem)
  obtain ⟨-, _, -, hback, -⟩ := spells_append.1 h
  obtain ⟨text, -, htext, -⟩ := spells_cons.1 hback
  exact ⟨text, yields_nested_iff.1 htext⟩

/-! ## Rendering -/

theorem yields_of_renderChunk (h : p.renderChunk profile active chunk = .ok css) :
    p.Yields profile chunk css := by
  cases chunk with
  | text content =>
    obtain rfl := Except.ok.inj h
    exact .text _
  | pixel raw =>
    obtain rfl := Except.ok.inj h
    exact .pixel raw
  | suffix raw =>
    obtain rfl := Except.ok.inj h
    exact .suffix raw
  | nested target => exact .nested (renderAt_of_renderIn h)

/-- What chunks are rendered to, whatever they are inside of, is what they come to. -/
theorem spells_of_renderChunks (h : p.renderChunks profile active chunks = .ok css) :
    p.Spells profile chunks css := by
  induction chunks generalizing css with
  | nil =>
    rw [renderChunks_nil] at h
    obtain rfl := Except.ok.inj h
    exact spells_nil
  | cons chunk chunks ih =>
    rw [renderChunks_cons_eq_join] at h
    obtain ⟨first, rest, hfirst, hrest, rfl⟩ := join_eq_ok h
    exact spells_cons.2 ⟨first, rest, yields_of_renderChunk hfirst, ih hrest, rfl⟩

/-- If all references of a stylesheet can be rendered on their own, so can the stylesheet. -/
theorem renderAt_succeeds_of_targets (hat : p.at? location = some sheet)
    (h : ∀ target ∈ Chunk.targets sheet.compiled.chunks, ∃ text,
      p.renderAt profile target = .ok text) :
    ∃ css, p.renderAt profile location = .ok css := by
  have hbehind {a b : Location} (hfirst : p.Refers (p.root.join location) a)
      (hrest : ReflTransGen p.Refers a b) :
      p.Sound b := by
    obtain ⟨target, hmem, rfl⟩ := exists_target_of_refers hat hfirst
    exact renderAt_succeeds_iff.1 (h target hmem) b hrest
  refine renderAt_succeeds_iff.2 fun b hreach => ?_
  rcases hreach.cases_head with rfl | ⟨a, hfirst, hrest⟩
  · -- a cycle through the stylesheet would go through one of its references
    refine ⟨⟨sheet, hat⟩, fun hcycle => ?_⟩
    obtain ⟨a, hfirst, hback⟩ := TransGen.head'_iff.1 hcycle
    exact (hbehind hfirst hback).2 hcycle
  · exact hbehind hfirst hrest

/-- **A stylesheet is rendered to what its chunks come to**, and if they come to anything it can be
rendered. -/
theorem renderAt_eq_ok_iff (hat : p.at? location = some sheet) :
    p.renderAt profile location = .ok css ↔ p.Spells profile sheet.compiled.chunks css := by
  have hspells {css : Text} (h : p.renderAt profile location = .ok css) :
      p.Spells profile sheet.compiled.chunks css := by
    rw [renderAt, renderIn_of_not_mem_active hat List.not_mem_nil] at h
    exact spells_of_renderChunks h
  constructor
  · exact hspells
  · intro h
    obtain ⟨css', hrender⟩ := renderAt_succeeds_of_targets hat h.exists_renderAt
    rw [h.unique (hspells hrender), hrender]

/-! ## Inlining -/

/-- A reference is replaced by the chunks of the stylesheet that it names. -/
inductive Inlines (p : Package) : List (Chunk Location) → List (Chunk Location) → Prop where
  /-- the reference may stand anywhere -/
  | intro (front back : List (Chunk Location)) {target : Location} {sheet : Sheet}
    (hat : p.at? target = some sheet) :
    Inlines p (front ++ .nested target :: back) (front ++ (sheet.compiled.chunks ++ back))

/-- A reference and the chunks that it stands for come to the same. -/
theorem Inlines.spells_iff (h : p.Inlines chunks chunks') :
    p.Spells profile chunks css ↔ p.Spells profile chunks' css := by
  obtain @⟨front, back, target, sheet, hat⟩ := h
  have hinner (css : Text) : p.Spells profile (.nested target :: back) css ↔
      p.Spells profile (sheet.compiled.chunks ++ back) css := by
    rw [spells_cons, spells_append]
    simp only [yields_nested_iff, renderAt_eq_ok_iff hat]
  rw [spells_append, spells_append]
  simp only [hinner]

/-- **However much is inlined, the text stays the same.** -/
theorem spells_iff_of_inlines (h : ReflTransGen p.Inlines chunks chunks') :
    p.Spells profile chunks css ↔ p.Spells profile chunks' css := by
  induction h with
  | refl => exact Iff.rfl
  | tail _ hstep ih => exact ih.trans hstep.spells_iff

/-- **Rendering is compositional**, in every package and for every device. If a stylesheet is
rendered, all that it refers to can be rendered on its own, and its text is what its chunks come to,
one behind the other. This is still so if references are replaced by the chunks that they stand for,
to any depth and any number of times. And inside of whatever stylesheets something is rendered, the
text is the one that it is rendered to on its own. -/
theorem render_is_compositional {path : Text} (hget : p.get? path = some sheet) (profile : Profile)
    (css : Text) :
    ((p.render profile path).value = .ok css →
      ∀ target, .nested target ∈ sheet.compiled.chunks →
        ∃ text, p.renderAt profile target = .ok text) ∧
    ((p.render profile path).value = .ok css ↔ p.Spells profile sheet.compiled.chunks css) ∧
    (∀ chunks, ReflTransGen p.Inlines sheet.compiled.chunks chunks →
      ((p.render profile path).value = .ok css ↔ p.Spells profile chunks css)) ∧
    ∀ active location text, p.renderIn profile active location = .ok text →
      p.renderAt profile location = .ok text := by
  have hspells : (p.render profile path).value = .ok css ↔
      p.Spells profile sheet.compiled.chunks css := by
    rw [value_render]
    exact renderAt_eq_ok_iff hget
  refine ⟨fun hrender target hmem => ?_, hspells,
    fun chunks hinlines => hspells.trans (spells_iff_of_inlines hinlines),
    fun active location text => renderAt_of_renderIn⟩
  exact (hspells.1 hrender).exists_renderAt target (Chunk.mem_targets.2 hmem)

/-- A stylesheet that imports `b` twice and `c` once, where `b` imports `c` inside a block. -/
def fugue : Package := (Package.empty ['/'] {} .standard).performAll
  [.insert ['a'] (some "@import 'b';.x\x7bw:20rpx\x7d@import 'b';@import 'c';".toList),
    .insert ['b'] (some "@m\x7b@import 'c';\x7d".toList), .insert ['c'] (some "w:8rpx;".toList),
    .compileAll]

/-- The chunks of the stylesheet with everything inlined: those of `c` come three times, twice
inside a block. -/
def fugueChunks : List (Chunk Location) :=
  let c : List (Chunk Location) := [.text "w:".toList, .pixel 8, .text ";".toList]
  let b : List (Chunk Location) := .text "@m\x7b".toList :: c ++ [.text "\x7d".toList]
  b ++ [.text ".x\x7bw:".toList, .pixel 20, .text "\x7d".toList] ++ b ++ c

/-- What it is rendered to. -/
def fugueOutput : Text := "@m\x7bw:4px;\x7d.x\x7bw:10px\x7d@m\x7bw:4px;\x7dw:4px;".toList

/-- Inlining one reference after the other leads to chunks without references, and those can be read
off. -/
theorem render_is_compositional_fugue : ∃ sheet, fugue.get? ['a'] = some sheet ∧
    ReflTransGen fugue.Inlines sheet.compiled.chunks fugueChunks ∧
    (fugue.render (.ofMetrics {}) ['a']).value = .ok fugueOutput := by
  let b : Chunk Location := .nested (.absolute [['b']])
  let c : Chunk Location := .nested (.absolute [['c']])
  let opening : Chunk Location := .text "@m\x7b".toList
  let closing : Chunk Location := .text "\x7d".toList
  let rule : List (Chunk Location) := [.text ".x\x7bw:".toList, .pixel 20, closing]
  let width : List (Chunk Location) := [.text "w:".toList, .pixel 8, .text ";".toList]
  have hsheet (location : Location) (chunks : List (Chunk Location))
      (h : (fugue.at? location).map (·.compiled.chunks) = some chunks) :
      ∃ sheet, fugue.at? location = some sheet ∧ sheet.compiled.chunks = chunks :=
        Option.map_eq_some_iff.1 h
  obtain ⟨sheet, ha, hchunks⟩ := hsheet (.ofText ['a']) (b :: rule ++ [b, c]) (by decide +kernel)
  have hb (front back : List (Chunk Location)) :
      fugue.Inlines (front ++ b :: back) (front ++ ([opening, c, closing] ++ back)) := by
    obtain ⟨sheet, hat, hchunks⟩ :=
      hsheet (.absolute [['b']]) [opening, c, closing] (by decide +kernel)
    exact hchunks ▸ .intro front back hat
  have hc (front back : List (Chunk Location)) :
      fugue.Inlines (front ++ c :: back) (front ++ (width ++ back)) := by
    obtain ⟨sheet, hat, hchunks⟩ := hsheet (.absolute [['c']]) width (by decide +kernel)
    exact hchunks ▸ .intro front back hat
  have hinlines : ReflTransGen fugue.Inlines sheet.compiled.chunks fugueChunks := by
    rw [hchunks]
    refine .head (hb [] _) (.head (hc [opening] _) ?_)
    refine .head (hb (opening :: width ++ closing :: rule) _) ?_
    refine .head (hc (opening :: width ++ closing :: rule ++ [opening]) _) ?_
    exact .single (hc (opening :: width ++ closing :: rule ++ opening :: width ++ [closing]) [])
  have hrender : fugue.renderChunks (.ofMetrics {}) [] fugueChunks = .ok fugueOutput := by
    rw [renderChunks_of_targets (by decide +kernel)]
    decide +kernel
  obtain ⟨-, -, hinlined, -⟩ := render_is_compositional ha (.ofMetrics {}) fugueOutput
  exact ⟨sheet, ha, hinlines, (hinlined fugueChunks hinlines).2 (spells_of_renderChunks hrender)⟩

end Package

end MiniSheet
