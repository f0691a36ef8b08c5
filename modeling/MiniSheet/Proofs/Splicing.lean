import MiniSheet.Proofs.ImportSites
import MiniSheet.Proofs.NormalForm
import MiniSheet.Proofs.RenderOutcome

/-!
# Rendering part by part

The accumulator puts texts together and leaves out empty ones, so the chunks of two productions are
not those of the one and then those of the other. Their symbols are, and chunks are rendered symbol
by symbol (`Package.renderChunks_eq_renderSymbols`). So what two productions render to together is
what the first one renders to and then what the second one does (`Package.renderProduction_append`).

Rendering also does not depend on where it is called from. If a stylesheet can be rendered inside
others, it is rendered to the same text on its own (`Package.renderAt_of_renderIn`). So the way
there need not be remembered, and rendering to a given depth gives the same text wherever it gives
one (`Package.eq_of_renderWithin`).
-/

namespace MiniSheet

namespace Outcome

variable {ε : Type} {x y z : Except ε Text} {t : Text}

/-- One text behind the other, if there are both. -/
def join (x y : Except ε Text) : Except ε Text := x >>= fun front => y.map (front ++ ·)

@[simp] theorem join_ok_ok (s t : Text) : join (.ok s : Except ε Text) (.ok t) = .ok (s ++ t) := rfl

@[simp] theorem join_nil (x : Except ε Text) : join x (.ok []) = x := by
  cases x with
  | error e => rfl
  | ok s => rw [join_ok_ok, List.append_nil]

@[simp] theorem nil_join (x : Except ε Text) : join (.ok []) x = x := by
  cases x with
  | error e => rfl
  | ok s => rfl

theorem join_assoc : join (join x y) z = join x (join y z) := by
  cases x with
  | error e => rfl
  | ok a =>
    cases y with
    | error e => rfl
    | ok b =>
      cases z with
      | error e => rfl
      | ok c => rw [join_ok_ok, join_ok_ok, join_ok_ok, join_ok_ok, List.append_assoc]

theorem join_eq_ok (h : join x y = .ok t) :
    ∃ front back, x = .ok front ∧ y = .ok back ∧ t = front ++ back := by
  obtain ⟨front, hfront, hrest⟩ := bind_eq_ok h
  obtain ⟨back, hback, rfl⟩ := map_eq_ok hrest
  exact ⟨front, back, hfront, hback, rfl⟩

end Outcome

open Outcome

namespace Package

variable {p : Package} {profile : Profile} {active active' : List Location} {location : Location}
  {chunks : List (Chunk Location)} {css : Text}

/-! ## Chunks -/

theorem renderChunks_cons_eq_join (chunk : Chunk Location) (chunks : List (Chunk Location)) :
    p.renderChunks profile active (chunk :: chunks) =
      join (p.renderChunk profile active chunk) (p.renderChunks profile active chunks) :=
  renderChunks_cons

/-! ## Symbols -/

/-- Render one symbol. -/
def renderSymbol (p : Package) (profile : Profile) (active : List Location) :
    Symbol Location → Except RenderError Text
  | .char c => .ok [c]
  | .pixel raw => .ok (p.renderPixels profile raw)
  | .suffix _ => .ok []
  | .nested target => p.renderIn profile active target

/-- Render symbols, one behind the other. -/
def renderSymbols (p : Package) (profile : Profile) (active : List Location) :
    List (Symbol Location) → Except RenderError Text
  | [] => .ok []
  | symbol :: symbols =>
    join (p.renderSymbol profile active symbol) (p.renderSymbols profile active symbols)

theorem renderSymbols_append (front back : List (Symbol Location)) :
    p.renderSymbols profile active (front ++ back) =
      join (p.renderSymbols profile active front) (p.renderSymbols profile active back) := by
  induction front with
  | nil => exact (nil_join _).symm
  | cons symbol front ih => rw [List.cons_append, renderSymbols, renderSymbols, ih, join_assoc]

theorem renderSymbols_map_char (content : Text) :
    p.renderSymbols profile active (content.map .char) = .ok content := by
  induction content with
  | nil => rfl
  | cons c content ih =>
    rw [List.map_cons, renderSymbols, ih]
    rfl

theorem renderSymbols_symbols (chunk : Chunk Location) :
    p.renderSymbols profile active chunk.symbols = p.renderChunk profile active chunk := by
  cases chunk with
  | text content => exact renderSymbols_map_char content
  | pixel raw | suffix raw | nested target => exact join_nil _

/-- **Chunks are rendered as their symbols are**, however texts are put together. -/
theorem renderChunks_eq_renderSymbols (chunks : List (Chunk Location)) :
    p.renderChunks profile active chunks =
      p.renderSymbols profile active (Chunk.flatten chunks) := by
  induction chunks with
  | nil => exact renderChunks_nil
  | cons chunk chunks ih =>
    rw [renderChunks_cons_eq_join, ih, Chunk.flatten_cons, renderSymbols_append,
      renderSymbols_symbols]

/-! ## Productions -/

/-- Render one thing that is written. -/
def renderEmission (p : Package) (profile : Profile) (active : List Location) :
    Emission Location → Except RenderError Text
  | .text content => .ok content
  | .chunk content => p.renderChunk profile active content

/-- Render what is written, one thing behind the other. -/
def renderEmissions (p : Package) (profile : Profile) (active : List Location) :
    List (Emission Location) → Except RenderError Text
  | [] => .ok []
  | emission :: emissions =>
    join (p.renderEmission profile active emission) (p.renderEmissions profile active emissions)

/-- What is written is rendered as its symbols are. -/
theorem renderEmissions_eq_renderSymbols (emissions : List (Emission Location)) :
    p.renderEmissions profile active emissions =
      p.renderSymbols profile active (emissions.flatMap Emission.symbols) := by
  induction emissions with
  | nil => rfl
  | cons emission emissions ih =>
    rw [renderEmissions, ih, List.flatMap_cons, renderSymbols_append]
    congr 1
    cases emission with
    | text content => exact (renderSymbols_map_char content).symm
    | chunk content => exact (renderSymbols_symbols content).symm

/-- Render what a production writes. -/
def renderProduction (p : Package) (profile : Profile) (production : Production) :
    Except RenderError Text :=
  p.renderChunks profile [] production.chunks

/-- The chunks of a production are rendered to what it writes. -/
theorem renderProduction_eq (production : Production) : p.renderProduction profile production =
    p.renderEmissions profile [] (production.events.filterMap Event.emission?) := by
  rw [renderProduction, renderChunks_eq_renderSymbols, production.flatten_chunks,
    renderEmissions_eq_renderSymbols]

/-- **Productions are rendered part by part.** -/
theorem renderProduction_append {first second : Production} (h : (first ++ second).failure = none) :
    p.renderProduction profile (first ++ second) =
      join (p.renderProduction profile first) (p.renderProduction profile second) := by
  simp only [renderProduction_eq, renderEmissions_eq_renderSymbols,
    (Production.events_append h).2.2, List.filterMap_append, List.flatMap_append,
    renderSymbols_append]

/-! ## Surroundings -/

/-- Chunks are rendered alike wherever their references are. -/
theorem renderChunks_congr
    (h : ∀ target ∈ Chunk.targets chunks, ∀ css, p.renderIn profile active target = .ok css →
      p.renderIn profile active' target = .ok css)
      (hrender : p.renderChunks profile active chunks = .ok css) :
    p.renderChunks profile active' chunks = .ok css := by
  induction chunks generalizing css with
  | nil => rwa [renderChunks_nil] at hrender ⊢
  | cons chunk chunks ih =>
    rw [renderChunks_cons_eq_join] at hrender
    obtain ⟨front, back, hfront, hback, rfl⟩ := join_eq_ok hrender
    have hrest := ih (fun target hmem => h target (by
      cases chunk with
      | nested first => exact List.mem_cons_of_mem _ hmem
      | text content | pixel raw | suffix raw => exact hmem)) hback
    have hfirst : p.renderChunk profile active' chunk = .ok front := by
      cases chunk with
      | nested target => exact h target List.mem_cons_self front hfront
      | text content | pixel raw | suffix raw => exact hfront
    rw [renderChunks_cons_eq_join, hfirst, hrest, join_ok_ok]

/-- What can be rendered inside some stylesheets is rendered alike inside fewer. -/
theorem renderIn_of_subset (hsub : active' ⊆ active)
    (h : p.renderIn profile active location = .ok css) :
    p.renderIn profile active' location = .ok css := by
  induction active, location using p.render_induction generalizing active' css with
  | unknown active location hat =>
    rw [renderIn_of_at?_eq_none hat] at h
    cases h
  | closing active location sheet hat hactive =>
    rw [renderIn_of_mem_active hat hactive] at h
    cases h
  | enter active location sheet hat hactive ih =>
    rw [renderIn_of_not_mem_active hat hactive] at h
    rw [renderIn_of_not_mem_active hat fun hmem => hactive (hsub hmem)]
    exact renderChunks_congr (fun target hmem css => ih target hmem (List.cons_subset_cons _ hsub))
      h

/-- **A text does not depend on where it is inlined.** -/
theorem renderAt_of_renderIn (h : p.renderIn profile active location = .ok css) :
    p.renderAt profile location = .ok css := renderIn_of_subset (List.nil_subset _) h

end Package

/-! ## Rendering to a given depth -/

/-- The text of chunks, given those of lengths and of references, as far as there are any. -/
def Chunk.fill? {ρ : Type} (pixels : Float → Text) (inline? : ρ → Option Text) :
    List (Chunk ρ) → Option Text
  | [] => some []
  | text content :: chunks => (fill? pixels inline? chunks).map (content ++ ·)
  | pixel raw :: chunks => (fill? pixels inline? chunks).map (pixels raw ++ ·)
  | suffix _ :: chunks => fill? pixels inline? chunks
  | nested target :: chunks =>
      (inline? target).bind fun front => (fill? pixels inline? chunks).map (front ++ ·)

namespace Package

variable {p : Package} {profile : Profile} {active : List Location} {location : Location}
  {chunks : List (Chunk Location)} {css css' : Text}

/-- Render the stylesheet at a location if its references do not lead on too far. Nothing is
remembered on the way, so this can be evaluated. -/
def renderWithin (p : Package) (profile : Profile) : Nat → Location → Option Text
  | 0, _ => none
  | depth + 1, location => (p.at? location).bind fun sheet =>
    Chunk.fill? (p.renderPixels profile) (p.renderWithin profile depth) sheet.compiled.chunks

/-- Chunks are filled with what they render to. -/
theorem eq_of_fill? {inline? : Location → Option Text}
    (h : ∀ target ∈ Chunk.targets chunks, ∀ css css',
      p.renderIn profile active target = .ok css → inline? target = some css' → css' = css)
    (hrender : p.renderChunks profile active chunks = .ok css)
    (hfill : Chunk.fill? (p.renderPixels profile) inline? chunks = some css') : css' = css := by
  induction chunks generalizing css css' with
  | nil =>
    rw [renderChunks_nil] at hrender
    obtain rfl := Except.ok.inj hrender
    exact (Option.some.inj hfill).symm
  | cons chunk chunks ih =>
    rw [renderChunks_cons_eq_join] at hrender
    obtain ⟨front, back, hfront, hback, rfl⟩ := join_eq_ok hrender
    cases chunk with
    | text content | pixel raw =>
      obtain rfl := Except.ok.inj hfront
      obtain ⟨rest, hrest, rfl⟩ := Option.map_eq_some_iff.1 hfill
      rw [ih h hback hrest]
    | suffix raw =>
      obtain rfl := Except.ok.inj hfront
      exact ih h hback hfill
    | nested target =>
      obtain ⟨first, hfirst, hfill⟩ := Option.bind_eq_some_iff.1 hfill
      obtain ⟨rest, hrest, rfl⟩ := Option.map_eq_some_iff.1 hfill
      rw [ih (fun other hmem => h other (List.mem_cons_of_mem _ hmem)) hback hrest,
        h target List.mem_cons_self front first hfront hfirst]

/-- **Rendering to a given depth is rendering**, where both come to an end. -/
theorem eq_of_renderWithin {depth : Nat} (h : p.renderIn profile active location = .ok css)
    (hwithin : p.renderWithin profile depth location = some css') : css' = css := by
  induction active, location using p.render_induction generalizing depth css css' with
  | unknown active location hat =>
    rw [renderIn_of_at?_eq_none hat] at h
    cases h
  | closing active location sheet hat hactive =>
    rw [renderIn_of_mem_active hat hactive] at h
    cases h
  | enter active location sheet hat hactive ih =>
    rw [renderIn_of_not_mem_active hat hactive] at h
    cases depth with
    | zero => cases hwithin
    | succ depth =>
      rw [renderWithin, hat] at hwithin
      exact eq_of_fill? (fun target hmem css css' => ih target hmem) h hwithin

/-- So what holds of the texts of all stylesheets can be checked by rendering them to a given
depth. -/
theorem forall_renderAt {depth : Nat} {good : Text → Bool} (hall : (p.sheets.all fun sheet =>
      (Chunk.fill? (p.renderPixels profile) (p.renderWithin profile depth)
        sheet.compiled.chunks).any good) = true)
    (h : p.renderAt profile location = .ok css) : good css = true := by
  rcases hat : p.at? location with _ | sheet
  · rw [renderAt, renderIn_of_at?_eq_none hat] at h
    cases h
  · rw [renderAt, renderIn_of_not_mem_active hat List.not_mem_nil] at h
    have hsheet := List.all_eq_true.1 hall sheet (mem_of_at? hat)
    rcases hfill :
      Chunk.fill? (p.renderPixels profile) (p.renderWithin profile depth)
        sheet.compiled.chunks with _ | css'
    · rw [hfill] at hsheet
      cases hsheet
    · rw [hfill, eq_of_fill? (fun target _ css css' => eq_of_renderWithin) h hfill] at hsheet
      exact hsheet

end Package

end MiniSheet
