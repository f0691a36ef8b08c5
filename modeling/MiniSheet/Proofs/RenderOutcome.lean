import Mathlib.Logic.Relation
import MiniSheet.Package.Rendering
import MiniSheet.Proofs.Outcome

/-!
# When rendering succeeds

Rendering follows references without remembering where it has been; it only knows the stylesheets
that it is inside of. Nevertheless its outcome is a property of the graph of references alone:

* it succeeds exactly if every location that the references lead to has a stylesheet and lies on no
  cycle (`Package.renderAt_succeeds_iff`);
* a failure names a location of that kind that the references lead to
  (`Package.explains_of_renderAt`);
* so the device has no say in whether it succeeds (`Package.renderAt_succeeds_for_all`).

All of this holds of every package, whatever its chunks refer to. A list of chunks succeeds if each
chunk does and fails as the first one that fails, and only references can fail, so the proofs need
not look at chunks of other kinds: `Package.render_induction` is the induction that is left.
-/

namespace MiniSheet

open Relation

theorem Chunk.mem_targets {ρ : Type} {chunks : List (Chunk ρ)} {target : ρ} :
    target ∈ Chunk.targets chunks ↔ Chunk.nested target ∈ chunks := by
  rw [targets, List.mem_filterMap]
  constructor
  · rintro ⟨chunk, hmem, htarget⟩
    cases chunk with
    | nested other =>
      obtain rfl := Option.some.inj htarget
      exact hmem
    | text content => cases htarget
    | pixel raw => cases htarget
    | suffix raw => cases htarget
  · exact fun hmem => ⟨_, hmem, rfl⟩

namespace Package

variable {p : Package} {profile : Profile} {active : List Location} {location : Location}
  {sheet : Sheet}
  {chunk : Chunk Location} {chunks : List (Chunk Location)} {error : RenderError} {css : Text}

/-- It makes no difference whether a location is taken from the root once or twice. -/
@[simp] theorem root_join_join (p : Package) (location : Location) :
    p.root.join (p.root.join location) = p.root.join location := by
  rw [← Location.join_assoc, p.root_join_root]

@[simp] theorem at?_root_join (p : Package) (location : Location) :
    p.at? (p.root.join location) = p.at? location := by
  rw [at?, at?, root_join_join]

theorem location_of_at? (hat : p.at? location = some sheet) :
    sheet.location = p.root.join location :=
  Sheets.location_of_find? hat

/-! ### Equation lemmas

`renderIn` and `renderChunks` are defined by well-founded recursion; these are the equations proofs
work with. -/

theorem renderIn_of_at?_eq_none (hat : p.at? location = none) :
    p.renderIn profile active location = .error (.unknown (p.root.join location)) := by
  rw [renderIn]
  split
  · rfl
  · rename_i hsome
    rw [hat] at hsome
    cases hsome

theorem renderIn_of_mem_active (hat : p.at? location = some sheet)
    (hactive : sheet.location ∈ active) :
    p.renderIn profile active location = .error (.cyclic sheet.location) := by
  rw [renderIn]
  split
  · rename_i hnone
    rw [hat] at hnone
    cases hnone
  · rename_i found hsome
    rw [hat] at hsome
    obtain rfl := Option.some.inj hsome
    rw [dif_pos (List.contains_iff_mem.2 hactive)]

theorem renderIn_of_not_mem_active (hat : p.at? location = some sheet)
    (hactive : sheet.location ∉ active) :
    p.renderIn profile active location =
      p.renderChunks profile (sheet.location :: active) sheet.compiled.chunks := by
  rw [renderIn]
  split
  · rename_i hnone
    rw [hat] at hnone
    cases hnone
  · rename_i found hsome
    rw [hat] at hsome
    obtain rfl := Option.some.inj hsome
    rw [dif_neg (mt List.contains_iff_mem.1 hactive)]

/-- Render one chunk. -/
def renderChunk (p : Package) (profile : Profile) (active : List Location) :
    Chunk Location → Except RenderError Text
  | .text content => .ok content
  | .pixel raw => .ok (p.renderPixels profile raw)
  | .suffix _ => .ok []
  | .nested target => p.renderIn profile active target

@[simp] theorem renderChunks_nil : p.renderChunks profile active [] = .ok [] := by
  rw [renderChunks]

/-- Chunks are rendered one behind the other. -/
theorem renderChunks_cons : p.renderChunks profile active (chunk :: chunks) =
    p.renderChunk profile active chunk >>= fun front =>
      (p.renderChunks profile active chunks).map (front ++ ·) := by
  -- only a reference can fail, but all chunks go by one equation
  cases chunk with
  | text content =>
    rw [renderChunks]
    cases p.renderChunks profile active chunks <;> rfl
  | pixel raw =>
    rw [renderChunks]
    cases p.renderChunks profile active chunks <;> rfl
  | suffix raw =>
    rw [renderChunks]
    cases p.renderChunks profile active chunks <;> rfl
  | nested target =>
    rw [renderChunks]
    refine congrArg _ (funext fun front => ?_)
    cases p.renderChunks profile active chunks <;> rfl

/-! ## Chunks are as good as their references -/

/-- If chunks render, each of them does. -/
theorem exists_renderChunk_of_renderChunks (h : p.renderChunks profile active chunks = .ok css) :
    ∀ chunk ∈ chunks, ∃ front, p.renderChunk profile active chunk = .ok front := by
  induction chunks generalizing css with
  | nil => exact fun chunk hmem => absurd hmem List.not_mem_nil
  | cons first chunks ih =>
    rw [renderChunks_cons] at h
    obtain ⟨front, hfront, hrest⟩ := Outcome.bind_eq_ok h
    obtain ⟨rest, hchunks, -⟩ := Outcome.map_eq_ok hrest
    intro chunk hmem
    rcases List.mem_cons.1 hmem with rfl | hmem
    · exact ⟨front, hfront⟩
    · exact ih hchunks chunk hmem

/-- If chunks do not render, one of them fails in the same way. -/
theorem exists_renderChunk_error_of_renderChunks
    (h : p.renderChunks profile active chunks = .error error) :
    ∃ chunk ∈ chunks, p.renderChunk profile active chunk = .error error := by
  induction chunks with
  | nil =>
    rw [renderChunks_nil] at h
    cases h
  | cons first chunks ih =>
    rw [renderChunks_cons] at h
    rcases Outcome.bind_eq_error h with hfirst | ⟨front, -, hrest⟩
    · exact ⟨first, List.mem_cons_self, hfirst⟩
    · obtain ⟨chunk, hmem, hchunk⟩ := ih (Outcome.map_eq_error hrest)
      exact ⟨chunk, List.mem_cons_of_mem _ hmem, hchunk⟩

/-- If chunks render, their references do. -/
theorem exists_renderIn_of_renderChunks (h : p.renderChunks profile active chunks = .ok css) :
    ∀ target ∈ Chunk.targets chunks, ∃ front, p.renderIn profile active target = .ok front :=
  fun _ hmem => exists_renderChunk_of_renderChunks h _ (Chunk.mem_targets.1 hmem)

/-- If chunks do not render, one of their references fails in the same way. -/
theorem exists_renderIn_error_of_renderChunks
    (h : p.renderChunks profile active chunks = .error error) :
    ∃ target ∈ Chunk.targets chunks, p.renderIn profile active target = .error error := by
  obtain ⟨chunk, hmem, hchunk⟩ := exists_renderChunk_error_of_renderChunks h
  cases chunk with
  | nested target => exact ⟨target, Chunk.mem_targets.2 hmem, hchunk⟩
  | text content => cases hchunk
  | pixel raw => cases hchunk
  | suffix raw => cases hchunk

/-- **Induction along a rendering**: a location has no stylesheet, or one that is being rendered
already, or one whose references are rendered next. -/
theorem render_induction {P : List Location → Location → Prop}
    (unknown : ∀ active location, p.at? location = none → P active location)
    (closing : ∀ active location sheet, p.at? location = some sheet → sheet.location ∈ active →
      P active location)
    (enter : ∀ active location sheet, p.at? location = some sheet → sheet.location ∉ active →
      (∀ target ∈ Chunk.targets sheet.compiled.chunks, P (sheet.location :: active) target) →
      P active location)
    (active : List Location) (location : Location) : P active location := by
  refine (renderIn.mutual_induct p P (fun active chunks => ∀ target ∈ Chunk.targets chunks,
    P active target) unknown ?closing ?enter ?nil ?text ?pixel ?suffix ?nested).1 active location
  case closing =>
    intro active location sheet hat hactive
    exact closing active location sheet hat (List.contains_iff_mem.1 hactive)
  case enter =>
    intro active location sheet hat hactive ih
    exact enter active location sheet hat (mt List.contains_iff_mem.2 hactive) ih
  case nil => exact fun active target hmem => absurd hmem List.not_mem_nil
  case text => exact fun active content chunks ih => ih
  case pixel => exact fun active raw chunks ih => ih
  case suffix => exact fun active raw chunks ih => ih
  case nested =>
    intro active first chunks ihfirst ihrest target hmem
    rcases List.mem_cons.1 hmem with rfl | hmem
    · exact ihfirst
    · exact ihrest target hmem

/-! ## The graph of references -/

/-- The stylesheet at a location refers to another location. -/
def Refers (p : Package) (a b : Location) : Prop :=
  ∃ sheet, p.find? a = some sheet ∧ ∃ target ∈ Chunk.targets sheet.compiled.chunks,
    p.root.join target = b

/-- Nothing is wrong with a location: it has a stylesheet and lies on no cycle of references. -/
def Sound (p : Package) (a : Location) : Prop :=
  (∃ sheet, p.find? a = some sheet) ∧ ¬ TransGen p.Refers a a

/-- An error says what is wrong with a location that the references lead to. -/
def Explains (p : Package) (start : Location) : RenderError → Prop
  | .unknown a => ReflTransGen p.Refers start a ∧ p.find? a = none
  | .cyclic a => ReflTransGen p.Refers start a ∧ TransGen p.Refers a a

theorem refers_of_at? (hat : p.at? location = some sheet) {target : Location}
    (hmem : target ∈ Chunk.targets sheet.compiled.chunks) :
    p.Refers (p.root.join location) (p.root.join target) :=
  ⟨sheet, hat, target, hmem, rfl⟩

/-- References lead away from a location through one of the references of its stylesheet. -/
theorem exists_target_of_refers (hat : p.at? location = some sheet) {b : Location}
    (h : p.Refers (p.root.join location) b) :
    ∃ target ∈ Chunk.targets sheet.compiled.chunks, p.root.join target = b := by
  obtain ⟨found, hfind, htarget⟩ := h
  obtain rfl : sheet = found := Option.some.inj (hat.symm.trans hfind)
  exact htarget

/-- An error explains a rendering if it explains one that it calls for. -/
theorem Explains.of_refers {a b : Location} (hab : p.Refers a b) (h : p.Explains b error) :
    p.Explains a error := by
  cases error with
  | unknown c => exact ⟨h.1.head hab, h.2⟩
  | cyclic c => exact ⟨h.1.head hab, h.2⟩

/-- An error that explains something tells of a location that something is wrong with. -/
theorem Explains.exists_not_sound {a : Location} (h : p.Explains a error) :
    ∃ b, ReflTransGen p.Refers a b ∧ ¬ p.Sound b := by
  cases error with
  | unknown b =>
    refine ⟨b, h.1, fun hsound => ?_⟩
    obtain ⟨sheet, hfind⟩ := hsound.1
    rw [h.2] at hfind
    cases hfind
  | cyclic b => exact ⟨b, h.1, fun hsound => hsound.2 h.2⟩

/-! ## The outcome of a rendering -/

/-- A rendering that succeeds has met no location that something is wrong with, and none that it was
inside of already. -/
theorem sound_of_renderIn (p : Package) (profile : Profile) (active : List Location)
    (location : Location) :
    ∀ css, p.renderIn profile active location = .ok css →
      ∀ b, ReflTransGen p.Refers (p.root.join location) b → b ∉ active ∧ p.Sound b := by
  induction active, location using p.render_induction with
  | unknown active location hat =>
    intro css h
    rw [renderIn_of_at?_eq_none hat] at h
    cases h
  | closing active location sheet hat hactive =>
    intro css h
    rw [renderIn_of_mem_active hat hactive] at h
    cases h
  | enter active location sheet hat hactive ih =>
    intro css h b hreach
    rw [renderIn_of_not_mem_active hat hactive] at h
    have hrefs : ∀ target ∈ Chunk.targets sheet.compiled.chunks, ∀ c,
        ReflTransGen p.Refers (p.root.join target) c →
        c ∉ sheet.location :: active ∧ p.Sound c := by
      intro target hmem
      obtain ⟨front, hfront⟩ := exists_renderIn_of_renderChunks h target hmem
      exact ih target hmem front hfront
    rw [location_of_at? hat] at hactive hrefs
    rcases hreach.cases_head with rfl | ⟨c, hfirst, hrest⟩
    · refine ⟨hactive, ⟨sheet, hat⟩, fun hcycle => ?_⟩
      -- a cycle would come back here from one of the references, which know that we are inside
      obtain ⟨c, hfirst, hback⟩ := TransGen.head'_iff.1 hcycle
      obtain ⟨target, hmem, rfl⟩ := exists_target_of_refers hat hfirst
      exact (hrefs target hmem _ hback).1 List.mem_cons_self
    · obtain ⟨target, hmem, rfl⟩ := exists_target_of_refers hat hfirst
      obtain ⟨hout, hsound⟩ := hrefs target hmem b hrest
      exact ⟨fun hin => hout (List.mem_cons_of_mem _ hin), hsound⟩

/-- A rendering that fails, inside of stylesheets that lead to it, names what is wrong. -/
theorem explains_of_renderIn (p : Package) (profile : Profile) (active : List Location)
    (location : Location) :
    ∀ error, (∀ a ∈ active, TransGen p.Refers a (p.root.join location)) →
      p.renderIn profile active location = .error error →
      p.Explains (p.root.join location) error := by
  induction active, location using p.render_induction with
  | unknown active location hat =>
    intro error _ h
    rw [renderIn_of_at?_eq_none hat] at h
    obtain rfl := Except.error.inj h
    exact ⟨.refl, hat⟩
  | closing active location sheet hat hactive =>
    intro error htrail h
    rw [renderIn_of_mem_active hat hactive] at h
    obtain rfl := Except.error.inj h
    rw [location_of_at? hat] at hactive ⊢
    exact ⟨.refl, htrail _ hactive⟩
  | enter active location sheet hat hactive ih =>
    intro error htrail h
    rw [renderIn_of_not_mem_active hat hactive] at h
    obtain ⟨target, hmem, htarget⟩ := exists_renderIn_error_of_renderChunks h
    have hrefers := refers_of_at? hat hmem
    -- whatever leads here leads to the reference as well, and so does the stylesheet itself
    refine (ih target hmem error (fun a ha => ?_) htarget).of_refers hrefers
    rcases List.mem_cons.1 ha with rfl | ha
    · rw [location_of_at? hat]
      exact .single hrefers
    · exact (htrail a ha).tail hrefers

/-- **A failure is explained**: it names a location that the references lead to and that has no
stylesheet or lies on a cycle. -/
theorem explains_of_renderAt (h : p.renderAt profile location = .error error) :
    p.Explains (p.root.join location) error :=
  explains_of_renderIn p profile [] location error (fun _ ha => absurd ha List.not_mem_nil) h

/-- **When rendering succeeds**: exactly if nothing is wrong with any location that the references
lead to. -/
theorem renderAt_succeeds_iff : (∃ css, p.renderAt profile location = .ok css) ↔
    ∀ b, ReflTransGen p.Refers (p.root.join location) b → p.Sound b := by
  constructor
  · rintro ⟨css, h⟩ b hreach
    exact (sound_of_renderIn p profile [] location css h b hreach).2
  · intro hsound
    rcases hrender : p.renderAt profile location with error | css
    · obtain ⟨b, hreach, hb⟩ := (explains_of_renderAt hrender).exists_not_sound
      exact absurd (hsound b hreach) hb
    · exact ⟨css, rfl⟩

/-- What is recorded makes no difference to the text. -/
@[simp] theorem value_renderNamed (p : Package) (profile : Profile) (name : Text)
    (location : Location) :
    (p.renderNamed profile name location).value = p.renderAt profile location := by
  rw [renderNamed]
  cases p.renderAt profile location <;> rfl

/-- It makes no difference how the location is written. -/
theorem renderAt_root_join (p : Package) (profile : Profile) (location : Location) :
    p.renderAt profile (p.root.join location) = p.renderAt profile location := by
  rw [renderAt, renderAt]
  rcases hat : p.at? location with _ | sheet
  · rw [renderIn_of_at?_eq_none hat, renderIn_of_at?_eq_none (p.at?_root_join location ▸ hat),
      root_join_join]
  · rw [renderIn_of_not_mem_active hat List.not_mem_nil,
      renderIn_of_not_mem_active (p.at?_root_join location ▸ hat) List.not_mem_nil]

/-- What renders for one device renders for all. -/
theorem renderAt_succeeds_for_all (h : p.renderAt profile location = .ok css) (profile' : Profile) :
    ∃ css', p.renderAt profile' location = .ok css' :=
  renderAt_succeeds_iff.2 (renderAt_succeeds_iff.1 ⟨css, h⟩)

end Package

end MiniSheet
