import MiniSheet.Proofs.RenderAgreement
import MiniSheet.Proofs.Splicing

/-!
# What rendering knows of a device

All that a rendering asks the device is how many pixels a length has, and it never looks at the
answer. So two renderings of the same stylesheet for two devices go the same way
(`Package.renderIn_alike`): whatever relation holds between the pixels of one device and those of
the other, and is kept when texts are put together, holds between what is rendered, and if one
rendering fails, the other fails in the same way.

The widest relation of that kind says that the device has no say in what fails. The narrowest says
that the text is the same if all lengths are (`Package.render_depends_on_width_and_hairlines`), and
those depend on the width of the device and on whether it shows hairlines (`Profile.resolve_congr`).
-/

namespace MiniSheet

namespace Outcome

/-- Two computations end alike: both succeed, with related results, or both fail in the same way. -/
inductive Alike {ε α β : Type} (R : α → β → Prop) : Except ε α → Except ε β → Prop where
  /-- both succeed -/
  | ok {a : α} {b : β} (h : R a b) : Alike R (.ok a) (.ok b)
  /-- both fail -/
  | error (e : ε) : Alike R (.error e) (.error e)

variable {ε α β : Type} {R : α → β → Prop}

theorem Alike.error_iff {x : Except ε α} {y : Except ε β} (h : Alike R x y) (e : ε) :
    x = .error e ↔ y = .error e := by
  cases h with
  | ok h =>
    constructor
    · rintro ⟨⟩
    · rintro ⟨⟩
  | error e' => rw [Except.error.injEq, Except.error.injEq]

theorem Alike.exists_ok_iff {x : Except ε α} {y : Except ε β} (h : Alike R x y) :
    (∃ a, x = .ok a) ↔ ∃ b, y = .ok b := by
  cases h with
  | ok h => exact ⟨fun _ => ⟨_, rfl⟩, fun _ => ⟨_, rfl⟩⟩
  | error e =>
    constructor
    · rintro ⟨a, ⟨⟩⟩
    · rintro ⟨b, ⟨⟩⟩

theorem Alike.eq {x y : Except ε α} (h : Alike Eq x y) : x = y := by
  cases h with
  | ok h => exact congrArg _ h
  | error e => rfl

end Outcome

/-- A relation between texts that is kept when they are put together. -/
structure Text.Congruence (R : Text → Text → Prop) : Prop where
  /-- every text is related to itself -/
  refl : ∀ t, R t t
  /-- texts are put together -/
  append : ∀ {s s' t t'}, R s s' → R t t' → R (s ++ t) (s' ++ t')

namespace Outcome

theorem Alike.join {ε : Type} {R : Text → Text → Prop} (hR : Text.Congruence R)
    {x x' y y' : Except ε Text} (hx : Alike R x x') (hy : Alike R y y') :
    Alike R (join x y) (join x' y') := by
  cases hx with
  | error e => exact .error e
  | ok hfront =>
    cases hy with
    | error e => exact .error e
    | ok hback => exact .ok (hR.append hfront hback)

end Outcome

open Outcome

/-! ## Lengths -/

namespace Profile

variable {profile profile' : Profile}

theorem showsHairlines_iff :
    profile.showsHairlines = true ↔
      (profile.pixelRatio == 1.0) = true ∨ profile.platform = "ios".toList := by
  rw [showsHairlines, isIos, Bool.or_eq_true, beq_iff_eq (b := "ios".toList)]

/-- Lengths depend on the width of the device and on whether it shows hairlines. -/
theorem resolve_congr (hwidth : profile.width = profile'.width)
    (hhairlines : profile.showsHairlines = profile'.showsHairlines) (reference raw : Float) :
    profile.resolve reference raw = profile'.resolve reference raw := by
  rw [resolve, resolve, hwidth, hhairlines]

end Profile

/-! ## Two renderings -/

namespace Package

variable {p : Package} {profile profile' : Profile} {active : List Location}
  {R : Text → Text → Prop}

section

variable (hR : Text.Congruence R)
  (hpixels : ∀ raw, R (p.renderPixels profile raw) (p.renderPixels profile' raw))

include hR hpixels

/-- Chunks are rendered alike if their references are. -/
theorem renderChunks_alike {chunks : List (Chunk Location)}
    (h : ∀ target ∈ Chunk.targets chunks,
      Alike R (p.renderIn profile active target) (p.renderIn profile' active target)) :
    Alike R (p.renderChunks profile active chunks) (p.renderChunks profile' active chunks) := by
  induction chunks with
  | nil =>
    rw [renderChunks_nil, renderChunks_nil]
    exact .ok (hR.refl [])
  | cons chunk chunks ih =>
    rw [renderChunks_cons_eq_join, renderChunks_cons_eq_join]
    cases chunk with
    | text content => exact .join hR (.ok (hR.refl content)) (ih h)
    | pixel raw => exact .join hR (.ok (hpixels raw)) (ih h)
    | suffix raw => exact .join hR (.ok (hR.refl [])) (ih h)
    | nested target =>
      exact .join hR (h target List.mem_cons_self)
        (ih fun other hmem => h other (List.mem_cons_of_mem _ hmem))

/-- **Two devices are rendered for alike.** -/
theorem renderIn_alike (active : List Location) (location : Location) :
    Alike R (p.renderIn profile active location) (p.renderIn profile' active location) := by
  induction active, location using p.render_induction with
  | unknown active location hat =>
    rw [renderIn_of_at?_eq_none hat, renderIn_of_at?_eq_none hat]
    exact .error _
  | closing active location sheet hat hactive =>
    rw [renderIn_of_mem_active hat hactive, renderIn_of_mem_active hat hactive]
    exact .error _
  | enter active location sheet hat hactive ih =>
    rw [renderIn_of_not_mem_active hat hactive, renderIn_of_not_mem_active hat hactive]
    exact renderChunks_alike hR hpixels ih

end

/-- What fails for one device fails for every other, and in the same way. -/
theorem renderAt_alike (p : Package) (profile profile' : Profile) (location : Location) :
    Alike (fun _ _ => True) (p.renderAt profile location) (p.renderAt profile' location) :=
  renderIn_alike ⟨fun _ => trivial, fun _ _ => trivial⟩ (fun _ => trivial) [] location

/-- The text depends on the lengths alone. -/
theorem renderAt_congr (h : ∀ raw, p.renderPixels profile raw = p.renderPixels profile' raw)
    (location : Location) : p.renderAt profile location = p.renderAt profile' location :=
  (renderIn_alike ⟨fun _ => rfl, congrArg₂ (· ++ ·)⟩ h [] location).eq

/-- **Rendering depends on the width of the device and on whether it shows hairlines.** For any two
devices it succeeds for both, or fails for both in the same way. If both have the same width, and
both or neither have a pixel ratio of one or the platform that always shows hairlines, then all else
they differ in makes no difference, not even to what is recorded. -/
theorem render_depends_on_width_and_hairlines (p : Package) (path : Text)
    (profile profile' : Profile) :
    ((∃ css, (p.render profile path).value = .ok css) ↔
      ∃ css, (p.render profile' path).value = .ok css) ∧
    (∀ error, (p.render profile path).value = .error error ↔
      (p.render profile' path).value = .error error) ∧
    (profile.width = profile'.width →
      ((profile.pixelRatio == 1.0) = true ∨ profile.platform = "ios".toList ↔
        (profile'.pixelRatio == 1.0) = true ∨ profile'.platform = "ios".toList) →
      p.render profile path = p.render profile' path) := by
  rw [value_render, value_render]
  have halike := renderAt_alike p profile profile' (.ofText path)
  refine ⟨halike.exists_ok_iff, halike.error_iff, fun hwidth hclass => ?_⟩
  have hhairlines : profile.showsHairlines = profile'.showsHairlines := by
    rw [Bool.eq_iff_iff, Profile.showsHairlines_iff, Profile.showsHairlines_iff]
    exact hclass
  have hpixels (raw : Float) : p.renderPixels profile raw = p.renderPixels profile' raw := by
    rw [renderPixels, renderPixels, Profile.resolve_congr hwidth hhairlines]
  rw [render, render, renderNamed, renderNamed, renderAt_congr hpixels, hwidth]

/-- A stylesheet with a length of less than a pixel. -/
def hairline : Package :=
  (Package.empty ['/'] {} .standard).performAll [.insert ['a'] (some "w:1rpx".toList), .compileAll]

/-- A phone with many pixels, which shows hairlines all the same. -/
def phone : Profile := ⟨"ios".toList, 375, 812, 3⟩

/-- A screen of the same width with few pixels. -/
def screen : Profile := ⟨"android".toList, 375, 600, 1⟩

theorem render_depends_on_width_and_hairlines_phone :
    phone.width = screen.width ∧
      ((phone.pixelRatio == 1.0) = true ∨ phone.platform = "ios".toList ↔
        (screen.pixelRatio == 1.0) = true ∨ screen.platform = "ios".toList) ∧
      hairline.render phone ['a'] = hairline.render screen ['a'] := by
  have hclass : (phone.pixelRatio == 1.0) = true ∨ phone.platform = "ios".toList ↔
      (screen.pixelRatio == 1.0) = true ∨ screen.platform = "ios".toList :=
    ⟨fun _ => .inl (by decide +kernel), fun _ => .inr rfl⟩
  obtain ⟨-, -, hsame⟩ := render_depends_on_width_and_hairlines hairline ['a'] phone screen
  exact ⟨rfl, hclass, hsame rfl hclass⟩

end Package

end MiniSheet
