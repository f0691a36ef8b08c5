import MiniSheet.Package.Rendering
import MiniSheet.Proofs.Declarations
import MiniSheet.Proofs.Numerals

/-!
# Values with other lengths in them

A length is read where a number stands in code with its unit behind it, and neither touches a name
(`Rpx.literal?_eq_some_iff`).

Rendering puts pixels in the place of device-relative lengths and copies the rest of a value
(`Rpx.rewrite`). A declaration stays well-formed that way (`Declaration.WellFormed.rewrite`),
because a length and the pixels that replace it look alike: both are made of digits, signs, points
and letters of a unit (`Text.isLengthChar`).

* None of these characters opens or closes anything, so what is open behind a value stays the same
  (`Rpx.run_rewrite_from`). This needs lengths to stand in code, which is where they are looked for.
* The unit of pixels has an `x` in it, which a marker has not. So a value that ends with a marker
  once its lengths are replaced has no length behind the exclamation mark, and ended with the same
  marker before (`Rpx.unmarked_rewrite`).
-/

namespace MiniSheet

open Text

/-! ## The characters of lengths -/

namespace Text

/-- A character of a number with a unit. -/
def isLengthChar (c : Char) : Bool := c.isDigit || "+-.rpx".toList.contains c

variable {c : Char}

theorem isLengthChar_of_isDigit (h : c.isDigit = true) : isLengthChar c = true := by
  rw [isLengthChar, h, Bool.true_or]

theorem isLengthChar_of_isNumberChar (h : Numeral.isNumberChar c = true) :
    isLengthChar c = true := by
  rcases Bool.or_eq_true_iff.1 h with hdigit | hother
  · exact isLengthChar_of_isDigit hdigit
  · have hmarks : "+-.".toList.all isLengthChar = true := by decide
    exact List.all_eq_true.1 hmarks c (List.contains_iff_mem.1 hother)

theorem isPlain_of_isLengthChar (h : isLengthChar c = true) : isPlain c = true :=
  isPlain_of_class (by decide) h

theorem isBlank_of_isLengthChar (h : isLengthChar c = true) : isBlank c = false := by
  rcases Bool.or_eq_true_iff.1 h with hdigit | hother
  · have hrange : 48 ≤ c.toNat ∧ c.toNat ≤ 57 := by
      simpa [Char.isDigit, Char.le_def, UInt32.le_iff_toNat_le] using hdigit
    simp [isBlank, blankRanges, Ranges.contains]
    omega
  · have hnone : ("+-.rpx".toList.all fun c => !isBlank c) = true := by decide
    simpa using List.all_eq_true.1 hnone c (List.contains_iff_mem.1 hother)

theorem isGap_of_isLengthChar (h : isLengthChar c = true) : isGap c = false := by
  rcases hgap : isGap c with _ | _
  · rfl
  · exact absurd (isBlank_of_isGap hgap)
      (by rw [isBlank_of_isLengthChar h]; exact Bool.false_ne_true)

end Text

/-- What a length may be replaced by: a text that looks like a length, with an `x` in its unit. -/
structure Text.IsPixels (t : Text) : Prop where
  /-- it looks like a length -/
  chars : ∀ c ∈ t, isLengthChar c = true
  /-- its unit -/
  unit : 'x' ∈ t

theorem Text.IsPixels.ne_nil {t : Text} (h : t.IsPixels) : t ≠ [] := List.ne_nil_of_mem h.unit

/-- Whole numbers are written with digits and a minus sign. -/
theorem Decimal.isDigit_or_minus {i : Int} {c : Char} (h : c ∈ ofInt i) :
    c.isDigit = true ∨ c = '-' := by
  have hdigits {n : Nat} (hn : c ∈ ofNat n) : c.isDigit = true :=
    Nat.isDigit_of_mem_toDigits (by decide) (by decide) hn
  cases i with
  | ofNat n => exact .inl (hdigits h)
  | negSucc n => exact (List.mem_cons.1 h).symm.imp_left hdigits

theorem Decimal.isPixels_ofInt (i : Int) : (ofInt i ++ ['p', 'x']).IsPixels where
  chars c hc := by
    rcases List.mem_append.1 hc with hnumber | hunit
    · rcases isDigit_or_minus hnumber with hdigit | rfl
      · exact isLengthChar_of_isDigit hdigit
      · rfl
    · have hpixels : ['p', 'x'].all isLengthChar = true := by decide
      exact List.all_eq_true.1 hpixels c hunit
  unit := List.mem_append_right _ (by decide)

theorem Package.isPixels_renderPixels (p : Package) (profile : Profile) (raw : Float) :
    (p.renderPixels profile raw).IsPixels := Decimal.isPixels_ofInt _

namespace Rpx

variable {zone : Zone} {previous : Option Char} {t rest value : Text} {n numeral : Numeral}

/-! ## Reading a length -/

/-- How the unit of a length is written. -/
def unit : Text := ['r', 'p', 'x']

/-- A length is read where a number is read with the unit behind it. -/
theorem read_eq_ok_iff_numeral :
    read t = .ok (n, rest) ↔ Numeral.read t = .ok (n, unit ++ rest) := by
  constructor
  · intro h
    obtain ⟨⟨numeral, behind⟩, hnumeral, hunit⟩ := Outcome.bind_eq_ok h
    dsimp only at hunit
    split at hunit
    · obtain ⟨rfl, rfl⟩ := Prod.mk.inj (Except.ok.inj hunit)
      exact hnumeral
    · cases hunit
  · intro h
    rw [read, h]
    rfl

/-- **A length is read exactly if a number and the unit are there.** -/
theorem read_eq_ok_iff : read t = .ok (n, rest) ↔ n.WellFormed ∧ t = n.text ++ (unit ++ rest) := by
  rw [read_eq_ok_iff_numeral]
  constructor
  · intro h
    exact ⟨Numeral.wellFormed_of_read h, Numeral.read_append h⟩
  · rintro ⟨hn, rfl⟩
    -- the unit starts with a letter, so the number ends in front of it
    exact Numeral.read_text_append hn ⟨by rintro c ⟨⟩; rfl, by simp [unit]⟩

theorem literal?_eq_some_iff : literal? zone previous t = some (n, rest) ↔
    zone.isCode = true ∧ (∀ c ∈ previous, isNameChar c = false) ∧ n.WellFormed ∧
    t = n.text ++ (unit ++ rest) ∧
      ∀ c ∈ rest.head?, isNameChar c = false := by
  have hany (o : Option Char) : o.any isNameChar = false ↔ ∀ c ∈ o, isNameChar c = false := by
    cases o <;> simp
  rw [literal?, ← hany, ← hany]
  constructor
  · intro h
    split at h
    · cases h
    · rename_i hplace
      split at h
      · rename_i hread
        split at h
        · cases h
        · rename_i hnext
          obtain ⟨rfl, rfl⟩ := Prod.mk.inj (Option.some.inj h)
          obtain ⟨hn, ht⟩ := read_eq_ok_iff.1 hread
          have hcode : zone.isCode = true ∧ previous.any isNameChar = false := by simpa using hplace
          exact ⟨hcode.1, hcode.2, hn, ht, Bool.eq_false_iff.2 hnext⟩
      · cases h
  · rintro ⟨hcode, hprevious, hn, ht, hnext⟩
    rw [hcode, hprevious, read_eq_ok_iff.2 ⟨hn, ht⟩]
    simp [hnext]

/-- Lengths stand in code. -/
theorem isCode_of_literal? (h : literal? zone previous t = some (numeral, rest)) :
    zone.isCode = true :=
  (literal?_eq_some_iff.1 h).1

theorem isLengthChar_of_literal? (h : literal? zone previous t = some (numeral, rest)) :
    ∀ c ∈ (Atom.literal numeral).source, isLengthChar c = true := by
  obtain ⟨-, -, hn, -⟩ := literal?_eq_some_iff.1 h
  have hletters : unit.all isLengthChar = true := by decide
  intro c hc
  rcases List.mem_append.1 hc with hc | hc
  · exact isLengthChar_of_isNumberChar (hn.isNumber.isNumberChar c hc)
  · exact List.all_eq_true.1 hletters c hc

/-! ## Replacing lengths -/

/-- An atom with something else for a length. -/
def Atom.rewrite (pixels : Float → Text) : Atom → Text
  | char c => [c]
  | literal numeral => pixels numeral.value

/-- A value with something else for each length. -/
def rewrite (pixels : Float → Text) (value : Text) : Text :=
  (atoms value).flatMap (Atom.rewrite pixels)

variable {pixels : Float → Text} (hpixels : ∀ raw, (pixels raw).IsPixels)

include hpixels

theorem Atom.rewrite_ne_nil (atom : Atom) : atom.rewrite pixels ≠ [] := by
  cases atom with
  | char c => exact List.cons_ne_nil _ _
  | literal numeral => exact (hpixels _).ne_nil

theorem rewrite_eq_nil (h : rewrite pixels value = []) : value = [] := by
  rw [← source_atoms value]
  rcases hatoms : atoms value with _ | ⟨first, rest⟩
  · rfl
  · rw [rewrite, hatoms, List.flatMap_cons] at h
    exact absurd (List.append_eq_nil_iff.1 h).1 (Atom.rewrite_ne_nil hpixels first)

/-- What a value starts with may become the start of a length, but nothing else. -/
theorem head_rewrite {p : Char → Prop} (hp : ∀ c, isLengthChar c = true → p c)
    (h : ∀ c ∈ value.head?, p c) : ∀ c ∈ (rewrite pixels value).head?, p c := by
  rw [← source_atoms value] at h
  rw [rewrite]
  rcases hatoms : atoms value with _ | ⟨first, rest⟩
  · rw [hatoms] at h
    exact h
  · rw [hatoms] at h
    cases first with
    | char c => exact h
    | literal numeral =>
      obtain ⟨c, text, htext⟩ := List.exists_cons_of_ne_nil (hpixels numeral.value).ne_nil
      intro other hother
      rw [List.flatMap_cons, Atom.rewrite, htext] at hother
      obtain rfl := Option.some.inj hother
      exact hp c ((hpixels numeral.value).chars c (by rw [htext]; exact List.mem_cons_self))

/-- And so may what it ends with. -/
theorem last_rewrite {p : Char → Prop} (hp : ∀ c, isLengthChar c = true → p c)
    (h : ∀ c ∈ value.getLast?, p c) : ∀ c ∈ (rewrite pixels value).getLast?, p c := by
  rw [← source_atoms value] at h
  rw [rewrite]
  rcases (atoms value).eq_nil_or_concat with hatoms | ⟨rest, last, hatoms⟩
  · rw [hatoms] at h ⊢
    exact h
  · rw [hatoms, List.concat_eq_append, List.flatMap_append, List.flatMap_singleton] at h ⊢
    cases last with
    | char c => simpa [Atom.source, Atom.rewrite] using h
    | literal numeral =>
      intro c hc
      have hmem : c ∈ pixels numeral.value := by
        rw [Atom.rewrite, List.getLast?_append,
          Option.or_of_isSome (by simpa using (hpixels _).ne_nil)] at hc
        exact List.mem_of_mem_getLast? hc
      exact hp c ((hpixels _).chars c hmem)

/-- Lengths and pixels leave the same open. -/
theorem run_rewrite_from (d : Depth) (hd : d.Proper) (hzone : d.zone = zone) :
    d.run ((atomsFrom zone previous t).flatMap (Atom.rewrite pixels)) = d.run t := by
  -- the zone that atoms are read with is that of the depth, all the way
  induction zone, previous, t using atomsFrom.induct generalizing d with
  | case1 zone previous => rw [atomsFrom_nil]; rfl
  | case2 zone previous c t numeral rest h ih =>
    have hcode : d.zone.isCode = true := by rw [hzone]; exact isCode_of_literal? h
    have hlength : d.run (Atom.literal numeral).source = some ⟨.code, d.closers⟩ :=
      Depth.run_of_isPlain hd hcode
        (fun c hc => isPlain_of_isLengthChar (isLengthChar_of_literal? h c hc))
        (by simp [Atom.source])
    have hnew : d.run (pixels numeral.value) = some ⟨.code, d.closers⟩ :=
      Depth.run_of_isPlain hd hcode (fun c hc => isPlain_of_isLengthChar ((hpixels _).chars c hc))
        (hpixels _).ne_nil
    calc d.run ((atomsFrom zone previous (c :: t)).flatMap (Atom.rewrite pixels))
      _ = (d.run (pixels numeral.value)).bind
          (·.run ((atomsFrom .code (some 'x') rest).flatMap (Atom.rewrite pixels))) := by
        rw [atomsFrom_of_some h, List.flatMap_cons, Depth.run_append]
        rfl
      _ = (d.run (Atom.literal numeral).source).bind (·.run rest) := by
        rw [hnew, hlength]
        exact ih _ (hd.run hlength) rfl
      _ = d.run (c :: t) := by rw [← Depth.run_append, ← literal?_append h]
  | case3 zone previous c t h ih =>
    rw [atomsFrom_of_none h, List.flatMap_cons]
    change d.run (c :: (atomsFrom (zone.step c) (some c) t).flatMap (Atom.rewrite pixels)) = _
    rw [Depth.run_cons, Depth.run_cons, ih (d.step c) (hd.step c) (by rw [← hzone]; rfl)]

theorem sealed_rewrite (h : Sealed value) : Sealed (rewrite pixels value) := by
  have hrun : Depth.start.run (rewrite pixels value) = Depth.start.run value :=
    run_rewrite_from hpixels .start Depth.proper_start rfl
  rw [Sealed, hrun]
  exact h

/-- Without an `x` there are no pixels, so nothing was replaced. -/
theorem flatMap_rewrite_of_not_mem {list : List Atom}
    (h : 'x' ∉ list.flatMap (Atom.rewrite pixels)) :
    list.flatMap (Atom.rewrite pixels) = list.flatMap Atom.source := by
  induction list with
  | nil => rfl
  | cons atom list ih =>
    rw [List.flatMap_cons, List.mem_append, not_or] at h
    rw [List.flatMap_cons, List.flatMap_cons, ih h.2]
    cases atom with
    | char c => rfl
    | literal numeral => exact absurd (hpixels _).unit h.1

/-- What stands behind an exclamation mark without an `x` in it stood there before. -/
theorem exists_front_of_rewrite {list : List Atom} {front word : Text}
    (h : list.flatMap (Atom.rewrite pixels) = front ++ '!' :: word) (hx : 'x' ∉ word) :
    ∃ before, list.flatMap Atom.source = before ++ '!' :: word := by
  induction list generalizing front with
  | nil => exact absurd h.symm (by simp)
  | cons atom list ih =>
    rw [List.flatMap_cons] at h ⊢
    have hlater (behind : Text) (hrest : list.flatMap (Atom.rewrite pixels) =
        behind ++ '!' :: word) :
        ∃ before, atom.source ++ list.flatMap Atom.source = before ++ '!' :: word := by
      obtain ⟨before, hbefore⟩ := ih hrest
      exact ⟨atom.source ++ before, by rw [hbefore, List.append_assoc]⟩
    rcases List.append_eq_append_iff.1 h with ⟨behind, -, hrest⟩ | ⟨behind, hatom, hword⟩
    · exact hlater behind hrest
    · cases behind with
      | nil => exact hlater [] hword.symm
      | cons mark behind =>
        -- the exclamation mark belongs to this atom, so it is all of it
        obtain ⟨rfl, hbehind⟩ := List.cons.inj hword
        cases atom with
        | char c =>
          obtain ⟨rfl, hmark⟩ : front = [] ∧ [c] = '!' :: behind := by
            cases front with
            | nil => exact ⟨rfl, hatom⟩
            | cons first front => simp [Atom.rewrite] at hatom
          obtain ⟨rfl, rfl⟩ := List.cons.inj hmark
          change word = list.flatMap (Atom.rewrite pixels) at hbehind
          rw [hbehind] at hx
          exact ⟨[], by rw [hbehind, flatMap_rewrite_of_not_mem hpixels hx]; rfl⟩
        | literal numeral =>
          have hmem : '!' ∈ pixels numeral.value := by
            change pixels numeral.value = _ at hatom
            rw [hatom]
            simp
          exact absurd ((hpixels _).chars '!' hmem) (by decide)

/-- A value that does not end with a marker does not end with one if its lengths are replaced. -/
theorem unmarked_rewrite (h : Declaration.Unmarked value) :
    Declaration.Unmarked (rewrite pixels value) := by
  intro front word hfront hword
  obtain ⟨before, hbefore⟩ :=
    exists_front_of_rewrite hpixels hfront (hword.not_mem (by decide) (by decide))
  rw [source_atoms] at hbefore
  exact h before word hbefore hword

end Rpx

/-- **A declaration stays well-formed** if its lengths are replaced by pixels. -/
theorem Declaration.WellFormed.rewrite {d : Declaration} (h : d.WellFormed) {pixels : Float → Text}
    (hpixels : ∀ raw, (pixels raw).IsPixels) :
    { d with value := Rpx.rewrite pixels d.value }.WellFormed where
  property_ne_nil := h.property_ne_nil
  property := h.property
  separator := h.separator
  value_head := Rpx.head_rewrite hpixels (fun _ => isGap_of_isLengthChar) h.value_head
  value_last := Rpx.last_rewrite hpixels (fun _ => isBlank_of_isLengthChar) h.value_last
  value_sealed := Rpx.sealed_rewrite hpixels h.value_sealed
  unmarked hmarker := Rpx.unmarked_rewrite hpixels (h.unmarked hmarker)
  marked := h.marked

end MiniSheet
