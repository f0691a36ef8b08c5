import Mathlib.Data.List.Forall2
import MiniSheet.Proofs.RpxLiterals
import MiniSheet.Proofs.Splicing
import MiniSheet.Text.Bytes

/-!
# Replacing lengths

A value is written with a hole for each of its lengths, and rendered with pixels in the holes.
Nothing else of it changes (`DeclarationTransform.rpx_replaces_lengths`): with the lengths put back
into the holes, what is written is the value again.

The value is written by its atoms here, and it may as well be copied from one length to the next, by
the offsets at which lengths are found (`Rpx.copyFrom_literals`).

A value that was rendered has no length left in it (`Rpx.literals_rewrite`). Pixels end with
letters, and letters do not stand in numbers, so a length that is found afterwards has nothing of
any pixels in it (`Rpx.exists_of_rewrite_eq`). Then it would have been found before: pixels start
and end like parts of a name, as lengths end, so that what touches a name afterwards touched one
before, and they leave strings and comments as they are (`Rpx.literal?_rewrite`,
`Rpx.atomsFrom_rewrite`).
-/

namespace MiniSheet

open Text

/-! ## Holes -/

namespace Symbol

variable {ρ : Type}

/-- The number of a length. -/
def pixel? : Symbol ρ → Option Float
  | pixel raw => some raw
  | _ => none

/-- Put texts in the place of lengths, one for each. There must be nothing else than characters and
lengths. -/
def refill? : List (Symbol ρ) → List Text → Option Text
  | [], [] => some []
  | char c :: symbols, texts => (refill? symbols texts).map (c :: ·)
  | pixel _ :: symbols, text :: texts => (refill? symbols texts).map (text ++ ·)
  | _, _ => none

end Symbol

namespace Rpx

variable {zone : Zone} {previous : Option Char} {t rest number : Text} {list : List Atom}

theorem any_isLiteral_iff :
    list.any Atom.isLiteral = true ↔ ∃ raw, .pixel raw ∈ list.map Atom.symbol := by
  rw [List.any_eq_true]
  constructor
  · rintro ⟨atom, hmem, hliteral⟩
    cases atom with
    | char c => cases hliteral
    | literal n => exact ⟨n.value, List.mem_map_of_mem hmem⟩
  · rintro ⟨raw, hraw⟩
    obtain ⟨atom, hmem, hatom⟩ := List.mem_map.1 hraw
    cases atom with
    | char c => cases hatom
    | literal n => exact ⟨_, hmem, rfl⟩

theorem filterMap_pixel? (offset : Nat) (list : List Atom) :
    (list.map Atom.symbol).filterMap Symbol.pixel? =
      (literalsFrom offset list).map fun l => l.numeral.value := by
  induction list generalizing offset with
  | nil => rfl
  | cons atom list ih =>
    cases atom with
    | char c => exact ih _
    | literal n => exact congrArg (n.value :: ·) (ih _)

/-- With the lengths as they are written, atoms are the text that they were read from. -/
theorem refill?_slices (front : Text) (list : List Atom) : ∃ slices,
    List.Forall₂
      (fun l slice => slice? (front ++ list.flatMap Atom.source) l.start l.stop = some slice)
      (literalsFrom (byteSize front) list) slices ∧
    Symbol.refill? (list.map Atom.symbol) slices = some (list.flatMap Atom.source) := by
  induction list generalizing front with
  | nil => exact ⟨[], .nil, rfl⟩
  | cons atom list ih =>
    obtain ⟨slices, hslices, hrefill⟩ := ih (front ++ atom.source)
    rw [List.append_assoc, ← List.flatMap_cons] at hslices
    cases atom with
    | char c =>
      refine ⟨slices, ?_, ?_⟩
      · simpa [literalsFrom, Atom.source] using hslices
      · rw [List.map_cons, Atom.symbol, Symbol.refill?, hrefill]
        rfl
    | literal n =>
      have hslice : slice? (front ++ (Atom.literal n :: list).flatMap Atom.source) (byteSize front)
          (byteSize (front ++ (Atom.literal n).source)) = some (Atom.literal n).source := by
        rw [List.flatMap_cons, ← List.append_assoc]
        exact slice?_append _ _ _
      refine ⟨(Atom.literal n).source :: slices, ?_, ?_⟩
      · rw [literalsFrom, ← byteSize_append]
        exact List.Forall₂.cons hslice hslices
      · rw [List.map_cons, Atom.symbol, Symbol.refill?, hrefill]
        rfl

/-- With other texts for the lengths, atoms are what they are rewritten to. -/
theorem refill?_pixels (pixels : Float → Text) (list : List Atom) :
    Symbol.refill? (list.map Atom.symbol)
        (((list.map Atom.symbol).filterMap Symbol.pixel?).map pixels) =
      some (list.flatMap (Atom.rewrite pixels)) := by
  induction list with
  | nil => rfl
  | cons atom list ih =>
    cases atom with
    | char c => exact congrArg (Option.map (c :: ·)) ih
    | literal n => exact congrArg (Option.map (pixels n.value ++ ·)) ih

theorem renderSymbols_symbol (p : Package) (profile : Profile) (active : List Location)
    (list : List Atom) :
    p.renderSymbols profile active (list.map Atom.symbol) =
      .ok (list.flatMap (Atom.rewrite (p.renderPixels profile))) := by
  induction list with
  | nil => rfl
  | cons atom list ih =>
    rw [List.map_cons, Package.renderSymbols, ih]
    cases atom <;> rfl

/-! ## Copying from length to length -/

/-- Write what is left of a value from an offset on, given the lengths that are left: the text in
front of each, and a hole for it. -/
def copyFrom (value : Text) (copied : Nat) :
    List Literal → Accumulator Location → Option (Accumulator Location)
  | [], a => (slice? value copied (byteSize value)).map a.append
  | l :: ls, a => do
    let between ← slice? value copied l.start
    copyFrom value l.stop ls ((a.append between).flush (some (.pixel l.numeral.value)))

theorem copyFrom_literalsFrom (a : Accumulator Location) (copied between : Text)
    (list : List Atom) :
    copyFrom (copied ++ between ++ list.flatMap Atom.source) (byteSize copied)
      (literalsFrom (byteSize (copied ++ between)) list) a =
        some ((a.append between).emitAll (list.map Atom.emission)) := by
  -- the text between the last length and this place is not copied yet
  induction list generalizing a copied between with
  | nil =>
    have hslice : slice? (copied ++ between) (byteSize copied) (byteSize (copied ++ between)) =
        some between := by
      simpa using slice?_append copied between []
    rw [List.flatMap_nil, List.append_nil, literalsFrom, copyFrom, hslice]
    rfl
  | cons atom list ih =>
    rw [List.flatMap_cons, ← List.append_assoc]
    cases atom with
    | char c =>
      have hoffset : byteSize (copied ++ between) + c.utf8Size =
          byteSize (copied ++ (between ++ [c])) := by
        simp [Nat.add_assoc]
      have hwritten : (a.append between).append [c] = a.append (between ++ [c]) := by
        simp [Accumulator.append]
      rw [literalsFrom, hoffset, List.append_assoc copied]
      exact (ih a copied (between ++ [c])).trans (by rw [← hwritten]; rfl)
    | literal n =>
      have hslice :=
        slice?_append copied between ((Atom.literal n).source ++ list.flatMap Atom.source)
      have hrest :=
        ih ((a.append between).flush (some (.pixel n.value)))
          (copied ++ between ++ (Atom.literal n).source) []
      rw [← List.append_assoc] at hslice
      rw [List.append_nil] at hrest
      rw [literalsFrom, copyFrom, hslice, ← byteSize_append]
      exact hrest

/-- **Copying from length to length** writes what is written for the atoms. -/
theorem copyFrom_literals (value : Text) (a : Accumulator Location) :
    copyFrom value 0 (literals value) a = some (a.emitAll ((atoms value).map Atom.emission)) := by
  have hcopy := copyFrom_literalsFrom a [] [] (atoms value)
  have hnil : a.append [] = a := by simp [Accumulator.append]
  rw [source_atoms, hnil] at hcopy
  exact hcopy

/-! ## Pixels have no lengths in them -/

/-- A length in whole pixels. -/
def wholePixels (resolve : Float → Int) (raw : Float) : Text :=
  Decimal.ofInt (resolve raw) ++ ['p', 'x']

theorem isNumberChar_ofInt (i : Int) : ∀ c ∈ Decimal.ofInt i, Numeral.isNumberChar c = true := by
  intro c hc
  rcases Decimal.isDigit_or_minus hc with hdigit | rfl
  · rw [Numeral.isNumberChar, hdigit, Bool.true_or]
  · rfl

theorem exists_head_ofInt (i : Int) :
    ∃ c digits, Decimal.ofInt i = c :: digits ∧ isNameChar c = true := by
  have hne : Decimal.ofInt i ≠ [] := by
    cases i with
    | ofNat n => exact Nat.toDigits_ne_nil
    | negSucc n => exact List.cons_ne_nil _ _
  obtain ⟨c, digits, hdigits⟩ := List.exists_cons_of_ne_nil hne
  refine ⟨c, digits, hdigits, ?_⟩
  rcases Decimal.isDigit_or_minus (by rw [hdigits]; exact List.mem_cons_self) with hdigit | rfl
  · exact isNameChar_of_isDigit hdigit
  · decide +kernel

/-- A text starts with one number only, if something else stands behind it. -/
theorem eq_of_number_append {number' t' : Text} {c d : Char}
    (h : number ++ c :: t = number' ++ d :: t')
    (hnumber : ∀ c ∈ number, Numeral.isNumberChar c = true)
    (hnumber' : ∀ c ∈ number', Numeral.isNumberChar c = true) (hc : Numeral.isNumberChar c = false)
    (hd : Numeral.isNumberChar d = false) : c :: t = d :: t' := by
  have hbehind {number t : Text} {c : Char} (hnumber : ∀ c ∈ number, Numeral.isNumberChar c = true)
      (hc : Numeral.isNumberChar c = false) :
      (number ++ c :: t).dropWhile Numeral.isNumberChar = c :: t :=
    dropWhile_append_of_head hnumber (by rintro _ ⟨⟩; exact hc)
  rw [← hbehind hnumber hc, h, hbehind hnumber' hd]

/-- A number with something else than the unit behind it is no length, and no part of it is. -/
theorem literal?_eq_none {c : Char} (hnumber : ∀ c ∈ number, Numeral.isNumberChar c = true)
    (hc : Numeral.isNumberChar c = false) (hunit : c ≠ 'r') :
    literal? zone previous (number ++ c :: t) = none := by
  rcases hliteral : literal? zone previous (number ++ c :: t) with _ | ⟨n, rest⟩
  · rfl
  · obtain ⟨-, -, hn, htext, -⟩ := literal?_eq_some_iff.1 hliteral
    have hbehind : c :: t = 'r' :: 'p' :: 'x' :: rest :=
      eq_of_number_append htext hnumber hn.isNumber.isNumberChar hc rfl
    exact absurd (List.cons.inj hbehind).1 hunit

theorem atomsFrom_number (hnumber : ∀ c ∈ number, Numeral.isNumberChar c = true) :
    atomsFrom zone previous (number ++ 'p' :: 'x' :: t) = (number ++ ['p', 'x']).map .char ++
      atomsFrom (zone.after (number ++ ['p', 'x'])) (some 'x') t := by
  induction number generalizing zone previous with
  | nil =>
    have hnone (zone : Zone) (previous : Option Char) {c : Char}
        (hc : Numeral.isNumberChar c = false) (hunit : c ≠ 'r') (t : Text) :
        literal? zone previous ([] ++ c :: t) = none :=
      literal?_eq_none (by simp) hc hunit
    rw [List.nil_append, atomsFrom_of_none (hnone _ _ rfl (by decide) _),
      atomsFrom_of_none (hnone _ _ rfl (by decide) _)]
    rfl
  | cons c number ih =>
    have hnone : literal? zone previous (c :: number ++ 'p' :: 'x' :: t) = none :=
      literal?_eq_none hnumber rfl (by decide)
    rw [List.cons_append] at hnone ⊢
    rw [atomsFrom_of_none hnone, ih fun c hc => hnumber c (List.mem_cons_of_mem _ hc)]
    rfl

/-! ## No length is left -/

variable {resolve : Float → Int}

/-- A text that does not start with pixels starts with a character that was not replaced. -/
theorem exists_char_of_rewrite_eq {c : Char}
    (h : list.flatMap (Atom.rewrite (wholePixels resolve)) = c :: t)
    (hnot : ∀ i s, c :: t ≠ Decimal.ofInt i ++ 'p' :: s) :
    ∃ later, list = .char c :: later ∧ later.flatMap (Atom.rewrite (wholePixels resolve)) = t := by
  rcases list with _ | ⟨atom, later⟩
  · cases h
  · rw [List.flatMap_cons] at h
    cases atom with
    | char d =>
      obtain ⟨rfl, hrest⟩ := List.cons.inj h
      exact ⟨later, rfl, hrest⟩
    | literal n =>
      rw [Atom.rewrite, wholePixels, List.append_assoc] at h
      exact absurd h.symm (hnot _ _)

/-- **Lengths are not made of pixels.** Where a number and the unit are found after lengths were
replaced, no character of them was put there. -/
theorem exists_of_rewrite_eq (hnumber : ∀ c ∈ number, Numeral.isNumberChar c = true)
    (h : list.flatMap (Atom.rewrite (wholePixels resolve)) = number ++ (unit ++ rest)) :
    ∃ later, list = (number ++ unit).map .char ++ later ∧
      later.flatMap (Atom.rewrite (wholePixels resolve)) = rest := by
  induction number generalizing list with
  | nil =>
    -- pixels do not start with a letter
    have hletter {c : Char} (hc : Numeral.isNumberChar c = false) (t : Text) (i : Int) (s : Text) :
        c :: t ≠ Decimal.ofInt i ++ 'p' :: s := by
      intro heq
      obtain ⟨d, digits, hdigits, -⟩ := exists_head_ofInt i
      have hd := isNumberChar_ofInt i d (by rw [hdigits]; exact List.mem_cons_self)
      rw [hdigits] at heq
      rw [(List.cons.inj heq).1, hd] at hc
      cases hc
    obtain ⟨_, rfl, hr⟩ := exists_char_of_rewrite_eq h (hletter rfl _)
    obtain ⟨_, rfl, hp⟩ := exists_char_of_rewrite_eq hr (hletter rfl _)
    obtain ⟨later, rfl, hx⟩ := exists_char_of_rewrite_eq hp (hletter rfl _)
    exact ⟨later, rfl, hx⟩
  | cons c number ih =>
    have hunit : ∀ i s, c :: (number ++ (unit ++ rest)) ≠ Decimal.ofInt i ++ 'p' :: s := by
      intro i s heq
      have hbehind : 'r' :: 'p' :: 'x' :: rest = 'p' :: s :=
        eq_of_number_append heq hnumber (isNumberChar_ofInt i) rfl rfl
      cases hbehind
    obtain ⟨_, rfl, hc⟩ := exists_char_of_rewrite_eq h hunit
    obtain ⟨later, rfl, hlater⟩ := ih (fun c hc => hnumber c (List.mem_cons_of_mem _ hc)) hc
    exact ⟨later, rfl, hlater⟩

/-- If no name goes on with what is left of a value, none did before. Pixels would go on with a
name. -/
theorem head_source_of_rewrite
    (h : ∀ c ∈ (list.flatMap (Atom.rewrite (wholePixels resolve))).head?, isNameChar c = false) :
    ∀ c ∈ (list.flatMap Atom.source).head?, isNameChar c = false := by
  rcases list with _ | ⟨atom, later⟩
  · exact h
  · cases atom with
    | char c => exact h
    | literal n =>
      obtain ⟨c, digits, hdigits, hname⟩ := exists_head_ofInt (resolve n.value)
      have hnot := h c (by rw [List.flatMap_cons, Atom.rewrite, wholePixels, hdigits]; rfl)
      rw [hname] at hnot
      cases hnot

/-- Where no length was found, none is found once the lengths behind are replaced. -/
theorem literal?_rewrite (list : List Atom)
    (h : literal? zone previous (list.flatMap Atom.source) = none) :
    literal? zone previous (list.flatMap (Atom.rewrite (wholePixels resolve))) = none := by
  rcases hliteral : literal? zone previous (list.flatMap (Atom.rewrite (wholePixels resolve))) with
    _ | ⟨n, rest⟩
  · rfl
  · obtain ⟨hcode, hprevious, hn, htext, hnext⟩ := literal?_eq_some_iff.1 hliteral
    obtain ⟨later, rfl, rfl⟩ := exists_of_rewrite_eq hn.isNumber.isNumberChar htext
    have hsource : ((n.text ++ unit).map Atom.char ++ later).flatMap Atom.source =
        n.text ++ (unit ++ later.flatMap Atom.source) := by
      rw [List.flatMap_append, List.flatMap_map, ← List.append_assoc]
      congr 1
      exact List.flatMap_singleton' _
    rw [literal?_eq_some_iff.2 ⟨hcode, hprevious, hn, hsource, head_source_of_rewrite hnext⟩] at h
    cases h

/-- A text whose lengths were replaced is read character by character. -/
theorem atomsFrom_rewrite (zone : Zone) (previous : Option Char) (t : Text) :
    atomsFrom zone previous
        ((atomsFrom zone previous t).flatMap (Atom.rewrite (wholePixels resolve))) =
      ((atomsFrom zone previous t).flatMap (Atom.rewrite (wholePixels resolve))).map .char := by
  -- both are read with the same zone and the same character in front, since pixels end like lengths
  induction zone, previous, t using atomsFrom.induct with
  | case1 zone previous => simp
  | case2 zone previous c t n rest h ih =>
    have hpixels : (wholePixels resolve n.value).IsPixels := Decimal.isPixels_ofInt _
    have hzone : zone.after (wholePixels resolve n.value) = .code :=
      Zone.after_of_isPlain (isCode_of_literal? h)
        (fun c hc => isPlain_of_isLengthChar (hpixels.chars c hc))
        hpixels.ne_nil
    have hread (t : Text) : atomsFrom zone previous (wholePixels resolve n.value ++ t) =
        (wholePixels resolve n.value).map .char ++ atomsFrom .code (some 'x') t := by
      rw [← hzone, wholePixels, List.append_assoc]
      exact atomsFrom_number (isNumberChar_ofInt _)
    rw [atomsFrom_of_some h, List.flatMap_cons, Atom.rewrite, hread, ih, List.map_append]
  | case3 zone previous c t h ih =>
    have hnone : literal? zone previous
        ((atomsFrom zone previous (c :: t)).flatMap (Atom.rewrite (wholePixels resolve))) = none :=
      literal?_rewrite _ (by rw [source_atomsFrom, h])
    rw [atomsFrom_of_none h, List.flatMap_cons] at hnone ⊢
    exact (atomsFrom_of_none hnone).trans (congrArg (.char c :: ·) ih)

theorem literalsFrom_map_char (offset : Nat) (t : Text) :
    literalsFrom offset (t.map .char) = [] := by
  induction t generalizing offset with
  | nil => rfl
  | cons c t ih => exact ih _

/-- **No length is left** once lengths are replaced by pixels. -/
theorem literals_rewrite (resolve : Float → Int) (value : Text) :
    literals (rewrite (wholePixels resolve) value) = [] := by
  rw [literals, atoms, rewrite, atoms, atomsFrom_rewrite, literalsFrom_map_char]

end Rpx

/-! ## Values -/

/-- **Lengths are replaced, and nothing else.** A value is always written, behind whatever was
written before, and in the same way as if it were copied from length to length. With the lengths of
the value in its holes, what is written is the value; the holes have their numbers, and it is known
whether there are any. For every device there are pixels for the holes, and with these, what is
written is rendered to a value without lengths. -/
theorem DeclarationTransform.rpx_replaces_lengths (context : Context) (declaration : Declaration)
    (a : Accumulator Location) : ∃ written emitted slices, rpx context declaration = .ok written ∧
      Rpx.copyFrom declaration.value 0 (Rpx.literals declaration.value) a =
        some (a.emitAll written.emissions) ∧
      (a.emitAll written.emissions).symbols = a.symbols ++ emitted ∧
      List.Forall₂ (fun l slice => slice? declaration.value l.start l.stop = some slice)
        (Rpx.literals declaration.value) slices ∧
      Symbol.refill? emitted slices = some declaration.value ∧
      emitted.filterMap Symbol.pixel? =
        (Rpx.literals declaration.value).map (fun l => l.numeral.value) ∧
      (written.isDeferred = true ↔ ∃ raw, .pixel raw ∈ emitted) ∧
      ∀ (p : Package) (profile : Profile) (active : List Location), ∃ css,
        Symbol.refill? emitted ((emitted.filterMap Symbol.pixel?).map (p.renderPixels profile)) =
          some css ∧
        p.renderChunks profile active (a.emitAll written.emissions).toChunks =
          Outcome.join (p.renderChunks profile active a.toChunks) (.ok css) ∧
        Rpx.literals css = [] := by
  let atoms := Rpx.atoms declaration.value
  obtain ⟨slices, hslices, hrefill⟩ := Rpx.refill?_slices [] atoms
  rw [Rpx.source_atoms] at hslices hrefill
  have hsymbols : (a.emitAll (atoms.map Rpx.Atom.emission)).symbols =
      a.symbols ++ atoms.map Rpx.Atom.symbol := by
    rw [Accumulator.symbols_emitAll, Rpx.symbols_emission]
  refine ⟨⟨atoms.map Rpx.Atom.emission, atoms.any Rpx.Atom.isLiteral⟩, atoms.map Rpx.Atom.symbol,
    slices, rfl, Rpx.copyFrom_literals _ a, hsymbols, hslices, hrefill,
    Rpx.filterMap_pixel? 0 atoms, Rpx.any_isLiteral_iff, fun p profile active => ?_⟩
  refine ⟨Rpx.rewrite (p.renderPixels profile) declaration.value,
    Rpx.refill?_pixels _ atoms, ?_, ?_⟩
  · rw [Package.renderChunks_eq_renderSymbols, Package.renderChunks_eq_renderSymbols,
      Accumulator.flatten_toChunks, Accumulator.flatten_toChunks, hsymbols,
      Package.renderSymbols_append, Rpx.renderSymbols_symbol]
    rfl
  · have hpixels : p.renderPixels profile =
        Rpx.wholePixels (profile.resolve p.options.referenceWidth) := rfl
    rw [hpixels, Rpx.literals_rewrite]

end MiniSheet
