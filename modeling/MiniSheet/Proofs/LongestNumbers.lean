import Mathlib.Data.Nat.Find
import MiniSheet.Proofs.Lengths

/-!
# The longest number

A text may start with many numbers: `1`, `12`, `12.5` and `12.50` all stand in front of `12.50rpx`.
Reading takes the longest one, and it finds one whenever there is one (`Numeral.read_eq_ok_iff`,
`Numeral.exists_read_iff`). A number that cannot become longer has neither a digit nor a fraction
behind it, and in front of these reading stops.

A number with the unit of lengths behind it is always the longest number there, since the unit
starts with a letter. So nothing is missed by looking for the unit behind the longest number only
(`Rpx.reading_takes_longest`).
-/

namespace MiniSheet

/-! ## The longest text of a kind -/

namespace Text

variable {t : Text} {p : Text → Prop}

/-- The longest text of a kind that a text starts with, and what is left behind it. -/
structure Longest (p : Text → Prop) (t front rest : Text) : Prop where
  /-- the text starts with it -/
  split : t = front ++ rest
  /-- it is of that kind -/
  holds : p front
  /-- nothing else of that kind that the text starts with is longer -/
  length_le : ∀ s, s <+: t → p s → s.length ≤ front.length

/-- If a text starts with something of a kind, there is a longest one. -/
theorem exists_longest (h : ∃ s, s <+: t ∧ p s) : ∃ front rest, Longest p t front rest := by
  classical
  -- what a text starts with is known from its length
  have htake {s : Text} (hs : s <+: t) (hp : p s) : p (t.take s.length) := by
    rwa [← List.prefix_iff_eq_take.1 hs]
  obtain ⟨s, hs, hp⟩ := h
  let k := Nat.findGreatest (fun k => p (t.take k)) t.length
  have hk : p (t.take k) :=
    Nat.findGreatest_spec (P := fun k => p (t.take k)) hs.length_le (htake hs hp)
  refine ⟨t.take k, t.drop k, (List.take_append_drop k t).symm, hk, fun s hs hp => ?_⟩
  rw [List.length_take, Nat.min_eq_left (Nat.findGreatest_le _)]
  exact Nat.le_findGreatest hs.length_le (htake hs hp)

end Text

open Text

/-! ## Reading numbers -/

namespace Numeral

variable {t rest : Text} {n : Numeral} {c : Char}

/-- One more digit makes a number longer. -/
theorem WellFormed.isNumber_digit (h : n.WellFormed) (hc : c.isDigit = true) :
    IsNumber (n.text ++ [c]) := by
  have hdigits {t : Text} (ht : ∀ d ∈ t, d.isDigit = true) : ∀ d ∈ t ++ [c], d.isDigit = true := by
    simpa [or_imp, forall_and] using ⟨ht, hc⟩
  refine isNumber_iff.2 ?_
  rcases hfraction : n.fraction with _ | ⟨d, f⟩
  · refine ⟨⟨n.sign, n.whole ++ [c], []⟩, ⟨hdigits h.whole, by simp, .inl (by simp)⟩, ?_⟩
    simp [text, hfraction]
  · refine ⟨⟨n.sign, n.whole, n.fraction ++ [c]⟩, ⟨h.whole, hdigits h.fraction, .inr (by simp)⟩, ?_⟩
    simp [text, hfraction]

/-- And so does a fraction, if there is none yet. -/
theorem WellFormed.isNumber_fraction (h : n.WellFormed) (hfraction : n.fraction = [])
    (hc : c.isDigit = true) : IsNumber (n.text ++ ['.', c]) := by
  refine isNumber_iff.2 ⟨⟨n.sign, n.whole, [c]⟩, ⟨h.whole, by simpa using hc, .inr (by simp)⟩, ?_⟩
  simp [text, hfraction]

/-- The longest number ends where it could go on no further. -/
theorem endsBefore_of_longest (hn : n.WellFormed) (h : Longest IsNumber t n.text rest) :
    n.EndsBefore rest := by
  have hnot {more behind : Text} (hrest : rest = more ++ behind) (hne : more ≠ []) :
      ¬ IsNumber (n.text ++ more) := by
    intro hnumber
    have hle :=
      h.length_le (n.text ++ more) ⟨behind, by rw [h.split, hrest, List.append_assoc]⟩ hnumber
    rw [List.length_append] at hle
    exact hne (List.length_eq_zero_iff.1 (by omega))
  constructor
  · intro c hc
    obtain ⟨behind, hrest⟩ := List.head?_eq_some_iff.1 hc
    exact Bool.eq_false_iff.2 fun hdigit =>
      hnot hrest (List.cons_ne_nil c []) (hn.isNumber_digit hdigit)
  · intro hfraction c behind hrest
    exact Bool.eq_false_iff.2 fun hdigit =>
      hnot hrest (List.cons_ne_nil '.' [c]) (hn.isNumber_fraction hfraction hdigit)

/-- **Reading takes the longest number.** -/
theorem read_eq_ok_iff :
    read t = .ok (n, rest) ↔ n.WellFormed ∧ Longest IsNumber t n.text rest := by
  have hread {n : Numeral} {rest : Text} (hn : n.WellFormed) (h : Longest IsNumber t n.text rest) :
      read t = .ok (n, rest) := by
    rw [h.split]
    exact read_text_append hn (endsBefore_of_longest hn h)
  constructor
  · intro h
    -- a number was read, so there is a longest one, and then it is that one that was read
    have hn := wellFormed_of_read h
    obtain ⟨front, back, hlongest⟩ :=
      exists_longest ⟨n.text, ⟨rest, (read_append h).symm⟩, hn.isNumber⟩
    obtain ⟨n', hn', rfl⟩ := isNumber_iff.1 hlongest.holds
    rw [hread hn' hlongest] at h
    obtain ⟨rfl, rfl⟩ := Prod.mk.inj (Except.ok.inj h)
    exact ⟨hn', hlongest⟩
  · rintro ⟨hn, h⟩
    exact hread hn h

/-- A number is read whenever there is one. -/
theorem exists_read_iff :
    (∃ n rest, read t = .ok (n, rest)) ↔ ∃ number, number <+: t ∧ IsNumber number := by
  constructor
  · rintro ⟨n, rest, h⟩
    obtain ⟨hn, hlongest⟩ := read_eq_ok_iff.1 h
    exact ⟨n.text, ⟨rest, hlongest.split.symm⟩, hn.isNumber⟩
  · intro h
    obtain ⟨front, rest, hlongest⟩ := exists_longest h
    obtain ⟨n, hn, rfl⟩ := isNumber_iff.1 hlongest.holds
    exact ⟨n, rest, read_eq_ok_iff.2 ⟨hn, hlongest⟩⟩

end Numeral

/-! ## Reading lengths -/

namespace Rpx

open Numeral (IsNumber Written)

/-- **Numbers and lengths are read as far as they go.** A number is read exactly if the text starts
with one. Then it is the longest one there, what is left is what stands behind it, and its value is
that of the number that is written there. A length is read exactly if the unit follows on the
longest number, and that is the case exactly if the unit follows on some number that the text starts
with. -/
theorem reading_takes_longest (t : Text) :
    ((∃ n rest, Numeral.read t = .ok (n, rest)) ↔ ∃ number, number <+: t ∧ IsNumber number) ∧
      (∀ n rest, Numeral.read t = .ok (n, rest) → Longest IsNumber t n.text rest ∧
        ∀ sign m e, Written n.text sign m e → n.value =
          if sign = some .minus then -Float.ofScientific m true e
          else Float.ofScientific m true e) ∧
      (∀ n rest, read t = .ok (n, rest) ↔ Numeral.read t = .ok (n, unit ++ rest)) ∧
      ((∃ n rest, read t = .ok (n, rest)) ↔
        ∃ number rest, Longest IsNumber t number (unit ++ rest)) ∧
      ((∃ n rest, read t = .ok (n, rest)) ↔ ∃ number, number ++ unit <+: t ∧ IsNumber number) := by
  refine ⟨Numeral.exists_read_iff, fun n rest h => ?_, fun n rest => read_eq_ok_iff_numeral, ?_, ?_⟩
  · obtain ⟨hn, hlongest⟩ := Numeral.read_eq_ok_iff.1 h
    exact ⟨hlongest, fun sign m e hwritten => hn.value_of_written hwritten⟩
  · constructor
    · rintro ⟨n, rest, h⟩
      exact ⟨n.text, rest, (Numeral.read_eq_ok_iff.1 (read_eq_ok_iff_numeral.1 h)).2⟩
    · rintro ⟨number, rest, h⟩
      obtain ⟨n, hn, rfl⟩ := Numeral.isNumber_iff.1 h.holds
      exact ⟨n, rest, read_eq_ok_iff_numeral.2 (Numeral.read_eq_ok_iff.2 ⟨hn, h⟩)⟩
  · constructor
    · rintro ⟨n, rest, h⟩
      obtain ⟨hn, htext⟩ := read_eq_ok_iff.1 h
      exact ⟨n.text, ⟨rest, by rw [htext, List.append_assoc]⟩, hn.isNumber⟩
    · rintro ⟨number, ⟨rest, htext⟩, hnumber⟩
      obtain ⟨n, hn, rfl⟩ := Numeral.isNumber_iff.1 hnumber
      exact ⟨n, rest, read_eq_ok_iff.2 ⟨hn, by rw [← htext, List.append_assoc]⟩⟩

end Rpx

end MiniSheet
