import Mathlib.Data.List.TakeWhile
import MiniSheet.Text.Basic

/-!
# Trimming and splitting

What trimming leaves has no blanks at its ends, and a text without blanks at its ends is what
trimming leaves of it. A text is split at a character where the character does not occur again
behind it, and there only.
-/

namespace MiniSheet

namespace Text

variable {s t : Text} {c : Char}

/-! ## Skipping -/

theorem dropWhile_of_head {p : Char → Bool} (h : ∀ c ∈ t.head?, p c = false) :
    t.dropWhile p = t := by
  cases t with
  | nil => rfl
  | cons c t => exact List.dropWhile_cons_of_neg (by rw [h c rfl]; exact Bool.false_ne_true)

theorem takeWhile_of_head {p : Char → Bool} (h : ∀ c ∈ t.head?, p c = false) :
    t.takeWhile p = [] := by
  cases t with
  | nil => rfl
  | cons c t => exact List.takeWhile_cons_of_neg (by rw [h c rfl]; exact Bool.false_ne_true)

theorem head_dropWhile {p : Char → Bool} : ∀ c ∈ (t.dropWhile p).head?, p c = false := by
  intro c hc
  have hnot := List.head?_dropWhile_not p t
  rw [hc] at hnot
  exact hnot

/-- A run of characters of a class is skipped as a whole. -/
theorem dropWhile_append_of_head {p : Char → Bool} (hs : ∀ c ∈ s, p c = true)
    (ht : ∀ c ∈ t.head?, p c = false) : (s ++ t).dropWhile p = t := by
  rw [List.dropWhile_append_of_pos hs, dropWhile_of_head ht]

theorem takeWhile_append_of_head {p : Char → Bool} (hs : ∀ c ∈ s, p c = true)
    (ht : ∀ c ∈ t.head?, p c = false) : (s ++ t).takeWhile p = s := by
  rw [List.takeWhile_append_of_pos hs, takeWhile_of_head ht, List.append_nil]

/-- What stops skipping also stops it behind another text. -/
theorem dropWhile_append_left {p : Char → Bool} (s : Text) (ht : ∀ c ∈ t.head?, p c = false) :
    (s ++ t).dropWhile p = s.dropWhile p ++ t := by
  induction s with
  | nil => exact dropWhile_of_head ht
  | cons c s ih => by_cases hc : p c = true <;> simp [hc, ih]

theorem takeWhile_append_left {p : Char → Bool} (s : Text) (ht : ∀ c ∈ t.head?, p c = false) :
    (s ++ t).takeWhile p = s.takeWhile p := by
  induction s with
  | nil => exact takeWhile_of_head ht
  | cons c s ih => by_cases hc : p c = true <;> simp [hc, ih]

/-! ## Trimming -/

/-- There are no blanks at either end. -/
structure Trimmed (t : Text) : Prop where
  /-- there is no blank in front -/
  head : ∀ c ∈ t.head?, isBlank c = false
  /-- there is no blank behind -/
  last : ∀ c ∈ t.getLast?, isBlank c = false

theorem last_trimEnd : ∀ c ∈ (trimEnd t).getLast?, isBlank c = false := by
  rw [trimEnd, List.getLast?_reverse]
  exact head_dropWhile

theorem trimEnd_of_last (h : ∀ c ∈ t.getLast?, isBlank c = false) : trimEnd t = t := by
  rw [trimEnd, dropWhile_of_head (by rwa [List.head?_reverse]), List.reverse_reverse]

theorem trimEnd_append_blank (hs : ∀ c ∈ s, isBlank c = true) : trimEnd (t ++ s) = trimEnd t := by
  rw [trimEnd, List.reverse_append,
    List.dropWhile_append_of_pos fun c hc => hs c (List.mem_reverse.1 hc), trimEnd]

theorem head_trimEnd {p : Char → Prop} (h : ∀ c ∈ t.head?, p c) : ∀ c ∈ (trimEnd t).head?, p c := by
  obtain ⟨back, ht, -⟩ := exists_trimEnd_append t
  intro c hc
  rw [ht, List.head?_append, hc] at h
  exact h c rfl

theorem trimmed_trim (t : Text) : Trimmed (trim t) where
  head := head_trimEnd head_dropWhile
  last := last_trimEnd

theorem Trimmed.trim_eq (h : Trimmed t) : trim t = t := by
  rw [trim, trimStart, dropWhile_of_head h.head, trimEnd_of_last h.last]

theorem trim_cons_blank (hc : isBlank c = true) : trim (c :: t) = trim t := by
  rw [trim, trimStart, List.dropWhile_cons_of_pos hc, trim, trimStart]

/-! ## Splitting -/

theorem splitLast?_eq_none_iff : splitLast? c t = none ↔ c ∉ t := by
  induction t with
  | nil => simp [splitLast?]
  | cons first t ih =>
    rw [splitLast?]
    rcases hsplit : splitLast? c t with _ | ⟨front, back⟩
    · have hnot := ih.1 hsplit
      by_cases hfirst : first = c
      · simp [hfirst]
      · simp [hfirst, Ne.symm hfirst, hnot]
    · have hmem : c ∈ t := by
        rw [eq_of_splitLast? hsplit]
        simp
      simp [hmem]

theorem splitLast?_append {front back : Text} (h : c ∉ back) :
    splitLast? c (front ++ c :: back) = some (front, back) := by
  induction front with
  | nil => simp [splitLast?, splitLast?_eq_none_iff.2 h]
  | cons first front ih => rw [List.cons_append, splitLast?, ih]

end Text

end MiniSheet
