import Mathlib.Data.List.Induction
import Mathlib.Data.Nat.Digits.Defs
import MiniSheet.Number.Numeral
import MiniSheet.Proofs.Texts

/-!
# How numbers are written

A number is written with digits, with digits and a fraction, or with a fraction alone, and there may
be a sign in front of it (`Numeral.Written`). What is written that way is the text of a numeral, and
the other way round (`Numeral.isNumber_iff`).

Reading takes a numeral off the front of a text (`Numeral.read_text_append`), and all it ever takes
is written that way (`Numeral.wellFormed_of_read`). So there is only one way to take a text for a
number, and the value of a numeral is the number that its text stands for
(`Numeral.WellFormed.value_of_written`).
-/

namespace MiniSheet

namespace Numeral

variable {s t f rest : Text} {n : Numeral} {c : Char} {sign : Option Sign}

/-! ## The form of numbers -/

/-- At least one digit, and nothing else. -/
structure Digits (t : Text) : Prop where
  /-- there is a digit -/
  ne_nil : t ≠ []
  /-- there is nothing else -/
  isDigit : ∀ c ∈ t, c.isDigit = true

/-- The number that digits stand for: the last one counts ones, the one in front of it tens, and so
on. -/
def worth (digits : Text) : ℕ := Nat.ofDigits 10 (digits.reverse.map fun c => c.toNat - '0'.toNat)

/-- How numbers are written without a sign. The text stands for `m / 10 ^ e`. -/
inductive Magnitude : Text → ℕ → ℕ → Prop where
  /-- digits -/
  | whole {w : Text} (hw : Digits w) : Magnitude w (worth w) 0
  /-- digits and a fraction -/
  | mixed {w f : Text} (hw : Digits w) (hf : Digits f) :
    Magnitude (w ++ '.' :: f) (worth w * 10 ^ f.length + worth f) f.length
  /-- a fraction alone -/
  | fraction {f : Text} (hf : Digits f) : Magnitude ('.' :: f) (worth f) f.length

/-- How numbers are written. The text has the given sign in front, if there is one, and stands for
`m / 10 ^ e` or its opposite. -/
inductive Written : Text → Option Sign → ℕ → ℕ → Prop where
  /-- without a sign -/
  | unsigned {t : Text} {m e : ℕ} (h : Magnitude t m e) : Written t none m e
  /-- with a sign -/
  | signed {t : Text} {m e : ℕ} (sign : Sign) (h : Magnitude t m e) :
    Written (sign.char :: t) (some sign) m e

/-- The text is a number without a sign. -/
def IsUnsigned (t : Text) : Prop := ∃ m e, Magnitude t m e

/-- The text is a number. -/
def IsNumber (t : Text) : Prop := ∃ sign m e, Written t sign m e

/-! ## Numerals are numbers -/

/-- A numeral that is written as a number. -/
structure WellFormed (n : Numeral) : Prop where
  /-- in front of the point there are digits -/
  whole : ∀ c ∈ n.whole, c.isDigit = true
  /-- behind the point there are digits -/
  fraction : ∀ c ∈ n.fraction, c.isDigit = true
  /-- there is a digit on one side at least -/
  ne_nil : n.whole ≠ [] ∨ n.fraction ≠ []

/-- The value of digits is counted up from the left. -/
theorem ofDigits_eq_worth (t : Text) : ofDigits t = worth t := by
  induction t using List.reverseRecOn with
  | nil => rfl
  | append_singleton t c ih =>
    rw [ofDigits, List.foldl_append, ← ofDigits, ih, worth, worth, List.reverse_append,
      List.reverse_singleton, List.singleton_append, List.map_cons, Nat.ofDigits_cons, Nat.add_comm]
    rfl

theorem worth_append (s t : Text) : worth (s ++ t) = worth s * 10 ^ t.length + worth t := by
  rw [worth, List.reverse_append, List.map_append, Nat.ofDigits_append, List.length_map,
    List.length_reverse, Nat.add_comm, Nat.mul_comm]
  rfl

/-- The text of a numeral without its sign. -/
def unsignedText (n : Numeral) : Text :=
  n.whole ++ if n.fraction.isEmpty then [] else '.' :: n.fraction

theorem text_eq (n : Numeral) : n.text = (n.sign.map Sign.char).toList ++ n.unsignedText :=
  List.append_assoc ..

/-- A numeral stands for the digits on both sides of the point, with as many places as there are
behind it. -/
theorem WellFormed.magnitude (h : n.WellFormed) :
    Magnitude n.unsignedText (ofDigits (n.whole ++ n.fraction)) n.fraction.length := by
  rw [ofDigits_eq_worth, worth_append, unsignedText]
  rcases hwhole : n.whole with _ | ⟨c, w⟩
  · have hne : n.fraction ≠ [] := h.ne_nil.resolve_left (not_not.2 hwhole)
    rw [List.isEmpty_eq_false_iff.2 hne]
    simpa [worth] using Magnitude.fraction ⟨hne, h.fraction⟩
  · have hdigits : Digits (c :: w) := ⟨List.cons_ne_nil _ _, fun d hd => h.whole d (hwhole ▸ hd)⟩
    rcases hfraction : n.fraction with _ | ⟨d, f⟩
    · simpa [worth] using Magnitude.whole hdigits
    · exact Magnitude.mixed hdigits ⟨List.cons_ne_nil _ _,
        fun d hd => h.fraction d (hfraction ▸ hd)⟩

theorem WellFormed.written (h : n.WellFormed) :
    Written n.text n.sign (ofDigits (n.whole ++ n.fraction)) n.fraction.length := by
  rw [text_eq]
  rcases n.sign with _ | sign
  · exact .unsigned h.magnitude
  · exact .signed sign h.magnitude

theorem WellFormed.isNumber (h : n.WellFormed) : IsNumber n.text := ⟨_, _, _, h.written⟩

/-- What is written as a number is the text of a numeral that stands for the same. -/
theorem Magnitude.exists_numeral {m e : ℕ} (h : Magnitude t m e) (sign : Option Sign) :
    ∃ n : Numeral, n.WellFormed ∧ n.sign = sign ∧ n.unsignedText = t ∧
      ofDigits (n.whole ++ n.fraction) = m ∧ n.fraction.length = e := by
  cases h with
  | whole hw =>
    refine ⟨⟨sign, t, []⟩, ⟨hw.isDigit, by simp, .inl hw.ne_nil⟩, rfl, List.append_nil _, ?_, rfl⟩
    rw [List.append_nil, ofDigits_eq_worth]
  | @mixed w f hw hf =>
    refine ⟨⟨sign, w, f⟩, ⟨hw.isDigit, hf.isDigit, .inl hw.ne_nil⟩, rfl, ?_, ?_, rfl⟩
    · rw [unsignedText, List.isEmpty_eq_false_iff.2 hf.ne_nil]
      rfl
    · rw [ofDigits_eq_worth, worth_append]
  | @fraction f hf =>
    refine ⟨⟨sign, [], f⟩, ⟨by simp, hf.isDigit, .inr hf.ne_nil⟩, rfl, ?_, ofDigits_eq_worth f, rfl⟩
    rw [unsignedText, List.isEmpty_eq_false_iff.2 hf.ne_nil]
    rfl

theorem Written.exists_numeral {m e : ℕ} (h : Written t sign m e) :
    ∃ n : Numeral, n.WellFormed ∧ n.sign = sign ∧ n.text = t ∧
      ofDigits (n.whole ++ n.fraction) = m ∧ n.fraction.length = e := by
  cases h with
  | unsigned h =>
    obtain ⟨n, hn, hsign, htext, hdigits⟩ := h.exists_numeral none
    exact ⟨n, hn, hsign, by rw [text_eq, hsign, htext]; rfl, hdigits⟩
  | signed sign h =>
    obtain ⟨n, hn, hsign, htext, hdigits⟩ := h.exists_numeral (some sign)
    exact ⟨n, hn, hsign, by rw [text_eq, hsign, htext]; rfl, hdigits⟩

/-- **Numbers are the texts of numerals.** -/
theorem isNumber_iff : IsNumber t ↔ ∃ n : Numeral, n.WellFormed ∧ n.text = t := by
  constructor
  · rintro ⟨sign, m, e, h⟩
    obtain ⟨n, hn, -, htext, -⟩ := h.exists_numeral
    exact ⟨n, hn, htext⟩
  · rintro ⟨n, hn, rfl⟩
    exact hn.isNumber

/-! ## Characters of numbers -/

/-- A character of a number without a sign is a digit, or the point, and then the fraction is behind
it. -/
theorem Magnitude.of_split {m e : ℕ} (h : Magnitude (s ++ c :: t) m e) :
    c.isDigit = true ∨ c = '.' ∧ Digits t := by
  -- a fraction alone is digits and a fraction without the digits
  have hpoint {w f : Text} (hw : ∀ d ∈ w, d.isDigit = true) (hf : Digits f)
      (h : s ++ c :: t = w ++ '.' :: f) :
      c.isDigit = true ∨ c = '.' ∧ Digits t := by
    rcases List.append_eq_append_iff.1 h with
      ⟨between, hsplit, hbetween⟩ | ⟨between, hsplit, hbetween⟩
    · rcases between with _ | ⟨first, between⟩
      · obtain ⟨rfl, rfl⟩ := List.cons.inj hbetween
        exact .inr ⟨rfl, hf⟩
      · obtain ⟨rfl, -⟩ := List.cons.inj hbetween
        exact .inl (hw c (by rw [hsplit]; simp))
    · rcases between with _ | ⟨first, between⟩
      · obtain ⟨rfl, rfl⟩ := List.cons.inj hbetween
        exact .inr ⟨rfl, hf⟩
      · obtain ⟨-, rfl⟩ := List.cons.inj hbetween
        exact .inl (hf.isDigit c (by simp))
  generalize htext : s ++ c :: t = text at h
  cases h with
  | whole hw => exact .inl (hw.isDigit c (by rw [← htext]; simp))
  | mixed hw hf => exact hpoint hw.isDigit hf htext
  | fraction hf => exact hpoint (by simp) hf (htext.trans (List.nil_append _).symm)

/-- In front of a number there may also be a sign. -/
theorem IsNumber.of_split (h : IsNumber (s ++ c :: t)) :
    c.isDigit = true ∨ (c = '.' ∧ Digits t) ∨ ∃ sign : Sign, c = sign.char ∧ IsUnsigned t := by
  obtain ⟨sign, m, e, h⟩ := h
  generalize htext : s ++ c :: t = text at h
  cases h with
  | unsigned h =>
    rw [← htext] at h
    exact h.of_split.imp_right .inl
  | signed sign h =>
    rcases s with _ | ⟨first, s⟩
    · obtain ⟨rfl, rfl⟩ := List.cons.inj htext
      exact .inr (.inr ⟨sign, rfl, _, _, h⟩)
    · obtain ⟨-, rfl⟩ := List.cons.inj htext
      exact h.of_split.imp_right .inl

/-- A point in front of digits makes a number of them. -/
theorem Digits.isNumber_point (h : Digits t) : IsNumber ('.' :: t) :=
  ⟨_, _, _, .unsigned (.fraction h)⟩

theorem IsUnsigned.isNumber_cons (h : IsUnsigned t) (sign : Sign) : IsNumber (sign.char :: t) := by
  obtain ⟨m, e, h⟩ := h
  exact ⟨_, _, _, .signed sign h⟩

/-- A character that numbers are written with. -/
def isNumberChar (c : Char) : Bool := c.isDigit || "+-.".toList.contains c

theorem IsNumber.isNumberChar (h : IsNumber t) : ∀ c ∈ t, isNumberChar c = true := by
  intro c hc
  obtain ⟨front, back, rfl⟩ := List.append_of_mem hc
  rw [Numeral.isNumberChar]
  rcases h.of_split with hdigit | ⟨rfl, -⟩ | ⟨sign, rfl, -⟩
  · rw [hdigit, Bool.true_or]
  · rfl
  · cases sign <;> rfl

theorem IsNumber.ne_nil (h : IsNumber t) : t ≠ [] := by
  obtain ⟨sign, m, e, h⟩ := h
  cases h with
  | unsigned h =>
    cases h with
    | whole hw => exact hw.ne_nil
    | mixed | fraction => simp
  | signed => exact List.cons_ne_nil _ _

/-! ## Reading numerals -/

theorem readSign_cons_char (sign : Sign) (t : Text) :
    readSign (sign.char :: t) = (some sign, t) := by
  cases sign <;> rfl

theorem readSign_of_isDigit_or_point (h : ∀ c ∈ t.head?, c.isDigit = true ∨ c = '.') :
    readSign t = (none, t) := by
  rw [readSign.eq_def]
  split
  · exact absurd (h '+' rfl) (by decide)
  · exact absurd (h '-' rfl) (by decide)
  · rfl

/-- What stands behind a numeral and does not belong to it: there is no digit, and no fraction
either if the numeral has none yet. -/
structure EndsBefore (n : Numeral) (rest : Text) : Prop where
  /-- there is no digit -/
  digit : ∀ c ∈ rest.head?, c.isDigit = false
  /-- there is no fraction that the numeral could have -/
  fraction : n.fraction = [] → ∀ c behind, rest = '.' :: c :: behind → c.isDigit = false

/-- A fraction is read as a whole, and without one nothing is read. -/
theorem readFraction_of_fraction (hf : ∀ c ∈ f, c.isDigit = true)
    (hdigit : ∀ c ∈ rest.head?, c.isDigit = false)
    (hpoint : f = [] → ∀ c behind, rest = '.' :: c :: behind → c.isDigit = false) :
    readFraction ((if f.isEmpty then [] else '.' :: f) ++ rest) = (f, rest) := by
  rcases f with _ | ⟨c, f⟩
  · change readFraction rest = ([], rest)
    rw [readFraction.eq_def]
    split
    · rename_i behind
      have hnone : ∀ c ∈ behind.head?, c.isDigit = false := by
        rcases behind with _ | ⟨c, behind⟩
        · simp
        · rintro _ ⟨⟩
          exact hpoint rfl c behind rfl
      rw [Text.takeWhile_of_head hnone]
    · rfl
  · change readFraction ('.' :: ((c :: f) ++ rest)) = (c :: f, rest)
    rw [readFraction, Text.takeWhile_append_of_head hf hdigit,
      Text.dropWhile_append_of_head hf hdigit]

/-- **Reading takes the whole numeral**, unless what is behind it would make it longer. -/
theorem read_text_append (hn : n.WellFormed) (hrest : n.EndsBefore rest) :
    read (n.text ++ rest) = .ok (n, rest) := by
  obtain ⟨sign, whole, fraction⟩ := n
  -- what is left behind the sign, and then behind the digits in front of the point
  let pointed : Text := (if fraction.isEmpty then [] else '.' :: fraction) ++ rest
  have hpointed : ∀ c ∈ pointed.head?, c.isDigit = false := by
    rcases fraction with _ | ⟨c, fraction⟩
    · exact hrest.digit
    · rintro _ ⟨⟩
      rfl
  have hsign : readSign ((sign.map Sign.char).toList ++ (whole ++ pointed)) =
      (sign, whole ++ pointed) := by
    rcases sign with _ | sign
    · refine readSign_of_isDigit_or_point fun c hc => ?_
      rcases whole with _ | ⟨d, whole⟩
      · rcases fraction with _ | ⟨d, fraction⟩
        · exact absurd hn.ne_nil (by simp)
        · exact .inr (Option.some.inj hc).symm
      · exact .inl (hn.whole c (Option.some.inj hc ▸ List.mem_cons_self))
    · exact readSign_cons_char sign _
  have htext : text ⟨sign, whole, fraction⟩ ++ rest =
      (sign.map Sign.char).toList ++ (whole ++ pointed) := by
    rw [text, List.append_assoc, List.append_assoc]
  have hnonempty : ¬ (whole.isEmpty && fraction.isEmpty) = true := by
    rw [Bool.and_eq_true, List.isEmpty_iff, List.isEmpty_iff]
    exact fun hnil => hn.ne_nil.elim (absurd hnil.1) (absurd hnil.2)
  rw [htext, read, hsign]
  dsimp only
  rw [Text.takeWhile_append_of_head hn.whole hpointed,
    Text.dropWhile_append_of_head hn.whole hpointed,
    readFraction_of_fraction hn.fraction hrest.digit hrest.fraction]
  exact if_neg hnonempty

theorem isDigit_readFraction : ∀ c ∈ (readFraction t).1, c.isDigit = true := by
  intro c hc
  rw [readFraction.eq_def] at hc
  split at hc
  · split at hc
    · cases hc
    · exact List.mem_takeWhile_imp hc
  · cases hc

/-- **Whatever is read is a number.** -/
theorem wellFormed_of_read (h : read t = .ok (n, rest)) : n.WellFormed := by
  simp only [read] at h
  split at h
  · split at h <;> cases h
  · rename_i hne
    obtain ⟨rfl, -⟩ := Prod.mk.inj (Except.ok.inj h)
    rw [Bool.and_eq_true, List.isEmpty_iff, List.isEmpty_iff, not_and_or] at hne
    exact ⟨fun c hc => List.mem_takeWhile_imp hc, isDigit_readFraction, hne⟩

/-! ## Values -/

/-- A numeral can be told from its text, because it is what is read there. -/
theorem WellFormed.eq_of_text_eq {n' : Numeral} (hn : n.WellFormed) (hn' : n'.WellFormed)
    (h : n.text = n'.text) : n = n' := by
  have hread {n : Numeral} (hn : n.WellFormed) : read n.text = .ok (n, []) := by
    have hnil : read (n.text ++ []) = .ok (n, []) := read_text_append hn ⟨by simp, by simp⟩
    rwa [List.append_nil] at hnil
  have hsame : Except.ok (n, []) = read n'.text := by rw [← h, hread hn]
  exact (Prod.mk.inj (Except.ok.inj (hsame.trans (hread hn')))).1

/-- **The value of a numeral is the number that its text stands for.** -/
theorem WellFormed.value_of_written {m e : ℕ} (hn : n.WellFormed) (h : Written n.text sign m e) :
    n.value =
      if sign = some .minus then -Float.ofScientific m true e else Float.ofScientific m true e := by
  obtain ⟨n', hn', rfl, htext, rfl, rfl⟩ := h.exists_numeral
  rw [hn.eq_of_text_eq hn' htext.symm]
  rfl

end Numeral

end MiniSheet
