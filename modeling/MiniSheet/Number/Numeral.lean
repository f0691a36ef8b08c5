import MiniSheet.Text.Basic

/-!
# Numerals

A numeral is an optional sign and then digits, digits with a fraction, or a fraction alone: `10`,
`-1.5`, `.5`. A point without a digit behind it does not belong to the numeral. Only the ten digits
of ASCII count.

`Numeral.read_append` says that reading splits a text into the numeral as written and the rest.
-/

namespace MiniSheet

/-- The sign in front of a numeral. -/
inductive Sign where
  /-- `+` -/
  | plus
  /-- `-` -/
  | minus
  deriving Repr, DecidableEq

/-- The character that a sign is written with. -/
def Sign.char : Sign → Char
  | plus => '+'
  | minus => '-'

/-- A decimal number as written. -/
structure Numeral where
  /-- the sign, if one is written -/
  sign : Option Sign
  /-- the digits in front of the point -/
  whole : Text
  /-- the digits behind the point; none if there is no point -/
  fraction : Text
  deriving Repr, DecidableEq

/-- Why no numeral could be read. -/
inductive NumeralFault where
  /-- there is neither a digit nor a point -/
  | noDigit
  /-- there is a point without a digit on either side -/
  | noFraction
  /-- there is a numeral without the unit that has to follow -/
  | noUnit
  deriving Repr, DecidableEq

/-- A fault and the text from where it was noticed on. -/
structure NumeralError where
  /-- what is missing -/
  fault : NumeralFault
  /-- the text that was left to read -/
  left : Text
  deriving Repr, DecidableEq

namespace Numeral

/-- The numeral as written. -/
def text (n : Numeral) : Text :=
  (n.sign.map Sign.char).toList ++ n.whole ++ (if n.fraction.isEmpty then [] else '.' :: n.fraction)

/-! ## Reading -/

/-- Read the sign, if there is one. -/
def readSign : Text → Option Sign × Text
  | '+' :: rest => (some .plus, rest)
  | '-' :: rest => (some .minus, rest)
  | rest => (none, rest)

/-- Read a point and the digits behind it, if there are any. -/
def readFraction : Text → Text × Text
  | '.' :: t =>
    match t.takeWhile Char.isDigit with
    | [] => ([], '.' :: t)
    | digits => (digits, t.dropWhile Char.isDigit)
  | t => ([], t)

/-- Read the longest numeral that a text starts with. -/
def read (t : Text) : Except NumeralError (Numeral × Text) :=
  let (sign, unsigned) := readSign t
  let whole := unsigned.takeWhile Char.isDigit
  let behind := unsigned.dropWhile Char.isDigit
  let (fraction, rest) := readFraction behind
  if whole.isEmpty && fraction.isEmpty then
    match behind with
    | '.' :: left => .error ⟨.noFraction, left⟩
    | left => .error ⟨.noDigit, left⟩
  else .ok (⟨sign, whole, fraction⟩, rest)

theorem readSign_append (t : Text) :
    t = ((readSign t).1.map Sign.char).toList ++ (readSign t).2 := by
  unfold readSign
  split <;> rfl

theorem readFraction_append (t : Text) :
    t = (if (readFraction t).1.isEmpty then [] else '.' :: (readFraction t).1) ++
      (readFraction t).2 := by
  unfold readFraction
  split
  · rename_i r
    have hr := List.takeWhile_append_dropWhile (p := Char.isDigit) (l := r)
    split
    · rfl
    · rename_i digits hd
      rw [List.isEmpty_eq_false_iff.2 hd]
      exact congrArg (List.cons '.') hr.symm
  · rfl

/-- Reading a numeral loses nothing. -/
theorem read_append {t rest : Text} {n : Numeral} (h : read t = .ok (n, rest)) :
    t = n.text ++ rest := by
  have hsign := readSign_append t
  have hwhole := List.takeWhile_append_dropWhile (p := Char.isDigit) (l := (readSign t).2)
  have hfraction := readFraction_append ((readSign t).2.dropWhile Char.isDigit)
  simp only [read] at h
  split at h
  · split at h <;> cases h
  · cases h
    rw [text, List.append_assoc, List.append_assoc, ← hfraction, hwhole]
    exact hsign

/-! ## Values -/

/-- The natural number that a run of digits spells. -/
def ofDigits (digits : Text) : Nat :=
  digits.foldl (fun n c => 10 * n + (c.toNat - '0'.toNat)) 0

/-- The double nearest to the number. Zero keeps its sign. -/
def value (n : Numeral) : Float :=
  let magnitude := Float.ofScientific (ofDigits (n.whole ++ n.fraction)) true n.fraction.length
  if n.sign = some .minus then -magnitude else magnitude

end Numeral

end MiniSheet
