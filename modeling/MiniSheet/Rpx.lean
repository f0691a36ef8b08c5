import MiniSheet.Number.Numeral
import MiniSheet.Source.Zone
import MiniSheet.Text.Name

/-!
# Device-relative lengths

A length in `rpx` is a numeral with that unit directly behind it. In a value such lengths count only
in plain code, and only where neither the numeral nor the unit touches another name: `a10rpx` and
`10rpxs` hold none.

A value is read as a list of atoms, lengths and single characters, from which it can be written back
(`Rpx.source_atoms`).
-/

namespace MiniSheet

namespace Rpx

/-- Read a numeral and the unit behind it. -/
def read (t : Text) : Except NumeralError (Numeral × Text) := do
  let (numeral, behind) ← Numeral.read t
  match behind with
  | 'r' :: 'p' :: 'x' :: rest => .ok (numeral, rest)
  | left => .error ⟨.noUnit, left⟩

/-- A piece of a value. -/
inductive Atom where
  /-- a character that is copied -/
  | char (c : Char)
  /-- a device-relative length -/
  | literal (numeral : Numeral)
  deriving Repr, DecidableEq

/-- The atom as written. -/
def Atom.source : Atom → Text
  | char c => [c]
  | literal numeral => numeral.text ++ ['r', 'p', 'x']

/-- The length that a text starts with, given the zone and the character in front of it. -/
def literal? (zone : Zone) (previous : Option Char) (t : Text) : Option (Numeral × Text) :=
  if !zone.isCode || previous.any Text.isNameChar then none
  else
    match read t with
    | .ok (numeral, rest) => if rest.head?.any Text.isNameChar then none else some (numeral, rest)
    | .error _ => none

theorem read_append {t rest : Text} {numeral : Numeral} (h : read t = .ok (numeral, rest)) :
    t = (Atom.literal numeral).source ++ rest := by
  simp only [read, bind, Except.bind] at h
  split at h
  · cases h
  · rename_i p hp
    obtain ⟨n, behind⟩ := p
    simp only at h
    split at h
    · cases h
      rw [Numeral.read_append hp, Atom.source, List.append_assoc]
      rfl
    · cases h

theorem literal?_append {zone : Zone} {previous : Option Char} {t rest : Text} {numeral : Numeral}
    (h : literal? zone previous t = some (numeral, rest)) :
    t = (Atom.literal numeral).source ++ rest := by
  unfold literal? at h
  split at h
  · cases h
  · split at h
    · rename_i n r hr
      split at h
      · cases h
      · cases h
        exact read_append hr
    · cases h

theorem literal?_shorter {zone : Zone} {previous : Option Char} {t rest : Text} {numeral : Numeral}
    (h : literal? zone previous t = some (numeral, rest)) : rest.length < t.length := by
  rw [literal?_append h, Atom.source, List.length_append, List.length_append]
  simp only [List.length_cons, List.length_nil]
  omega

/-- The atoms of a text, given the zone and the character in front of it. -/
def atomsFrom (zone : Zone) (previous : Option Char) : Text → List Atom
  | [] => []
  | c :: t =>
    match _h : literal? zone previous (c :: t) with
    | some (numeral, rest) => .literal numeral :: atomsFrom .code (some 'x') rest
    | none => .char c :: atomsFrom (zone.step c) (some c) t
termination_by t => t.length
decreasing_by
  · exact literal?_shorter _h
  · simp

/-! ### Equation lemmas

`atomsFrom` is defined by well-founded recursion, so it does not unfold definitionally; these are
the equations proofs work with. -/

variable {zone : Zone} {previous : Option Char}

@[simp] theorem atomsFrom_nil : atomsFrom zone previous [] = [] := by
  rw [atomsFrom]

theorem atomsFrom_of_some {c : Char} {t rest : Text} {numeral : Numeral}
    (h : literal? zone previous (c :: t) = some (numeral, rest)) :
    atomsFrom zone previous (c :: t) = .literal numeral :: atomsFrom .code (some 'x') rest := by
  rw [atomsFrom]
  split
  · rename_i n r h'
    rw [h] at h'
    cases h'
    rfl
  · rename_i h'
    rw [h] at h'
    cases h'

theorem atomsFrom_of_none {c : Char} {t : Text} (h : literal? zone previous (c :: t) = none) :
    atomsFrom zone previous (c :: t) = .char c :: atomsFrom (zone.step c) (some c) t := by
  rw [atomsFrom]
  split
  · rename_i n r h'
    rw [h] at h'
    cases h'
  · rfl

/-- The atoms of a value. -/
def atoms (value : Text) : List Atom := atomsFrom .code none value

theorem source_atomsFrom (zone : Zone) (previous : Option Char) (t : Text) :
    (atomsFrom zone previous t).flatMap Atom.source = t := by
  induction zone, previous, t using atomsFrom.induct with
  | case1 zone previous => rw [atomsFrom_nil]; rfl
  | case2 zone previous c t numeral rest h ih =>
    rw [atomsFrom_of_some h, List.flatMap_cons, ih]
    exact (literal?_append h).symm
  | case3 zone previous c t h ih =>
    rw [atomsFrom_of_none h, List.flatMap_cons, ih]
    rfl

/-- The atoms of a value, written one behind the other, are the value. -/
theorem source_atoms (value : Text) : (atoms value).flatMap Atom.source = value :=
  source_atomsFrom .code none value

/-- A device-relative length inside a value. -/
structure Literal where
  /-- the number of bytes in front of it -/
  start : Nat
  /-- the number of bytes up to its end -/
  stop : Nat
  /-- its number -/
  numeral : Numeral
  deriving Repr, DecidableEq

/-- The lengths among atoms that start at the given offset. -/
def literalsFrom (offset : Nat) : List Atom → List Literal
  | [] => []
  | .char c :: rest => literalsFrom (offset + c.utf8Size) rest
  | .literal numeral :: rest =>
    let stop := offset + Text.byteSize (Atom.literal numeral).source
    ⟨offset, stop, numeral⟩ :: literalsFrom stop rest

/-- The device-relative lengths of a value, from left to right. -/
def literals (value : Text) : List Literal := literalsFrom 0 (atoms value)

end Rpx

end MiniSheet
