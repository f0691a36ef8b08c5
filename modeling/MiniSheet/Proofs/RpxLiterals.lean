import Mathlib.Data.List.Pairwise
import MiniSheet.Proofs.Lengths
import MiniSheet.Proofs.Zones

/-!
# Finding lengths

A length may stand wherever a number with its unit stands in code, and neither the number nor the
unit touches a name (`Rpx.Candidate`). The lengths of a value are found from left to right, and all
the rest follows from what is known at the place where a length is looked for: the zone behind the
text in front of it, and the last character of that text (`Rpx.atomsFrom_of_append`).

* The lengths that are found may stand where they are found, they do not overlap, and they leave
  nothing out (`Rpx.literals_exact`): a place where a length may stand lies inside a length that is
  found.
* A length need not start where its number starts (`Rpx.starts_inside_number_iff`). A number may be
  written with a sign or a point in front of it, and if a name stands in front of that, the sign or
  the point is taken for the end of something else.
-/

namespace MiniSheet

namespace Rpx

open Text
open Numeral (IsNumber IsUnsigned Digits Written)

variable {zone : Zone} {previous : Option Char} {t rest value front number back : Text}
  {n : Numeral} {l : Literal}
variable {atom : Atom} {before later list : List Atom} {offset : Nat}

/-! ## Where lengths may stand -/

/-- A length may stand at a place: there is a number with its unit, in code, and neither touches a
name. -/
structure Candidate (value front number back : Text) : Prop where
  /-- the place, with what is in front of it and behind it -/
  split : value = front ++ (number ++ (unit ++ back))
  /-- there is a number -/
  isNumber : IsNumber number
  /-- it lies in code -/
  outside : Outside front
  /-- no name ends in front of it -/
  previous : ∀ c ∈ front.getLast?, isNameChar c = false
  /-- no name goes on behind it -/
  next : ∀ c ∈ back.head?, isNameChar c = false

/-- The length is the given number with its unit, behind the given text. -/
structure Literal.Stands (l : Literal) (front number : Text) : Prop where
  /-- it starts with the number -/
  start : l.start = byteSize front
  /-- it ends with the unit -/
  stop : l.stop = byteSize front + byteSize (number ++ unit)

/-! ## Reading atoms -/

/-- A length among atoms was read where it stands. -/
theorem literal?_of_atomsFrom (h : atomsFrom zone previous t = .literal n :: later) :
    literal? zone previous t = some (n, later.flatMap Atom.source) := by
  rcases t with _ | ⟨c, t⟩
  · rw [atomsFrom_nil] at h
    cases h
  · rcases hliteral : literal? zone previous (c :: t) with _ | ⟨n', rest⟩
    · rw [atomsFrom_of_none hliteral] at h
      cases h
    · rw [atomsFrom_of_some hliteral] at h
      obtain ⟨hatom, rfl⟩ := List.cons.inj h
      obtain rfl := Atom.literal.inj hatom
      rw [source_atomsFrom]

/-- **What is known at a place**: the later atoms are read with the zone behind the text in front of
them, and with its last character. -/
theorem atomsFrom_of_append (h : atomsFrom zone previous t = before ++ later) :
    atomsFrom (zone.after (before.flatMap Atom.source))
      ((before.flatMap Atom.source).getLast?.or previous) (later.flatMap Atom.source) = later := by
  induction before generalizing zone previous t with
  | nil =>
    rw [List.nil_append] at h
    rw [← h, source_atomsFrom]
    rfl
  | cons atom before ih =>
    rw [List.flatMap_cons, Zone.after_append, List.getLast?_append, Option.or_assoc]
    rcases t with _ | ⟨c, t⟩
    · rw [atomsFrom_nil] at h
      cases h
    · rcases hliteral : literal? zone previous (c :: t) with _ | ⟨n, rest⟩
      · rw [atomsFrom_of_none hliteral] at h
        obtain ⟨rfl, hbefore⟩ := List.cons.inj h
        exact ih hbefore
      · rw [atomsFrom_of_some hliteral] at h
        obtain ⟨rfl, hbefore⟩ := List.cons.inj h
        have hzone : zone.after (Atom.literal n).source = .code :=
          Zone.after_of_isPlain (isCode_of_literal? hliteral)
            (fun c hc => isPlain_of_isLengthChar (isLengthChar_of_literal? hliteral c hc))
              (by simp [Atom.source])
        have hlast : (Atom.literal n).source.getLast? = some 'x' := by simp [Atom.source]
        rw [hzone, hlast]
        exact ih hbefore

/-- A place inside a text that atoms make up lies inside one of the atoms. -/
theorem exists_atom_at (h : list.flatMap Atom.source = front ++ rest) (hne : rest ≠ []) :
    ∃ before atom later inner tail, list = before ++ atom :: later ∧
      front = before.flatMap Atom.source ++ inner ∧ atom.source = inner ++ tail ∧ tail ≠ [] ∧
      rest = tail ++ later.flatMap Atom.source := by
  induction list generalizing front with
  | nil => exact absurd (List.append_eq_nil_iff.1 h.symm).2 hne
  | cons atom list ih =>
    have hplace :
        (∃ front', front = atom.source ++ front' ∧ list.flatMap Atom.source = front' ++ rest) ∨
        ∃ tail, tail ≠ [] ∧ atom.source = front ++ tail ∧
          rest = tail ++ list.flatMap Atom.source := by
      rw [List.flatMap_cons] at h
      rcases List.append_eq_append_iff.1 h with hlater | ⟨tail, hatom, hrest⟩
      · exact .inl hlater
      · rcases tail with _ | ⟨c, tail⟩
        · exact .inl ⟨[], by simpa using hatom.symm, hrest.symm⟩
        · exact .inr ⟨c :: tail, List.cons_ne_nil _ _, hatom, hrest⟩
    rcases hplace with ⟨front', rfl, hlist⟩ | ⟨tail, htail, hatom, hrest⟩
    · obtain ⟨before, atom', later, inner, tail, rfl, rfl, hrest⟩ := ih hlist
      exact ⟨atom :: before, atom', later, inner, tail,
        rfl, by rw [List.flatMap_cons, List.append_assoc], hrest⟩
    · exact ⟨[], atom, list, front, tail, rfl, rfl, hatom, htail, hrest⟩

/-! ## Offsets of lengths -/

theorem literalsFrom_append : literalsFrom offset (before ++ later) =
    literalsFrom offset before ++
      literalsFrom (offset + byteSize (before.flatMap Atom.source)) later := by
  induction before generalizing offset with
  | nil => rfl
  | cons atom before ih =>
    rw [List.flatMap_cons, byteSize_append, ← Nat.add_assoc]
    cases atom with
    | char c => exact ih
    | literal n => exact congrArg (List.cons _) ih

theorem mem_literals_of_atoms (h : atoms value = before ++ .literal n :: later) :
    ⟨byteSize (before.flatMap Atom.source),
      byteSize (before.flatMap Atom.source) + byteSize (Atom.literal n).source, n⟩ ∈
        literals value := by
  rw [literals, h, literalsFrom_append, Nat.zero_add]
  exact List.mem_append_right _ List.mem_cons_self

theorem exists_of_mem_literalsFrom (h : l ∈ literalsFrom offset list) : ∃ before later,
    list = before ++ .literal l.numeral :: later ∧
      l.start = offset + byteSize (before.flatMap Atom.source) ∧
      l.stop = l.start + byteSize (Atom.literal l.numeral).source := by
  induction list generalizing offset with
  | nil => cases h
  | cons atom list ih =>
    rw [← List.singleton_append, literalsFrom_append, List.flatMap_singleton] at h
    rcases List.mem_append.1 h with hatom | hlater
    · cases atom with
      | char c => cases hatom
      | literal n =>
        obtain rfl := List.mem_singleton.1 hatom
        exact ⟨[], list, rfl, rfl, rfl⟩
    · obtain ⟨before, later, rfl, hstart, hstop⟩ := ih hlater
      exact ⟨atom :: before, later,
        rfl, by rw [hstart, List.flatMap_cons, byteSize_append, Nat.add_assoc], hstop⟩

theorem start_lt_stop (h : l ∈ literalsFrom offset list) : l.start < l.stop := by
  obtain ⟨-, -, -, -, hstop⟩ := exists_of_mem_literalsFrom h
  have hunit : byteSize ['r', 'p', 'x'] = 3 := rfl
  rw [hstop, Atom.source, byteSize_append, hunit]
  omega

/-- Lengths follow on each other. -/
theorem pairwise_literalsFrom (offset : Nat) (list : List Atom) :
    (literalsFrom offset list).Pairwise fun first second => first.stop ≤ second.start := by
  induction list generalizing offset with
  | nil => exact .nil
  | cons atom list ih =>
    cases atom with
    | char c => exact ih _
    | literal n =>
      refine List.pairwise_cons.2 ⟨fun second hsecond => ?_, ih _⟩
      obtain ⟨_, _, _, hstart, _⟩ := exists_of_mem_literalsFrom hsecond
      rw [hstart]
      exact Nat.le_add_right _ _

/-- Two lengths that end at the same place are the same. -/
theorem eq_of_stop_eq {l' : Literal} (hl : l ∈ literals value) (hl' : l' ∈ literals value)
    (h : l.stop = l'.stop) : l = l' := by
  have hstops : (literals value).Pairwise fun first second => first.stop ≠ second.stop := by
    refine (pairwise_literalsFrom 0 _).imp_of_mem ?_
    intro first second _ hsecond hle
    exact Nat.ne_of_lt (Nat.lt_of_le_of_lt hle (start_lt_stop hsecond))
  have hsymm : Std.Symm fun first second : Literal => first.stop ≠ second.stop :=
    ⟨fun _ _ => Ne.symm⟩
  by_contra hne
  exact hstops.forall hl hl' hne h

/-! ## Lengths are where they may stand -/

/-- A length that is found may stand where it is found. -/
theorem exists_candidate_of_mem (h : l ∈ literals value) : ∃ front back,
    Candidate value front l.numeral.text back ∧ l.Stands front l.numeral.text ∧
      l.numeral.WellFormed := by
  obtain ⟨before, later, hatoms, hstart, hstop⟩ := exists_of_mem_literalsFrom h
  obtain ⟨hcode, hprevious, hn, htext, hnext⟩ :=
    literal?_eq_some_iff.1 (literal?_of_atomsFrom (atomsFrom_of_append hatoms))
  rw [Option.or_none] at hprevious
  rw [Nat.zero_add] at hstart
  refine ⟨before.flatMap Atom.source, later.flatMap Atom.source, ?_,
    ⟨hstart, by rw [hstop, hstart]; rfl⟩, hn⟩
  refine ⟨?_, hn.isNumber, outside_iff.2 hcode, hprevious, hnext⟩
  rw [← htext, ← List.flatMap_append, ← hatoms]
  exact (source_atoms value).symm

theorem ne_unit_of_isNumber (h : IsNumber number) : ∀ c ∈ number, ∀ d ∈ unit, c ≠ d := by
  rintro c hc d hd rfl
  have hnone : (unit.all fun d => !Numeral.isNumberChar d) = true := by decide
  have hnot := List.all_eq_true.1 hnone c hd
  rw [h.isNumberChar c hc] at hnot
  cases hnot

/-- A number that starts inside a length ends with it. -/
theorem eq_append_unit_of_inner {inner tail behind : Text} (hn : n.WellFormed)
    (hlength : n.text ++ unit = inner ++ tail) (hne : tail ≠ []) (hnumber : IsNumber number)
    (htail : number ++ (unit ++ back) = tail ++ behind) : tail = number ++ unit := by
  rcases List.append_eq_append_iff.1 hlength with ⟨rest, -, hunit⟩ | ⟨rest, htext, rfl⟩
  · -- no number starts inside the unit
    obtain ⟨c, tail, rfl⟩ := List.exists_cons_of_ne_nil hne
    obtain ⟨c', number, rfl⟩ := List.exists_cons_of_ne_nil hnumber.ne_nil
    obtain ⟨rfl, -⟩ := List.cons.inj htail
    exact absurd rfl (ne_unit_of_isNumber hnumber c' List.mem_cons_self c' (by rw [hunit]; simp))
  · -- both numbers go on up to the first `r`
    have hr {t : Text} (ht : IsNumber t) : ∀ c ∈ t, (c != 'r') = true := by
      intro c hc
      simpa using ne_unit_of_isNumber ht c hc 'r' (by simp [unit])
    have hrest : ∀ c ∈ rest, (c != 'r') = true := by
      intro c hc
      refine hr hn.isNumber c ?_
      rw [htext]
      exact List.mem_append_right _ hc
    have htake {t : Text} (ht : ∀ c ∈ t, (c != 'r') = true) (back : Text) :
        (t ++ (unit ++ back)).takeWhile (· != 'r') = t :=
      takeWhile_append_of_head ht (by rintro c ⟨⟩; rfl)
    rw [List.append_assoc] at htail
    rw [← htake hrest behind, ← htail, htake (hr hnumber)]

/-- A place where a length may stand lies inside a length that is found, and both end at the same
place. -/
theorem exists_mem_of_candidate (h : Candidate value front number back) :
    ∃ l ∈ literals value, l.start ≤ byteSize front ∧
      l.stop = byteSize front + byteSize (number ++ unit) := by
  have hsplit : (atoms value).flatMap Atom.source = front ++ (number ++ (unit ++ back)) :=
    (source_atoms value).trans h.split
  obtain ⟨before, atom, later, inner, tail, hatoms, rfl, hatom, hne, htail⟩ :=
    exists_atom_at hsplit (by simp [h.isNumber.ne_nil])
  have hlength : ∃ n, atom = .literal n ∧ tail = number ++ unit := by
    rcases inner with _ | ⟨c, inner⟩
    · -- an atom starts here, so a length was looked for
      obtain ⟨n, hn, rfl⟩ := Numeral.isNumber_iff.1 h.isNumber
      have htext : (atom :: later).flatMap Atom.source = n.text ++ (unit ++ back) := by
        rw [htail, List.flatMap_cons, hatom]
        rfl
      have hread : literal? (Zone.code.after (before.flatMap Atom.source))
          ((before.flatMap Atom.source).getLast?.or none) ((atom :: later).flatMap Atom.source) =
            some (n, back) := by
        refine literal?_eq_some_iff.2 ⟨?_, ?_, hn, htext, h.next⟩
        · simpa using outside_iff.1 h.outside
        · simpa using h.previous
      have hatoms' := atomsFrom_of_append hatoms
      obtain ⟨c, text, hcons⟩ :=
        List.exists_cons_of_ne_nil (by simp [h.isNumber.ne_nil] : n.text ++ (unit ++ back) ≠ [])
      rw [htext, hcons] at hread hatoms'
      rw [atomsFrom_of_some hread] at hatoms'
      obtain ⟨rfl, -⟩ := List.cons.inj hatoms'
      exact ⟨n, rfl, hatom.symm⟩
    · -- the number is the end of a longer one
      cases atom with
      | char d => exact absurd hatom (by simp [Atom.source, hne])
      | literal n =>
        obtain ⟨-, -, hn, -⟩ :=
          literal?_eq_some_iff.1 (literal?_of_atomsFrom (atomsFrom_of_append hatoms))
        exact ⟨n, rfl, eq_append_unit_of_inner hn hatom hne h.isNumber htail⟩
  obtain ⟨n, rfl, rfl⟩ := hlength
  refine ⟨_, mem_literals_of_atoms hatoms, ?_, ?_⟩
  · simp
  · rw [hatom, byteSize_append, byteSize_append _ inner, Nat.add_assoc]

/-! ## The lengths of a value -/

/-- **Exactly the lengths are found.** A length that is found stands where a length may stand, and
its value is that of the number that is written there. Lengths come in the order they are written
and do not overlap. And wherever a length may stand there is one, perhaps with more in front.
Strings and comments are those of the scanner. -/
theorem literals_exact (value : Text) :
    (∀ l ∈ literals value, ∃ front number back, Candidate value front number back ∧
      l.Stands front number ∧
      ∀ sign m e, Written number sign m e → l.numeral.value =
        if sign = some .minus then -Float.ofScientific m true e else Float.ofScientific m true e) ∧
      (literals value).Pairwise
        (fun first second => first.start < second.start ∧ first.stop ≤ second.start) ∧
      (∀ front number back, Candidate value front number back →
        ∃ l ∈ literals value, l.start ≤ byteSize front ∧
          byteSize front + byteSize (number ++ unit) ≤ l.stop) ∧
      ∀ here front, Outside front ↔
        (front.foldl Scanner.step (.start here)).zone.isCode = true := by
  refine ⟨fun l hl => ?_, (pairwise_literalsFrom 0 _).imp_of_mem ?_, fun front number back h => ?_,
    fun here front => (Scanner.isCode_zone_iff here front).symm⟩
  · obtain ⟨front, back, hcandidate, hstands, hn⟩ := exists_candidate_of_mem hl
    exact ⟨front, _, back, hcandidate, hstands,
      fun sign m e hwritten => hn.value_of_written hwritten⟩
  · intro first second hfirst _ hle
    exact ⟨Nat.lt_of_lt_of_le (start_lt_stop hfirst) hle, hle⟩
  · obtain ⟨l, hl, hstart, hstop⟩ := exists_mem_of_candidate h
    exact ⟨l, hl, hstart, Nat.le_of_eq hstop.symm⟩

/-! ## Numbers that are cut -/

theorem isNameChar_of_isDigit {c : Char} (h : c.isDigit = true) : isNameChar c = true := by
  have hrange : 48 ≤ c.toNat ∧ c.toNat ≤ 57 := by
    simpa [Char.isDigit, Char.le_def, UInt32.le_iff_toNat_le] using h
  have hnumeric : isNumeric c = true := by rw [isNumeric, if_pos (by omega), h]
  simp [isNameChar, isAlphanumeric, hnumeric]

/-- A mark in front of a number belongs to it and to no name: it is a sign in front of a number
without one, or a point in front of digits. -/
def IsMark (mark : Char) (number : Text) : Prop :=
  mark = '+' ∧ IsUnsigned number ∨ mark = '.' ∧ Digits number

theorem IsMark.isNumber {mark : Char} (h : IsMark mark number) : IsNumber (mark :: number) := by
  rcases h with ⟨rfl, hunsigned⟩ | ⟨rfl, hdigits⟩
  · exact hunsigned.isNumber_cons .plus
  · exact hdigits.isNumber_point

theorem IsMark.isPlain {mark : Char} (h : IsMark mark number) : isPlain mark = true := by
  rcases h with ⟨rfl, -⟩ | ⟨rfl, -⟩ <;> rfl

/-- Digits and the other sign belong to names, so they are never left in front of a length. -/
theorem isMark_of_isNumber {mark : Char} {t : Text} (hname : isNameChar mark = false)
    (h : IsNumber (t ++ mark :: number)) : IsMark mark number := by
  rcases h.of_split with hdigit | ⟨rfl, hdigits⟩ | ⟨sign, rfl, hunsigned⟩
  · rw [isNameChar_of_isDigit hdigit] at hname
    cases hname
  · exact .inr ⟨rfl, hdigits⟩
  · cases sign with
    | plus => exact .inl ⟨rfl, hunsigned⟩
    | minus => exact absurd hname (by decide +kernel)

/-- A length that is found does not go on in front, as long as a length may stand there. -/
theorem not_candidate_of_stands {mark : Char} (h : l ∈ literals value)
    (hstands : l.Stands (front ++ [mark]) number) :
    ¬ Candidate value front (mark :: number) back := by
  intro hcandidate
  obtain ⟨l', hl', hstart, hstop⟩ := exists_mem_of_candidate hcandidate
  have hsame : l = l' := by
    refine eq_of_stop_eq h hl' ?_
    rw [hstands.stop, hstop, byteSize_append, List.cons_append, byteSize_cons, byteSize_cons,
      byteSize_nil, Nat.add_zero, Nat.add_assoc]
  have hmark := mark.utf8Size_pos
  have hfront := hstands.start
  rw [byteSize_append, byteSize_cons, byteSize_nil, hsame] at hfront
  omega

/-- **What a length may leave in front.** The text in front of a length ends with a part of its
number exactly if it ends with a mark that belongs to the number, and with a name in front of
that. -/
theorem starts_inside_number_iff (h : l ∈ literals value) :
    ∃ front number back, value = front ++ (number ++ (unit ++ back)) ∧ l.Stands front number ∧
      ((∃ earlier dropped, front = earlier ++ dropped ∧ dropped ≠ [] ∧
        IsNumber (dropped ++ number)) ↔
        ∃ earlier c mark, front = earlier ++ [c, mark] ∧ isNameChar c = true ∧
          IsMark mark number) := by
  obtain ⟨front, back, hcandidate, hstands, -⟩ := exists_candidate_of_mem h
  refine ⟨front, _, back, hcandidate.split, hstands, ?_, ?_⟩
  · rintro ⟨earlier, dropped, hfront, hne, hnumber⟩
    obtain ⟨dropped, mark, rfl⟩ := (List.eq_nil_or_concat dropped).resolve_left hne
    rw [List.concat_eq_append, ← List.append_assoc] at hfront
    rw [List.concat_eq_append, List.append_assoc] at hnumber
    subst hfront
    have hmark : IsMark mark l.numeral.text :=
      isMark_of_isNumber (hcandidate.previous mark (by simp)) hnumber
    -- unless a name ended in front of the mark, the length would start with it
    have hname : ∃ c ∈ (earlier ++ dropped).getLast?, isNameChar c = true := by
      by_contra hnone
      refine not_candidate_of_stands h hstands ⟨?_, hmark.isNumber,
        hcandidate.outside.of_concat hmark.isPlain, ?_, hcandidate.next⟩
      · exact hcandidate.split.trans (by simp)
      · simpa using hnone
    obtain ⟨c, hc, hname⟩ := hname
    obtain ⟨before, hbefore⟩ := List.getLast?_eq_some_iff.1 hc
    exact ⟨before, c, mark, by rw [hbefore]; simp, hname, hmark⟩
  · rintro ⟨earlier, c, mark, rfl, -, hmark⟩
    exact ⟨earlier ++ [c], [mark], by simp, by simp, hmark.isNumber⟩

/-- A number that is glued to a name. -/
def glued : Text := ['a', '1', '.', '5', 'r', 'p', 'x']

/-- What is found of it. -/
def cut : Literal := ⟨3, 7, ⟨none, ['5'], []⟩⟩

theorem starts_inside_number_iff_glued : cut ∈ literals glued ∧ ∃ front number back,
    glued = front ++ (number ++ (unit ++ back)) ∧ cut.Stands front number ∧
      ((∃ earlier dropped, front = earlier ++ dropped ∧ dropped ≠ [] ∧
        IsNumber (dropped ++ number)) ↔
        ∃ earlier c mark, front = earlier ++ [c, mark] ∧ isNameChar c = true ∧
          IsMark mark number) :=
  have hcut : cut ∈ literals glued := by decide +kernel
  ⟨hcut, starts_inside_number_iff hcut⟩

/-- **A length may start inside its number**: of `1.5` behind a name only the `5` is left. -/
theorem cut_starts_inside_number : cut ∈ literals glued ∧ ∃ earlier dropped number,
    glued = earlier ++ dropped ++ (number ++ unit) ∧ dropped ≠ [] ∧
      cut.Stands (earlier ++ dropped) number ∧ IsNumber (dropped ++ number) := by
  refine ⟨by decide +kernel, ['a'], ['1', '.'], ['5'], rfl, by simp, ⟨rfl, rfl⟩, ?_⟩
  exact ⟨none, _, _,
    .unsigned (.mixed (w := ['1']) (f := ['5']) ⟨by simp, by simp⟩ ⟨by simp, by simp⟩)⟩

end Rpx

end MiniSheet
