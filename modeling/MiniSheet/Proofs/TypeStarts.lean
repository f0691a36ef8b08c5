import Mathlib.Data.Finset.Filter
import Mathlib.Data.Finset.Range
import MiniSheet.Proofs.Tagging
import MiniSheet.Proofs.Texts

/-!
# Where type selectors start

Tagging a selector puts the tag in front of some of its characters and changes nothing else, and
which characters these are does not depend on the tag (`Selector.tagTypes_inserts`). They are the
first characters of the names that stand at a place where a compound selector may begin. What has to
stand in front of such a place is said by the text alone (`Selector.Opens`), and the tagger is at a
boundary exactly there (`Selector.opens_iff`).

Behind a blank or a combinator the tagger is as it was at the start, unless it is copying something.
So selectors that are put together with a separator are tagged one by one, and only what leaves
nothing open can be put in front (`Selector.tagTypes_separator_iff`).
-/

namespace MiniSheet

/-! ## Insertions -/

namespace Text

/-- A numbered character, behind the given text if its number is one of the places. -/
def putAt (places : Finset Nat) (tag : Text) (numbered : Char × Nat) : Text :=
  if numbered.2 ∈ places then tag ++ [numbered.1] else [numbered.1]

/-- A text with another text put in front of the characters at the given places. -/
def insertAt (places : Finset Nat) (tag t : Text) : Text := t.zipIdx.flatMap (putAt places tag)

/-- A run of name characters that goes on neither in front nor behind. -/
structure IsRun (front name back : Text) : Prop where
  /-- there is something in it -/
  ne_nil : name ≠ []
  /-- it is made of the characters of names -/
  name : ∀ c ∈ name, isNameChar c = true
  /-- it does not go on in front -/
  front : ∀ c ∈ front.getLast?, isNameChar c = false
  /-- it does not go on behind -/
  back : ∀ c ∈ back.head?, isNameChar c = false

/-- No blank is part of a name. -/
theorem isNameChar_of_isBlank {c : Char} (h : isBlank c = true) : isNameChar c = false := by
  have hall :
      (blankRanges.all fun range => (List.range' range.1 (range.2 - range.1 + 1)).all fun n =>
      !isNameChar (Char.ofNat n)) = true := by decide +kernel
  obtain ⟨range, hrange, hfirst, hlast⟩ := Ranges.contains_iff.1 h
  have hmem : c.toNat ∈ List.range' range.1 (range.2 - range.1 + 1) :=
    List.mem_range'_1.2 ⟨hfirst, by omega⟩
  have hnot := List.all_eq_true.1 (List.all_eq_true.1 hall range hrange) _ hmem
  rwa [Char.ofNat_toNat, Bool.not_eq_true'] at hnot

end Text

namespace Selector

open Text

variable {mode : Mode} {tag s t front name : Text} {c : Char}

/-! ## Boundaries -/

/-- A character that separates compound selectors. -/
def isSeparator (c : Char) : Bool := isBlank c || isCombinator c

theorem isNameChar_of_isSeparator (h : isSeparator c = true) : isNameChar c = false := by
  rcases Bool.or_eq_true_iff.1 h with hblank | hcombinator
  · exact isNameChar_of_isBlank hblank
  · simp only [isCombinator, Bool.or_eq_true, beq_iff_eq] at hcombinator
    rcases hcombinator with ((rfl | rfl) | rfl) | rfl <;> decide +kernel

theorem ne_of_isSeparator {other : Char} (h : isSeparator c = true)
    (hother : isSeparator other = false) : c ≠ other := by
  rintro rfl
  rw [h] at hother
  cases hother

namespace Mode

theorem plain_eq_boundary_iff : plain c = boundary ↔ isSeparator c = true := by
  constructor
  · intro h
    rw [plain] at h
    split at h
    · cases h
    split at h
    · cases h
    split at h
    · cases h
    split at h
    · cases h
    split at h
    · rename_i hc
      exact hc
    · cases h
  · intro h
    have hquote : Zone.isQuote c = false := by
      rw [Zone.isQuote, Bool.or_eq_false_iff, beq_eq_false_iff_ne, beq_eq_false_iff_ne]
      exact ⟨ne_of_isSeparator h (by decide), ne_of_isSeparator h (by decide)⟩
    have hsquare : c ≠ '[' := ne_of_isSeparator h (by decide)
    have hround : c ≠ '(' := ne_of_isSeparator h (by decide)
    have hcolon : c ≠ ':' := ne_of_isSeparator h (by decide)
    rw [plain, hquote, if_neg Bool.false_ne_true, if_neg (by simpa using hsquare),
      if_neg (by simpa using hround), if_neg (by simpa using hcolon)]
    exact if_pos h

/-- Where something is copied, no boundary comes next. -/
theorem isReading_of_step_eq_boundary (h : mode.step c = boundary) : mode.isReading = true := by
  cases mode with
  | boundary | compound | pseudo => rfl
  | bracketed =>
    rw [step] at h
    split at h <;> cases h
  | argument depth =>
    rw [step.eq_def] at h
    dsimp only at h
    split at h
    · cases h
    split at h
    · cases depth <;> cases h
    · cases h
  | quoted quote =>
    rw [step] at h
    split at h
    · cases h
    split at h <;> cases h
  | escaped quote => cases h

/-- **How a boundary comes about**: behind a separator, or where the argument of a pseudo-class
starts. -/
theorem step_eq_boundary_iff : mode.step c = boundary ↔ mode.isReading = true ∧
    (isSeparator c = true ∨ ∃ name, mode = pseudo name ∧ c = '(' ∧ takesSelector name = true) := by
  refine ⟨fun h => ⟨isReading_of_step_eq_boundary h, ?_⟩, ?_⟩
  · cases mode with
    | boundary | compound => exact .inl (plain_eq_boundary_iff.1 h)
    | pseudo name =>
      rw [step] at h
      split at h
      · cases h
      split at h
      · rename_i hopen
        obtain ⟨hc, htakes⟩ := Bool.and_eq_true_iff.1 hopen
        exact .inr ⟨name, rfl, beq_iff_eq.1 hc, htakes⟩
      · exact .inl (plain_eq_boundary_iff.1 h)
    | bracketed | argument | quoted | escaped => cases isReading_of_step_eq_boundary h
  · rintro ⟨hreading, hc | ⟨name, rfl, rfl, htakes⟩⟩
    · cases mode with
      | boundary | compound => exact plain_eq_boundary_iff.2 hc
      | pseudo name =>
        have hname : ¬ (isNameChar c || c == ':') = true := by
          rw [isNameChar_of_isSeparator hc, Bool.false_or, beq_iff_eq]
          exact ne_of_isSeparator hc (by decide)
        have hround : c ≠ '(' := ne_of_isSeparator hc (by decide)
        rw [step, if_neg hname, if_neg (by simp [hround])]
        exact plain_eq_boundary_iff.2 hc
      | bracketed | argument | quoted | escaped => cases hreading
    · rw [step, if_neg (by decide +kernel), htakes]
      rfl

/-- Colons keep nothing from being read. -/
theorem isReading_after_colons (h : mode.isReading = true) (hs : ∀ c ∈ s, c = ':') :
    (mode.after s).isReading = true := by
  induction s generalizing mode with
  | nil => exact h
  | cons c s ih =>
    obtain ⟨name, hname⟩ := step_colon h
    obtain rfl := hs c List.mem_cons_self
    rw [after_cons, hname]
    exact ih rfl fun other hmem => hs other (List.mem_cons_of_mem _ hmem)

end Mode

/-! ## Places -/

/-- What stands in front of a place where a compound selector may begin. -/
inductive Opens : Text → Prop where
  /-- nothing -/
  | nil : Opens []
  /-- a separator that is not copied as part of something else -/
  | separator {front : Text} {c : Char} (hfront : (Mode.boundary.after front).isReading = true)
    (hc : isSeparator c = true) : Opens (front ++ [c])
  /-- a pseudo-class whose argument is a selector, up to the bracket, behind something that is no
  pseudo-class -/
  | argument {front name : Text} (hfront : (Mode.boundary.after front).isReading = true)
    (hname : name.map Char.toLower ∈ selectorPseudos) (hends : ¬ EndsInName front) :
    Opens (front ++ ':' :: (name ++ ['(']))

/-- A name that takes a selector is one of a few words, behind any number of colons. -/
theorem exists_of_takesSelector (h : takesSelector name = true) :
    ∃ colons word, name = colons ++ word ∧ (∀ c ∈ colons, c = ':') ∧
      word.map Char.toLower ∈ selectorPseudos :=
  ⟨name.takeWhile (· == ':'), name.dropWhile (· == ':'), List.takeWhile_append_dropWhile.symm,
    fun _ hc => beq_iff_eq.1 (List.mem_takeWhile_imp (p := (· == ':')) hc),
    List.contains_iff_mem.1 h⟩

/-- Where the name of a pseudo-class takes a selector, its bracket opens one. -/
theorem opens_of_pseudo (h : Mode.boundary.after s = .pseudo name)
    (htakes : takesSelector name = true) : Opens (s ++ ['(']) := by
  obtain ⟨front, rfl, hreading, -⟩ := Mode.exists_of_after_eq_pseudo h
  obtain ⟨colons, word, rfl, hcolons, hword⟩ := exists_of_takesSelector htakes
  -- the last colon is the one directly in front of the word
  obtain ⟨before, hbefore, hall⟩ : ∃ before, ':' :: colons = before ++ [':'] ∧
      ∀ c ∈ before, c = ':' := by
    have hrepeat : colons = List.replicate colons.length ':' := List.eq_replicate_of_mem hcolons
    refine ⟨List.replicate colons.length ':', ?_, fun c hc => List.eq_of_mem_replicate hc⟩
    rw [← List.replicate_succ', List.replicate_succ, ← hrepeat]
  have htext : front ++ ':' :: (colons ++ word) = (front ++ before) ++ ':' :: word := by
    rw [← List.cons_append, hbefore, List.append_assoc, List.append_assoc]
    rfl
  have hfront : (Mode.boundary.after (front ++ before)).isReading = true := by
    rw [Mode.after_append]
    exact Mode.isReading_after_colons hreading hall
  rw [htext] at h ⊢
  rw [List.append_assoc, List.cons_append]
  refine .argument hfront hword fun hends => ?_
  -- a longer name in front would take no selector
  obtain ⟨other, hother, hne⟩ := endsInName_iff.1 hends
  rw [Mode.after_append, hother, Mode.after_cons, Mode.step_pseudo (by decide +kernel),
    Mode.after_pseudo (isPseudoChar_of_mem hword), List.append_assoc] at h
  rw [← Mode.pseudo.inj h, List.singleton_append, takesSelector_eq_false hne] at htakes
  cases htakes

/-- **The tagger is at a boundary** exactly where a compound selector may begin. -/
theorem opens_iff : Opens front ↔ Mode.boundary.after front = .boundary := by
  constructor
  · rintro (_ | ⟨hfront, hc⟩ | ⟨hfront, hname, hends⟩)
    · rfl
    · rw [Mode.after_append]
      exact Mode.step_eq_boundary_iff.2 ⟨hfront, .inl hc⟩
    · obtain ⟨before, hcolon⟩ := Mode.step_colon hfront
      rw [Mode.after_append, Mode.after_cons, hcolon, Mode.after_append,
        Mode.after_pseudo (isPseudoChar_of_mem hname)]
      exact step_round_of_not_endsInName hends hcolon hname
  · intro h
    induction front using List.reverseRecOn with
    | nil => exact .nil
    | append_singleton front c =>
      rw [Mode.after_append] at h
      obtain ⟨hreading, hc | ⟨name, hname, rfl, htakes⟩⟩ := Mode.step_eq_boundary_iff.1 h
      · exact .separator hreading hc
      · exact opens_of_pseudo hname htakes

/-- What opens a selector is not part of a name. -/
theorem Opens.last (h : Opens front) : ∀ c ∈ front.getLast?, isNameChar c = false := by
  intro c hlast
  cases h with
  | nil => cases hlast
  | separator _ hc =>
    rw [List.getLast?_concat] at hlast
    exact Option.some.inj hlast ▸ isNameChar_of_isSeparator hc
  | argument =>
    rw [← List.cons_append, ← List.append_assoc, List.getLast?_concat] at hlast
    rw [← Option.some.inj hlast]
    decide +kernel

/-- The places where type selectors start. -/
def typeStarts (s : Text) : Finset Nat :=
  (Finset.range s.length).filter fun i =>
    s[i]?.any (Mode.boundary.after (s.take i)).startsType = true

theorem length_mem_typeStarts {back : Text} (h : s = front ++ c :: back) :
    front.length ∈ typeStarts s ↔ (Mode.boundary.after front).startsType c = true := by
  rw [typeStarts, Finset.mem_filter, Finset.mem_range, h]
  simp

theorem mem_typeStarts {i : Nat} :
    i ∈ typeStarts s ↔ ∃ front name back, s = front ++ (name ++ back) ∧ front.length = i ∧
      Opens front ∧ IsRun front name back ∧ ∃ c ∈ name.head?, isNameStart c = true := by
  constructor
  · intro h
    have hlength : i < s.length := Finset.mem_range.1 (Finset.mem_filter.1 h).1
    have hdrop : s.drop i = s[i] :: s.drop (i + 1) := List.drop_eq_getElem_cons hlength
    have hsplit : s = s.take i ++ s[i] :: s.drop (i + 1) := by rw [← hdrop, List.take_append_drop]
    have hi : (s.take i).length = i := List.length_take_of_le hlength.le
    rw [← hi, length_mem_typeStarts hsplit] at h
    have hopens : Opens (s.take i) := opens_iff.2 (by
      by_contra hne
      rw [startsType_of_ne_boundary hne] at h
      cases h)
    rw [opens_iff.1 hopens] at h
    refine ⟨s.take i, (s.drop i).takeWhile isNameChar, (s.drop i).dropWhile isNameChar,
      ?_, hi, hopens, ⟨?_, fun _ => List.mem_takeWhile_imp, hopens.last, head_dropWhile⟩,
      s[i], ?_, h⟩
    · rw [List.takeWhile_append_dropWhile, List.take_append_drop]
    · rw [hdrop, List.takeWhile_cons_of_pos (isNameChar_of_isNameStart h)]
      exact List.cons_ne_nil _ _
    · rw [hdrop, List.takeWhile_cons_of_pos (isNameChar_of_isNameStart h)]
      rfl
  · rintro ⟨front, name, back, hs, rfl, hopens, -, c, hc, hstart⟩
    obtain ⟨rest, rfl⟩ := List.head?_eq_some_iff.1 hc
    rw [length_mem_typeStarts (c := c) hs, opens_iff.1 hopens]
    exact hstart

/-- Tagging is insertion, from any mode on. -/
theorem tagFrom_eq_flatMap {places : Finset Nat} {n : Nat}
    (h : ∀ front c back, t = front ++ c :: back →
      (n + front.length ∈ places ↔ (mode.after front).startsType c = true)) :
    tagFrom tag mode t = (t.zipIdx n).flatMap (putAt places tag) := by
  induction t generalizing mode n with
  | nil => rfl
  | cons c t ih =>
    have hrest : tagFrom tag (mode.step c) t = (t.zipIdx (n + 1)).flatMap (putAt places tag) :=
      ih fun front d back heq => by
        have hlater := h (c :: front) d back (heq ▸ rfl)
        rwa [List.length_cons, Nat.add_comm front.length, ← Nat.add_assoc] at hlater
    have hfirst : n ∈ places ↔ mode.startsType c = true := h [] c t rfl
    rw [tagFrom_cons, List.zipIdx_cons, List.flatMap_cons, hrest, putAt]
    by_cases hstarts : mode.startsType c = true
    · rw [if_pos hstarts, if_pos (hfirst.2 hstarts), List.append_assoc]
      rfl
    · rw [if_neg hstarts, if_neg fun hmem => hstarts (hfirst.1 hmem)]
      rfl

/-- **Tagging only inserts.** For every selector there are places, whatever the tag is, such that
tagging puts the tag in front of the characters at these places and does nothing else. They are the
places where a name starts, with a character that names may start with, behind something that opens
a compound selector. -/
theorem tagTypes_inserts (s : Text) : ∃ places : Finset Nat,
    (∀ tag, tagTypes tag s = insertAt places tag s) ∧ tagTypes [] s = s ∧
      ∀ i, i ∈ places ↔
        ∃ front name back, s = front ++ (name ++ back) ∧ front.length = i ∧ Opens front ∧
          IsRun front name back ∧ ∃ c ∈ name.head?, isNameStart c = true := by
  have hinsert (tag : Text) : tagTypes tag s = insertAt (typeStarts s) tag s := by
    refine tagFrom_eq_flatMap fun front c back heq => ?_
    rw [Nat.zero_add]
    exact length_mem_typeStarts heq
  refine ⟨typeStarts s, hinsert, ?_, fun i => mem_typeStarts⟩
  have hnothing : putAt (typeStarts s) [] = fun numbered => [numbered.1] :=
    funext fun _ => ite_self _
  rw [hinsert, insertAt, hnothing, ← List.map_eq_flatMap, List.zipIdx_map_fst]

/-! ## Separators -/

/-- **Selectors are tagged one by one.** What stands behind a separator is tagged as it would be on
its own, if and only if the text in front of the separator does not end inside of a string, an
attribute or an argument that is copied. -/
theorem tagTypes_separator_iff (s : Text) (c : Char) (hc : isSeparator c = true) :
    (∀ t tag, tagTypes tag (s ++ c :: t) = tagTypes tag s ++ c :: tagTypes tag t) ↔
      (Mode.boundary.after s).isReading = true := by
  have hcopied : isNameStart c = false := by
    rw [Bool.eq_false_iff]
    intro hstart
    have hname := isNameChar_of_isNameStart hstart
    rw [isNameChar_of_isSeparator hc] at hname
    cases hname
  have hsplit (t tag : Text) : tagTypes tag (s ++ c :: t) =
      tagTypes tag s ++ c :: tagFrom tag ((Mode.boundary.after s).step c) t := by
    refine (tagFrom_append ..).trans ?_
    rw [tagFrom_cons, startsType_eq_false hcopied]
    rfl
  constructor
  · intro hlaw
    by_contra hreading
    -- inside of something that is copied there is no boundary behind the separator either
    have hboundary : (Mode.boundary.after s).step c ≠ .boundary :=
      fun h => hreading (Mode.step_eq_boundary_iff.1 h).1
    have hone : tagFrom ['b'] ((Mode.boundary.after s).step c) ['b'] = ['b'] := by
      rw [tagFrom_cons, startsType_of_ne_boundary hboundary]
      rfl
    have htwo : tagTypes ['b'] ['b'] = ['b', 'b'] := by decide +kernel
    have hboth := (hsplit ['b'] ['b']).symm.trans (hlaw ['b'] ['b'])
    rw [hone, htwo] at hboth
    simp at hboth
  · intro hreading t tag
    rw [hsplit, Mode.step_eq_boundary_iff.2 ⟨hreading, .inl hc⟩]
    rfl

/-- The text in front of the separator may end with a name inside of the argument of `:not`. -/
theorem tagTypes_separator_iff_nested : isSeparator '~' = true ∧
    tagTypes "wx-".toList "a[b=' ']:hover, :not(c~d".toList =
      tagTypes "wx-".toList "a[b=' ']:hover, :not(c".toList ++
        '~' :: tagTypes "wx-".toList "d".toList :=
  ⟨by decide,
    (tagTypes_separator_iff "a[b=' ']:hover, :not(c".toList '~' (by decide)).2 (by decide +kernel)
      "d".toList "wx-".toList⟩

end Selector

end MiniSheet
