import MiniSheet.Proofs.Lossless
import MiniSheet.Proofs.Scanning

/-!
# Declarations that can be read back

A declaration is written as a statement: property and separator as they are, the value, and the
marker behind a space (`Declaration.statement`). Reading that statement gives the declaration again
(`Declaration.WellFormed.read?_statement`) as long as it has the form that all declarations have
that were read (`Declaration.wellFormed_of_read?`), and a marked one has a value.

Without a value the space in front of the marker would become a part of the separator. And a value
that ends with something that spells a marker would lose it, so an unmarked declaration must not
have such a value (`Declaration.Unmarked`).
-/

namespace MiniSheet

open Text

namespace Declaration

/-! ## Markers -/

/-- The word behind the exclamation mark of a marker: `important` in any case, with blanks
anywhere. -/
def Spells (word : Text) : Prop :=
  sameWord (word.filter fun c => !isBlank c) "important".toList = true

/-- No marker stands at the end of the text. -/
def Unmarked (t : Text) : Prop := ∀ front word, t = front ++ '!' :: word → ¬ Spells word

/-- The characters of a marker: blanks and the letters of the word. -/
theorem Spells.mem {word : Text} (h : Spells word) {c : Char} (hc : c ∈ word) :
    isBlank c = true ∨ c.toLower ∈ "important".toList := by
  rcases hblank : isBlank c with _ | _
  · have hword : c ∈ word.filter fun c => !isBlank c := List.mem_filter.2 ⟨hc, by rw [hblank]; rfl⟩
    have hletter := List.mem_map_of_mem (f := Char.toLower) hword
    rw [beq_iff_eq.1 h] at hletter
    exact .inr hletter
  · exact .inl rfl

theorem Spells.isPlain {word : Text} (h : Spells word) {c : Char} (hc : c ∈ word) :
    isPlain c = true := by
  rcases h.mem hc with hblank | hletter
  · exact isPlain_of_isBlank hblank
  · exact isPlain_of_class (p := fun c => "important".toList.contains c.toLower) (by decide)
      (by simpa using hletter)

theorem Spells.not_mem {word : Text} (h : Spells word) {c : Char} (hblank : isBlank c = false)
    (hletter : c.toLower ∉ "important".toList) : c ∉ word := by
  intro hc
  rcases h.mem hc with hc | hc
  · rw [hblank] at hc
    cases hc
  · exact hletter hc

theorem splitMarker_append {front word : Text} (h : Spells word) :
    splitMarker (front ++ '!' :: word) = (trimEnd front, some ('!' :: word)) := by
  rw [splitMarker, splitLast?_append (h.not_mem (by decide) (by decide))]
  exact if_pos h

theorem splitMarker_of_unmarked {t : Text} (h : Unmarked t) : splitMarker t = (t, none) := by
  rw [splitMarker]
  split
  · rename_i front word hsplit
    exact if_neg (h front word (eq_of_splitLast? hsplit))
  · rfl

/-- A text ends with a marker or is unmarked. -/
theorem unmarked_or_marked (t : Text) :
    Unmarked t ∨ ∃ front word, t = front ++ '!' :: word ∧ Spells word := by
  by_cases h : ∃ front word, t = front ++ '!' :: word ∧ Spells word
  · exact .inr h
  · exact .inl fun front word ht hword => h ⟨front, word, ht, hword⟩

/-! ## Form -/

/-- The form of declarations. -/
structure WellFormed (d : Declaration) : Prop where
  /-- the property has a name -/
  property_ne_nil : d.property ≠ []
  /-- the name is made of the characters of property names -/
  property : ∀ c ∈ d.property, isPropertyChar c = true
  /-- the separator is a colon with gaps around it -/
  separator : ∃ front back, d.separator = front ++ ':' :: back ∧ (∀ c ∈ front, isGap c = true) ∧
    ∀ c ∈ back, isGap c = true
  /-- all gaps in front of the value belong to the separator -/
  value_head : ∀ c ∈ d.value.head?, isGap c = false
  /-- no blanks stand behind the value -/
  value_last : ∀ c ∈ d.value.getLast?, isBlank c = false
  /-- the value leaves nothing open -/
  value_sealed : Sealed d.value
  /-- the value of an unmarked declaration does not end like a marked one -/
  unmarked : d.marker = none → Unmarked d.value
  /-- a marker spells the word, and no blanks stand behind it -/
  marked : ∀ marker, d.marker = some marker →
    ∃ word, marker = '!' :: word ∧ Spells word ∧ ∀ c ∈ marker.getLast?, isBlank c = false

/-- The declaration as a statement. -/
def statement (d : Declaration) : Text :=
  d.property ++ d.separator ++ d.value ++ d.marker.elim [] (' ' :: ·)

variable {d : Declaration} {statement : Text} {terminated : Bool}

theorem isPropertyChar_of_isGap {c : Char} (h : isGap c = true) : isPropertyChar c = false := by
  simp only [isGap, Bool.or_eq_true, beq_iff_eq] at h
  rcases h with ((rfl | rfl) | rfl) | rfl <;> decide +kernel

/-- What reading cuts a statement into, given its parts. -/
theorem read?_parts {property front back rest : Text} (hne : property ≠ [])
    (hproperty : ∀ c ∈ property, isPropertyChar c = true) (hfront : ∀ c ∈ front, isGap c = true)
    (hback : ∀ c ∈ back, isGap c = true) (hrest : ∀ c ∈ rest.head?, isGap c = false) :
    read? (property ++ (front ++ ':' :: (back ++ rest))) terminated =
      some ⟨property, front ++ ':' :: back, (splitMarker (trimEnd rest)).1,
        (splitMarker (trimEnd rest)).2, terminated⟩ := by
  have hcolon : ∀ c ∈ (':' :: (back ++ rest)).head?, isGap c = false := by simp [isGap]
  have hbehind : ∀ c ∈ (front ++ ':' :: (back ++ rest)).head?, isPropertyChar c = false := by
    intro c hc
    cases front with
    | nil =>
      obtain rfl := Option.some.inj hc
      decide +kernel
    | cons first front =>
      obtain rfl := Option.some.inj hc
      exact isPropertyChar_of_isGap (hfront first List.mem_cons_self)
  rw [read?, takeWhile_append_of_head hproperty hbehind, dropWhile_append_of_head hproperty hbehind,
    takeWhile_append_of_head hfront hcolon, dropWhile_append_of_head hfront hcolon]
  obtain ⟨first, property, rfl⟩ := List.exists_cons_of_ne_nil hne
  have hgap := takeWhile_append_of_head hback hrest
  have hvalue := dropWhile_append_of_head hback hrest
  change some (Declaration.mk (first :: property) (front ++ ':' :: (back ++ rest).takeWhile isGap)
    (splitMarker (trimEnd ((back ++ rest).dropWhile isGap))).1
    (splitMarker (trimEnd ((back ++ rest).dropWhile isGap))).2 terminated) = _
  rw [hgap, hvalue]

/-- What stands in front of a value opens nothing. -/
theorem isPlain_of_head {property front back : Text}
    (hproperty : ∀ c ∈ property, isPropertyChar c = true) (hfront : ∀ c ∈ front, isGap c = true)
    (hback : ∀ c ∈ back, isGap c = true) :
    ∀ c ∈ property ++ (front ++ ':' :: back), isPlain c = true ∨ c = '*' := by
  intro c hc
  simp only [List.mem_append, List.mem_cons] at hc
  rcases hc with hc | hc | rfl | hc
  · exact isPlain_or_eq_star_of_isPropertyChar (hproperty c hc)
  · exact .inl (isPlain_of_isGap (hfront c hc))
  · exact .inl rfl
  · exact .inl (isPlain_of_isGap (hback c hc))

/-- **Declarations that were read are well-formed.** -/
theorem wellFormed_of_read? (h : read? statement terminated = some d) (hsealed : Sealed statement) :
    d.WellFormed := by
  obtain ⟨front, back, rest, hstatement, hne, hproperty, hseparator, hfront, hback, hrest, hsplit,
      -⟩ := parts_of_read? h
  have hopen : Sealed (trimEnd rest) := by
    have hhead : statement = (d.property ++ (front ++ ':' :: back)) ++ rest := by
      rw [hstatement]; simp
    rw [hhead] at hsealed
    exact ((sealed_append_iff (isPlain_of_head hproperty hfront hback)).1 hsealed).trimEnd
  have hfirst : ∀ c ∈ (trimEnd rest).head?, isGap c = false := head_trimEnd hrest
  have hlast : ∀ c ∈ (trimEnd rest).getLast?, isBlank c = false := last_trimEnd
  have hform : ∃ front back, d.separator = front ++ ':' :: back ∧ (∀ c ∈ front, isGap c = true) ∧
      ∀ c ∈ back, isGap c = true := ⟨front, back, hseparator, hfront, hback⟩
  rcases unmarked_or_marked (trimEnd rest) with hunmarked | ⟨before, word, hbefore, hword⟩
  · -- the whole rest is the value
    rw [splitMarker_of_unmarked hunmarked] at hsplit
    obtain ⟨hvalue, hmarker⟩ := Prod.mk.inj hsplit
    rw [hvalue] at hopen hfirst hlast hunmarked
    exact ⟨hne, hproperty, hform, hfirst, hlast, hopen, fun _ => hunmarked, fun marker hsome => by
      rw [← hmarker] at hsome; cases hsome⟩
  · -- the value stands in front of the marker
    rw [hbefore] at hopen hfirst hlast hsplit
    rw [splitMarker_append hword] at hsplit
    obtain ⟨hvalue, hmarker⟩ := Prod.mk.inj hsplit
    have hplain : ∀ c ∈ '!' :: word, isPlain c = true := by
      intro c hc
      rcases List.mem_cons.1 hc with rfl | hc
      · rfl
      · exact hword.isPlain hc
    refine ⟨hne, hproperty, hform, ?_, ?_, ?_, fun hnone => ?_, fun marker hsome => ?_⟩
    · rw [← hvalue]
      refine head_trimEnd fun c hc => hfirst c ?_
      rw [List.head?_append, hc]
      rfl
    · rw [← hvalue]
      exact last_trimEnd
    · rw [← hvalue]
      exact (hopen.of_append_plain hplain).trimEnd
    · rw [← hmarker] at hnone
      cases hnone
    · rw [← hmarker] at hsome
      obtain rfl := Option.some.inj hsome
      refine ⟨word, rfl, hword, fun c hc => hlast c ?_⟩
      rw [List.getLast?_append, hc]
      rfl

namespace WellFormed

/-- The separator of a well-formed declaration is written as it is, since it has a colon. -/
theorem writtenSeparator_eq (h : d.WellFormed) : d.writtenSeparator = d.separator := by
  obtain ⟨front, back, hseparator, -, -⟩ := h.separator
  rw [writtenSeparator, hseparator]
  exact if_neg (by simp)

/-- What stands behind the value of a declaration. -/
theorem isPlain_marker (h : d.WellFormed) :
    ∀ c ∈ d.marker.elim [] (' ' :: ·), isPlain c = true := by
  intro c hc
  rcases hmarker : d.marker with _ | marker
  · rw [hmarker] at hc
    cases hc
  · rw [hmarker] at hc
    obtain ⟨word, rfl, hword, -⟩ := h.marked marker hmarker
    simp only [Option.elim_some, List.mem_cons] at hc
    rcases hc with rfl | rfl | hc
    · rfl
    · rfl
    · exact hword.isPlain hc

/-- A well-formed declaration is a statement. -/
theorem sealed_statement (h : d.WellFormed) : Sealed d.statement := by
  obtain ⟨front, back, hseparator, hfront, hback⟩ := h.separator
  rw [Declaration.statement, hseparator, List.append_assoc]
  exact (sealed_append_iff (isPlain_of_head h.property hfront hback)).2
    (h.value_sealed.append_plain h.isPlain_marker)

/-- Splitting the marker off a value gives both back. -/
theorem splitMarker_value (h : d.WellFormed) :
    splitMarker (trimEnd (d.value ++ d.marker.elim [] (' ' :: ·))) = (d.value, d.marker) := by
  rcases hmarker : d.marker with _ | marker
  · rw [Option.elim_none, List.append_nil, trimEnd_of_last h.value_last,
      splitMarker_of_unmarked (h.unmarked hmarker)]
  · obtain ⟨word, rfl, hword, hlast⟩ := h.marked marker hmarker
    have hend : ∀ c ∈ (d.value ++ [' '] ++ '!' :: word).getLast?, isBlank c = false := by
      intro c hc
      rw [List.getLast?_append, List.getLast?_cons] at hc
      exact hlast c (by rw [List.getLast?_cons]; exact hc)
    have htext : d.value ++ ' ' :: '!' :: word = d.value ++ [' '] ++ '!' :: word := by simp
    rw [Option.elim_some, htext, trimEnd_of_last hend, splitMarker_append hword,
      trimEnd_append_blank (by simp; decide), trimEnd_of_last h.value_last]

/-- **A well-formed declaration can be read back**, if it has a value or no marker. -/
theorem read?_statement (h : d.WellFormed) (hvalue : d.value = [] → d.marker = none) :
    read? d.statement d.terminated = some d := by
  obtain ⟨front, back, hseparator, hfront, hback⟩ := h.separator
  have hrest : ∀ c ∈ (d.value ++ d.marker.elim [] (' ' :: ·)).head?, isGap c = false := by
    intro c hc
    by_cases hempty : d.value = []
    · rw [hempty, hvalue hempty] at hc
      cases hc
    · obtain ⟨first, value, hcons⟩ := List.exists_cons_of_ne_nil hempty
      rw [hcons] at hc
      exact h.value_head c (by rw [hcons]; exact hc)
  have hparts : d.statement =
      d.property ++ (front ++ ':' :: (back ++ (d.value ++ d.marker.elim [] (' ' :: ·)))) := by
    rw [Declaration.statement, hseparator]
    simp
  rw [hparts, read?_parts h.property_ne_nil h.property hfront hback hrest, h.splitMarker_value,
    ← hseparator]

end WellFormed

end Declaration

end MiniSheet
