import MiniSheet.Output.Production
import MiniSheet.Proofs.Zones

/-!
# The form of imports

An import names its target by a single quoted path (`Import.IsLiteral`). What is checked is less:
that the parameters start and end with the same quote and that there is something between the two
(`Import.quotedPath?_eq_some_iff`). So all literals are accepted, and so is what goes on behind its
first string and happens to end with the same quote (`Import.RunsOn`). It is not refused for its
form, but looked up as one path from the first quote to the last one
(`Compiler.resolveImport_by_form`), which is what becomes of two paths (`Compiler.two_paths`).

In a source, all strings are closed. There a literal is a string and nothing else
(`Import.isLiteral_iff_of_sealed`), and what runs on starts with a string and ends with another one
(`Import.runsOn_iff_of_sealed`).
-/

namespace MiniSheet

open Text

namespace Import

variable {quote : Char} {params path t inner : Text}

/-- There is a quote in the text that no backslash takes with it. -/
def Closes (quote : Char) (inner : Text) : Prop :=
  ∃ body rest, inner = body ++ quote :: rest ∧ StringBody quote body

/-- A single quoted text: a quote, something in which that quote does not occur unless escaped, and
the quote again. -/
def IsLiteral (t : Text) : Prop :=
  ∃ quote inner, Zone.isQuote quote = true ∧ inner ≠ [] ∧ ¬ Closes quote inner ∧
    t = quote :: (inner ++ [quote])

/-- A text that goes on behind its first string and ends with the quote of that string. -/
def RunsOn (t : Text) : Prop :=
  ∃ quote inner, Zone.isQuote quote = true ∧ Closes quote inner ∧ t = quote :: (inner ++ [quote])

/-- **What is accepted**: the same quote at both ends, and something between them. -/
theorem quotedPath?_eq_some_iff : quotedPath? params = some path ↔
    ∃ quote, Zone.isQuote quote = true ∧ path ≠ [] ∧ trim params = quote :: (path ++ [quote]) := by
  rw [quotedPath?]
  constructor
  · intro h
    split at h
    · cases h
    · rename_i quote rest htrim
      split at h
      · rename_i hform
        obtain rfl := Option.some.inj h
        simp only [Bool.and_eq_true, beq_iff_eq, Bool.not_eq_true',
          List.isEmpty_eq_false_iff] at hform
        obtain ⟨⟨hquote, hlast⟩, hne⟩ := hform
        obtain ⟨front, rfl⟩ := List.getLast?_eq_some_iff.1 hlast
        exact ⟨quote, hquote, hne, by rw [htrim, List.dropLast_concat]⟩
      · cases h
  · rintro ⟨quote, hquote, hne, htrim⟩
    rw [htrim]
    simp [hquote, hne]

/-- So literals are accepted, and what runs on, and nothing else. -/
theorem quotedPath?_eq_none_iff :
    quotedPath? params = none ↔ ¬ IsLiteral (trim params) ∧ ¬ RunsOn (trim params) := by
  rw [← not_or]
  refine Option.eq_none_iff_forall_ne_some.trans (not_exists.symm.trans (not_congr ?_))
  simp only [quotedPath?_eq_some_iff]
  constructor
  · rintro ⟨inner, quote, hquote, hne, htrim⟩
    by_cases hcloses : Closes quote inner
    · exact .inr ⟨quote, inner, hquote, hcloses, htrim⟩
    · exact .inl ⟨quote, inner, hquote, hne, hcloses, htrim⟩
  · rintro (⟨quote, inner, hquote, hne, -, htrim⟩ | ⟨quote, inner, hquote,
      ⟨body, rest, rfl, -⟩, htrim⟩)
    · exact ⟨inner, quote, hquote, hne, htrim⟩
    · exact ⟨_, quote, hquote, by simp, htrim⟩

/-- What runs on is no literal. -/
theorem RunsOn.not_isLiteral (h : RunsOn t) : ¬ IsLiteral t := by
  obtain ⟨quote, inner, -, hcloses, rfl⟩ := h
  rintro ⟨quote', inner', -, -, hnot, hsame⟩
  obtain ⟨rfl, hsame⟩ := List.cons.inj hsame
  exact hnot (List.append_cancel_right hsame ▸ hcloses)

/-! ## In a source -/

/-- A string that is not closed inside the text goes on to its end, or is left behind a
backslash. -/
theorem closes_or_stringBody (quote : Char) (t : Text) :
    Closes quote t ∨ StringBody quote t ∨ ∃ body, t = body ++ ['\\'] ∧ StringBody quote body := by
  -- a backslash takes two characters at once
  induction hlength : t.length using Nat.strongRecOn generalizing t with
  | ind length ih =>
    rcases t with _ | ⟨c, t⟩
    · exact .inr (.inl .nil)
    · by_cases hescape : c = '\\'
      · subst hescape
        rcases t with _ | ⟨next, t⟩
        · exact .inr (.inr ⟨[], rfl, .nil⟩)
        · rcases ih t.length (by simp only [← hlength, List.length_cons]; omega) t rfl with
            ⟨body, rest, rfl, hbody⟩ | hbody | ⟨body, rfl, hbody⟩
          · exact .inl ⟨_, rest, rfl, .escape hbody⟩
          · exact .inr (.inl (.escape hbody))
          · exact .inr (.inr ⟨_, rfl, .escape hbody⟩)
      · by_cases hquote : c = quote
        · exact .inl ⟨[], t, by rw [hquote]; rfl, .nil⟩
        · rcases ih t.length (by simp [← hlength]) t rfl with
            ⟨body, rest, rfl, hbody⟩ | hbody | ⟨body, rfl, hbody⟩
          · exact .inl ⟨c :: body, rest, rfl, .char hquote hescape hbody⟩
          · exact .inr (.inl (.char hquote hescape hbody))
          · exact .inr (.inr ⟨c :: body, rfl, .char hquote hescape hbody⟩)

/-- What may stand between two quotes does not close the string. -/
theorem not_closes_of_stringBody (hquote : Zone.isQuote quote = true) (h : StringBody quote t) :
    ¬ Closes quote t := by
  rintro ⟨body, rest, ht, hbody⟩
  induction h generalizing body with
  | nil => cases body <;> cases ht
  | @char c t hne hescape _ ih =>
    cases hbody with
    | nil => exact hne (List.cons.inj ht).1
    | char _ _ hbody => exact ih _ (List.cons.inj ht).2 hbody
    | escape _ => exact hescape (List.cons.inj ht).1
  | @escape c t _ ih =>
    cases hbody with
    | nil => exact Zone.ne_backslash_of_isQuote hquote (List.cons.inj ht).1.symm
    | char _ hescape _ => exact hescape (List.cons.inj ht).1.symm
    | escape hbody => exact ih _ (List.cons.inj (List.cons.inj ht).2).2 hbody

/-- **A literal is a string**, where all strings are closed. -/
theorem isLiteral_iff_of_sealed (h : Sealed t) : IsLiteral t ↔
    ∃ quote body, Zone.isQuote quote = true ∧ body ≠ [] ∧ StringBody quote body ∧
      t = quote :: (body ++ [quote]) := by
  constructor
  · rintro ⟨quote, inner, hquote, hne, hnot, rfl⟩
    rcases closes_or_stringBody quote inner with hcloses | hbody | ⟨body, rfl, hbody⟩
    · exact absurd hcloses hnot
    · exact ⟨quote, inner, hquote, hne, hbody, rfl⟩
    · -- the backslash takes the last quote with it
      have hcode := outside_iff.1 h.outside
      rw [Zone.after_cons, Zone.step, Zone.enter, if_pos hquote, List.append_assoc,
        Zone.after_append, Zone.after_stringBody hbody] at hcode
      cases hcode
  · rintro ⟨quote, body, hquote, hne, hbody, rfl⟩
    exact ⟨quote, body, hquote, hne, not_closes_of_stringBody hquote hbody, rfl⟩

/-- If a quote at the end closes a string, that string starts somewhere. -/
theorem exists_last_string (h : Outside t) (hquote : Zone.isQuote quote = true)
    (hlast : t.getLast? = some quote) :
    ∃ middle body, Outside middle ∧ StringBody quote body ∧
      t = middle ++ quote :: (body ++ [quote]) := by
  induction h with
  | nil => cases hlast
  | @char c t hc hopen ht ih =>
    rcases t with _ | ⟨next, t⟩
    · obtain rfl : c = quote := Option.some.inj hlast
      rw [hc] at hquote
      cases hquote
    · obtain ⟨middle, body, hmiddle, hbody, heq⟩ := ih (by rwa [List.getLast?_cons_cons] at hlast)
      refine ⟨c :: middle, body, .char hc (fun hslash => ?_) hmiddle, hbody, by rw [heq]; rfl⟩
      have hnext := hopen hslash
      rw [heq] at hnext
      cases middle with
      | nil => simp
      | cons first middle => exact hnext
  | @string other body t hother hbody ht ih =>
    rcases t with _ | ⟨next, t⟩
    · have hsame : (other :: (body ++ [other])).getLast? = some other := by
        simp [List.getLast?_cons]
      obtain rfl := Option.some.inj (hsame.symm.trans hlast)
      exact ⟨[], body, .nil, hbody, rfl⟩
    · obtain ⟨middle, body', hmiddle, hbody', heq⟩ := ih (by simpa [List.getLast?_cons] using hlast)
      exact ⟨_, body', .string hother hbody hmiddle, hbody', by rw [heq]; simp⟩
  | @comment body t hbody ht ih =>
    rcases t with _ | ⟨next, t⟩
    · have hsame : ('/' :: '*' :: (body ++ ['*', '/'])).getLast? = some '/' := by
        simp [List.getLast?_cons]
      obtain rfl := Option.some.inj (hsame.symm.trans hlast)
      cases hquote
    · obtain ⟨middle, body', hmiddle, hbody', heq⟩ := ih (by simpa [List.getLast?_cons] using hlast)
      exact ⟨_, body', .comment hbody hmiddle, hbody', by rw [heq]; simp⟩

/-- **What runs on are two strings** with something between them, where all strings are closed. -/
theorem runsOn_iff_of_sealed (h : Sealed t) :
    RunsOn t ↔ ∃ quote first middle last, Zone.isQuote quote = true ∧ StringBody quote first ∧
    Outside middle ∧ StringBody quote last ∧
    t = quote :: (first ++ quote :: (middle ++ quote :: (last ++ [quote]))) := by
  constructor
  · rintro ⟨quote, inner, hquote, ⟨body, rest, rfl, hbody⟩, rfl⟩
    have hrest : Outside (rest ++ [quote]) := by
      have hcode := outside_iff.1 h.outside
      rw [List.append_assoc, List.cons_append, Zone.after_string hquote hbody] at hcode
      exact outside_iff.2 hcode
    obtain ⟨middle, last, hmiddle, hlast, heq⟩ := exists_last_string hrest hquote (by simp)
    exact ⟨quote, body, middle, last, hquote, hbody, hmiddle, hlast, by rw [← heq]; simp⟩
  · rintro ⟨quote, first, middle, last, hquote, hfirst, -, -, rfl⟩
    exact ⟨quote, _, hquote, ⟨first, middle ++ quote :: last, rfl, hfirst⟩, by simp⟩

end Import

/-! ## Resolving -/

namespace Compiler

open Import

/-- **An import is resolved by its form.** It is refused for its form exactly if it is neither a
literal nor runs on. What is between the first and the last quote is looked up in both cases, from
the directory of the stylesheet. In a source, a literal is a single string, and what runs on are two
strings with something between them. -/
theorem resolveImport_by_form (c : Compiler) (params : Text) (span : Span) :
    let form := trim params
    (∀ sheet text place, c.resolveImport params span = .error (.importForm sheet text place) ↔
      sheet = c.sheet ∧ text = form ∧ place = span.start ∧ ¬ IsLiteral form ∧ ¬ RunsOn form) ∧
    ¬ (IsLiteral form ∧ RunsOn form) ∧
    (∀ quote path, Zone.isQuote quote = true → path ≠ [] → form = quote :: (path ++ [quote]) →
      let target := c.sheet.directory.join (.ofText path)
      c.resolveImport params span =
        (c.lookup target).elim (.error (.importTarget c.sheet target span.start))
          fun found => .ok ⟨c.sheet, found, span⟩) ∧
    (Sealed form →
      (IsLiteral form ↔ ∃ quote body, Zone.isQuote quote = true ∧ body ≠ [] ∧
        StringBody quote body ∧ form = quote :: (body ++ [quote])) ∧
      (RunsOn form ↔ ∃ quote first middle last, Zone.isQuote quote = true ∧ StringBody quote first ∧
        Outside middle ∧ StringBody quote last ∧
        form = quote :: (first ++ quote :: (middle ++ quote :: (last ++ [quote]))))) := by
  intro form
  refine ⟨?_, fun h => h.2.not_isLiteral h.1, fun quote path hquote hne hform => ?_,
    fun h => ⟨isLiteral_iff_of_sealed h, runsOn_iff_of_sealed h⟩⟩
  · intro sheet text place
    rw [← quotedPath?_eq_none_iff, resolveImport]
    rcases quotedPath? params with _ | path
    · constructor
      · intro h
        cases h
        exact ⟨rfl, rfl, rfl, rfl⟩
      · rintro ⟨rfl, rfl, rfl, -⟩
        rfl
    · constructor
      · intro h
        dsimp only at h
        split at h <;> cases h
      · rintro ⟨-, -, -, h⟩
        cases h
  · rw [resolveImport, quotedPath?_eq_some_iff.2 ⟨quote, hquote, hne, hform⟩]
    dsimp only
    rcases c.lookup (c.sheet.directory.join (.ofText path)) with _ | found <;> rfl

/-- A compiler for the stylesheet `a` in a package that has `b` and `c`. -/
def ofPair : Compiler :=
  ⟨.absolute [['a']], fun target => [.absolute [['b']], .absolute [['c']]].find? (· == target),
    .standard⟩

/-- A single quoted path is a literal, and its target is found. -/
theorem resolveImport_by_form_single :
    Sealed (trim " 'b'".toList) ∧ IsLiteral (trim " 'b'".toList) ∧
      ofPair.resolveImport " 'b'".toList ⟨.start, .start⟩ =
        .ok ⟨.absolute [['a']], .absolute [['b']], ⟨.start, .start⟩⟩ := by
  obtain ⟨-, -, hlookup, hsealed⟩ := resolveImport_by_form ofPair " 'b'".toList ⟨.start, .start⟩
  have htrim : Sealed (trim " 'b'".toList) := ⟨_, rfl, rfl⟩
  have hbody : StringBody '\'' ['b'] := .char (by decide) (by decide) .nil
  exact ⟨htrim, (hsealed htrim).1.2 ⟨'\'', ['b'], rfl, by decide, hbody, rfl⟩,
    hlookup '\'' ['b'] rfl (by decide) rfl⟩

/-- Two quoted paths are no literal, but the import is not refused for its form. What is looked for,
and not found, is a single path with quotes in it. -/
theorem two_paths :
    ¬ IsLiteral (trim "'b' 'c'".toList) ∧
      ofPair.resolveImport "'b' 'c'".toList ⟨.start, .start⟩ =
        .error (.importTarget (.absolute [['a']]) (.absolute ["b' 'c".toList]) .start) := by
  refine ⟨RunsOn.not_isLiteral ⟨'\'', "b' 'c".toList, rfl, ⟨['b'], " 'c".toList, rfl, ?_⟩, rfl⟩,
    rfl⟩
  exact .char (by decide) (by decide) .nil

end Compiler

end MiniSheet
