import MiniSheet.Proofs.Scanning

/-!
# Strings and comments

A place lies in code exactly if the text in front of it is made of characters of code, whole strings
and whole comments (`Text.outside_iff`). This is a description of zones without zones: a string goes
from a quote to the next quote of its kind that no backslash takes with it, a comment goes to the
first `*/` behind its `/*`, and what does not end goes on for ever. The scanner goes by the same
rules (`Scanner.isCode_zone_iff`).
-/

namespace MiniSheet

namespace Text

/-- What may stand between two quotes. -/
inductive StringBody (quote : Char) : Text → Prop where
  /-- nothing -/
  | nil : StringBody quote []
  /-- a character that means itself -/
  | char {c : Char} {t : Text} (hquote : c ≠ quote) (hescape : c ≠ '\\') (ht : StringBody quote t) :
    StringBody quote (c :: t)
  /-- a backslash and the character that it takes with it -/
  | escape {c : Char} {t : Text} (ht : StringBody quote t) : StringBody quote ('\\' :: c :: t)

/-- What may stand between `/*` and `*/`. -/
inductive CommentBody : Text → Prop where
  /-- nothing -/
  | nil : CommentBody []
  /-- any character, unless it closes the comment with what stands behind it -/
  | char {c : Char} {t : Text} (hclose : c = '*' → t.head? ≠ some '/') (ht : CommentBody t) :
    CommentBody (c :: t)

/-- Behind the text there is code: all strings and comments in it are closed. -/
inductive Outside : Text → Prop where
  /-- code starts with code -/
  | nil : Outside []
  /-- a character that opens nothing -/
  | char {c : Char} {t : Text} (hquote : Zone.isQuote c = false)
    (hopen : c = '/' → t.head? ≠ some '*') (ht : Outside t) : Outside (c :: t)
  /-- a string -/
  | string {quote : Char} {body t : Text} (hquote : Zone.isQuote quote = true)
    (hbody : StringBody quote body) (ht : Outside t) : Outside (quote :: (body ++ quote :: t))
  /-- a comment -/
  | comment {body t : Text} (hbody : CommentBody body) (ht : Outside t) :
    Outside ('/' :: '*' :: (body ++ '*' :: '/' :: t))

end Text

open Text

/-! ## Depth along a text -/

namespace Depth

variable {d : Depth} {t : Text}

/-- The depth behind a text, whether a statement ends inside of it or not. -/
def after (d : Depth) (t : Text) : Depth := t.foldl step d

@[simp] theorem after_nil (d : Depth) : d.after [] = d := rfl

@[simp] theorem after_cons (d : Depth) (c : Char) (t : Text) :
    d.after (c :: t) = (d.step c).after t := rfl

@[simp] theorem after_append (d : Depth) (s t : Text) : d.after (s ++ t) = (d.after s).after t :=
  List.foldl_append ..

theorem zone_after (d : Depth) (t : Text) : (d.after t).zone = d.zone.after t := by
  induction t generalizing d with
  | nil => rfl
  | cons c t ih => exact ih (d.step c)

theorem after_of_run {d' : Depth} (h : d.run t = some d') : d.after t = d' := by
  induction t generalizing d with
  | nil => exact Option.some.inj h
  | cons c t ih =>
    rw [run_cons] at h
    split at h
    · cases h
    · exact ih h

theorem Proper.after (h : d.Proper) (t : Text) : (d.after t).Proper := by
  induction t generalizing d with
  | nil => exact h
  | cons c t ih => exact ih (h.step c)

end Depth

namespace Zone

variable {zone : Zone} {c q : Char} {t body : Text}

/-! ## Strings and comments are skipped -/

theorem after_stringBody (h : StringBody q body) : (quoted q).after body = quoted q := by
  induction h with
  | nil => rfl
  | char hquote hescape ht ih =>
    rw [after_cons, step, if_neg (by simpa using hescape), if_neg (by simpa using hquote), ih]
  | escape ht ih => exact ih

theorem ne_backslash_of_isQuote (h : isQuote q = true) : q ≠ '\\' := by
  rintro rfl
  cases h

/-- A string ends with its quote. -/
theorem step_quoted (hq : isQuote q = true) : (quoted q).step q = code := by
  rw [step, if_neg (by simpa using ne_backslash_of_isQuote hq), if_pos (beq_self_eq_true q)]

/-- Behind a string there is code. -/
theorem after_string (hq : isQuote q = true) (hbody : StringBody q body) (t : Text) :
    code.after (q :: (body ++ q :: t)) = code.after t := by
  rw [after_cons, step, enter, if_pos hq, after_append, after_stringBody hbody, after_cons,
    step_quoted hq]

/-- A slash matters only in front of a star. -/
theorem after_slash (h : t.head? ≠ some '*') : (slash.after t).isCode = (code.after t).isCode := by
  cases t with
  | nil => rfl
  | cons c t =>
    have hstep : slash.step c = code.step c := if_neg (by simpa using h)
    rw [after_cons, after_cons, hstep]

/-- In a comment, a star matters only in front of a slash. -/
theorem after_star (h : t.head? ≠ some '/') : (star.after t).isCode = (comment.after t).isCode := by
  cases t with
  | nil => rfl
  | cons c t =>
    have hstep : star.step c = comment.step c := if_neg (by simpa using h)
    rw [after_cons, after_cons, hstep]

theorem after_commentBody (h : CommentBody body) (t : Text) :
    (comment.after (body ++ '*' :: '/' :: t)).isCode = (code.after t).isCode := by
  induction h with
  | nil => rfl
  | @char c body hclose ht ih =>
    rw [List.cons_append, after_cons, step]
    split
    · rename_i hstar
      -- the comment goes on behind this star
      have hnext : (body ++ '*' :: '/' :: t).head? ≠ some '/' := by
        cases body with
        | nil => simp
        | cons next body => exact hclose (beq_iff_eq.1 hstar)
      rw [after_star hnext, ih]
    · exact ih

theorem isCode_after_of_outside (h : Outside t) : (code.after t).isCode = true := by
  induction h with
  | nil => rfl
  | @char c t hquote hopen ht ih =>
    rw [after_cons, step, enter, if_neg (by rw [hquote]; exact Bool.false_ne_true)]
    split
    · rename_i hslash
      rw [after_slash (hopen (beq_iff_eq.1 hslash))]
      exact ih
    · exact ih
  | @string quote body t hquote hbody ht ih =>
    rw [after_string hquote hbody]
    exact ih
  | comment hbody ht ih => exact (after_commentBody hbody _).trans ih

/-! ## What is left was closed -/

/-- A string that is left was closed with its quote. -/
theorem exists_stringBody (h : ((quoted q).after t).isCode = true) :
    ∃ body rest, t = body ++ q :: rest ∧ StringBody q body ∧ (code.after rest).isCode = true := by
  -- a backslash takes two characters at once
  induction hlength : t.length using Nat.strongRecOn generalizing t with
  | ind length ih =>
    rcases t with _ | ⟨c, t⟩
    · cases h
    · rw [after_cons, step] at h
      split at h
      · rename_i hescape
        obtain rfl := beq_iff_eq.1 hescape
        rcases t with _ | ⟨next, t⟩
        · cases h
        · obtain ⟨body, rest, rfl, hbody, hrest⟩ :=
            ih t.length (by simp only [← hlength, List.length_cons]; omega) h rfl
          exact ⟨_, rest, rfl, .escape hbody, hrest⟩
      · rename_i hescape
        split at h
        · rename_i hquote
          obtain rfl := beq_iff_eq.1 hquote
          exact ⟨[], t, rfl, .nil, h⟩
        · rename_i hquote
          obtain ⟨body, rest, rfl, hbody, hrest⟩ := ih t.length (by simp [← hlength]) h rfl
          exact ⟨c :: body, rest, rfl, .char (by simpa using hquote) (by simpa using hescape) hbody,
            hrest⟩

/-- A comment that is left was closed with a star and a slash. -/
theorem exists_commentBody (h : (comment.after t).isCode = true) :
    ∃ body rest, t = body ++ '*' :: '/' :: rest ∧ CommentBody body ∧
      (code.after rest).isCode = true := by
  induction t with
  | nil => cases h
  | cons c t ih =>
    by_cases hclose : c = '*' ∧ t.head? = some '/'
    · obtain ⟨rfl, hslash⟩ := hclose
      obtain ⟨rest, rfl⟩ := List.head?_eq_some_iff.1 hslash
      exact ⟨[], rest, rfl, .nil, h⟩
    · have hgo : (comment.after t).isCode = true := by
        rw [after_cons, step] at h
        split at h
        · rename_i hstar
          rwa [after_star fun hslash => hclose ⟨beq_iff_eq.1 hstar, hslash⟩] at h
        · exact h
      obtain ⟨body, rest, rfl, hbody, hrest⟩ := ih hgo
      refine ⟨c :: body, rest, rfl, .char (fun hstar hslash => hclose ⟨hstar, ?_⟩) hbody, hrest⟩
      rw [List.head?_append, hslash]
      rfl

theorem outside_of_isCode_after (h : (code.after t).isCode = true) : Outside t := by
  -- strings and comments are taken off the front at once
  induction hlength : t.length using Nat.strongRecOn generalizing t with
  | ind length ih =>
    rcases t with _ | ⟨c, t⟩
    · exact .nil
    · rw [after_cons, step, enter] at h
      split at h
      · rename_i hquote
        obtain ⟨body, rest, rfl, hbody, hrest⟩ := exists_stringBody h
        exact .string hquote hbody
          (ih rest.length (by simp only [← hlength, List.length_cons, List.length_append]; omega)
            hrest rfl)
      · rename_i hquote
        have hquote : isQuote c = false := Bool.eq_false_iff.2 hquote
        split at h
        · rename_i hslash
          obtain rfl := beq_iff_eq.1 hslash
          by_cases hstar : t.head? = some '*'
          · obtain ⟨t, rfl⟩ := List.head?_eq_some_iff.1 hstar
            obtain ⟨body, rest, rfl, hbody, hrest⟩ := exists_commentBody h
            have hless : rest.length < length := by
              simp only [← hlength, List.length_cons, List.length_append]
              omega
            exact .comment hbody (ih rest.length hless hrest rfl)
          · rw [after_slash hstar] at h
            exact .char hquote (fun _ => hstar) (ih t.length (by simp [← hlength]) h rfl)
        · rename_i hslash
          exact .char hquote (fun hc => absurd hc (by simpa using hslash))
            (ih t.length (by simp [← hlength]) h rfl)

/-! ## Plain characters -/

/-- Behind plain text in code there is code. -/
theorem after_of_isPlain (hcode : zone.isCode = true) (ht : ∀ c ∈ t, isPlain c = true)
    (hne : t ≠ []) : zone.after t = code := by
  induction t generalizing zone with
  | nil => exact absurd rfl hne
  | cons c t ih =>
    rw [after_cons, step_of_isPlain hcode (ht c List.mem_cons_self)]
    rcases t with _ | ⟨next, t⟩
    · rfl
    · exact ih rfl (fun other hmem => ht other (List.mem_cons_of_mem _ hmem)) (List.cons_ne_nil _ _)

/-- Strings are open only with a quote. -/
theorem isQuote_of_after (h : code.after t = quoted q) : isQuote q = true := by
  refine (Depth.proper_start.after t).quoted q ?_
  rw [Depth.zone_after]
  exact h

end Zone

/-- **Code is what is outside of strings and comments.** -/
theorem Text.outside_iff {t : Text} : Outside t ↔ (Zone.code.after t).isCode = true :=
  ⟨Zone.isCode_after_of_outside, Zone.outside_of_isCode_after⟩

/-- The scanner is outside of strings and comments at the same places. -/
theorem Scanner.isCode_zone_iff (here : Position) (t : Text) :
    (t.foldl Scanner.step (Scanner.start here)).zone.isCode = true ↔ Outside t := by
  have hzone : ∀ (t : Text) (s : Scanner), (t.foldl Scanner.step s).zone = s.zone.after t := by
    intro t
    induction t with
    | nil => exact fun _ => rfl
    | cons c t ih => exact fun s => ih (s.step c)
  rw [hzone, outside_iff]
  rfl

/-- In a sealed text all strings and comments are closed. -/
theorem Sealed.outside {t : Text} (h : Sealed t) : Outside t := by
  obtain ⟨d, hrun, hfree⟩ := h
  have hcode := (Bool.and_eq_true_iff.1 hfree).1
  rw [← Depth.after_of_run hrun, Depth.zone_after] at hcode
  exact outside_iff.2 hcode

/-- A plain character closes nothing. -/
theorem Text.Outside.of_concat {t : Text} {c : Char} (h : Outside (t ++ [c]))
    (hc : isPlain c = true) : Outside t := by
  rw [outside_iff, Zone.after_append] at h
  exact outside_iff.2
    (Zone.isCode_of_step (fun _ => Zone.isQuote_of_after) (isQuote_of_isPlain hc)
      (ne_of_isPlain hc rfl) h)

end MiniSheet
