import Mathlib.Data.List.Induction
import MiniSheet.Proofs.Zones

/-!
# Shielded parts

Some parts of a statement mean something only as a whole: strings, comments and what stands in
square brackets (`Shielded`). They can be told from the text alone. A place lies inside of such a
part exactly if the scanner is in a string or a comment there, or has a square bracket open
(`Depth.isShielded`): inside of a part it is, but for the place behind the slash that opens a
comment (`Shielded.isShielded`), and a place where it is lies inside of a part, provided that the
statement leaves nothing open (`exists_shielded`). What is open at a place can be closed there
(`Depth.isFree_after_closing`).
-/

namespace MiniSheet

open Text

namespace Zone

variable {zone : Zone} {c q : Char} {s t back body : Text}

/-! ## Inside of strings and comments -/

theorem isCode_after_stringBody (h : StringBody q body) (hs : s <+: body) :
    ((quoted q).after s).isCode = false := by
  induction h generalizing s with
  | nil =>
    rw [List.prefix_nil.1 hs]
    rfl
  | @char c body hquote hescape hbody ih =>
    rcases s with _ | ⟨first, s⟩
    · rfl
    · obtain ⟨rfl, hrest⟩ := List.cons_prefix_cons.1 hs
      rw [after_cons, step, if_neg (by simpa using hescape), if_neg (by simpa using hquote)]
      exact ih hrest
  | @escape c body hbody ih =>
    rcases s with _ | ⟨first, _ | ⟨second, s⟩⟩
    · rfl
    · obtain ⟨rfl, -⟩ := List.cons_prefix_cons.1 hs
      rfl
    · obtain ⟨rfl, hrest⟩ := List.cons_prefix_cons.1 hs
      change ((quoted q).after s).isCode = false
      exact ih (List.cons_prefix_cons.1 hrest).2

theorem isCode_after_commentBody (h : CommentBody body) (hs : s <+: body ++ ['*']) :
    (comment.after s).isCode = false := by
  induction h generalizing s with
  | nil =>
    rcases s with _ | ⟨first, s⟩
    · rfl
    · obtain ⟨rfl, hrest⟩ := List.cons_prefix_cons.1 hs
      rw [List.prefix_nil.1 hrest]
      rfl
  | @char c body hclose hbody ih =>
    rcases s with _ | ⟨first, s⟩
    · rfl
    · obtain ⟨rfl, hrest⟩ := List.cons_prefix_cons.1 hs
      rw [after_cons, step]
      split
      · rename_i hstar
        have hnext : s.head? ≠ some '/' := by
          intro hslash
          obtain ⟨s, rfl⟩ := List.head?_eq_some_iff.1 hslash
          cases body with
          | nil => cases (List.cons_prefix_cons.1 hrest).1
          | cons next body =>
            exact hclose (beq_iff_eq.1 hstar) (congrArg some (List.cons_prefix_cons.1 hrest).1.symm)
        rw [after_star hnext]
        exact ih hrest
      · exact ih hrest

theorem step_of_isQuote (hcode : zone.isCode = true) (hq : isQuote q = true) :
    zone.step q = quoted q := by
  have hstar : ¬ (q == '*') = true := by
    intro h
    rw [beq_iff_eq.1 h] at hq
    cases hq
  cases zone with
  | code => exact if_pos hq
  | slash => rw [step, if_neg hstar, enter, if_pos hq]
  | quoted | escaped | comment | star => cases hcode

theorem exists_of_after_eq_slash (h : code.after t = slash) :
    ∃ front, t = front ++ ['/'] ∧ Outside front := by
  induction t using List.reverseRecOn with
  | nil => cases h
  | append_singleton front c =>
    rw [after_append, after_cons, after_nil] at h
    have hlast : (code.after front).isCode = true ∧ c = '/' := by
      cases hzone : code.after front <;> rw [hzone] at h <;> grind [step, enter, isCode]
    exact ⟨front, by rw [hlast.2], outside_iff.2 hlast.1⟩

/-- How strings and comments open, and the zone behind that. -/
inductive Opener : Text → Zone → Prop where
  /-- a quote opens a string -/
  | string {q : Char} (hq : isQuote q = true) : Opener [q] (quoted q)
  /-- a slash and a star open a comment -/
  | comment : Opener ['/', '*'] comment

theorem after_opener {opener : Text} (h : Opener opener zone) (ht : Outside t) :
    code.after (t ++ opener) = zone := by
  have hcode := outside_iff.1 ht
  rw [after_append]
  cases h with
  | string hq => exact step_of_isQuote hcode hq
  | comment =>
    cases hzone : code.after t with
    | code | slash => rfl
    | quoted | escaped | comment | star =>
      rw [hzone] at hcode
      cases hcode

theorem exists_opener_of_step (hcode : (code.after t).isCode = true)
    (h : ((code.after t).step c).isCode = false) :
    ∃ front opener inside, t ++ [c] = front ++ opener ∧ Outside front ∧ Opener opener inside := by
  by_cases hq : isQuote c = true
  · exact ⟨t, [c], quoted c, rfl, outside_iff.2 hcode, .string hq⟩
  · have hcomment : code.after t = slash ∧ c = '*' := by
      cases hzone : code.after t <;> rw [hzone] at h hcode <;> grind [step, enter, isCode]
    obtain ⟨front, rfl, hfront⟩ := exists_of_after_eq_slash hcomment.1
    obtain rfl := hcomment.2
    exact ⟨front, ['/', '*'], Zone.comment, List.append_assoc .., hfront, .comment⟩

/-- Where there is no code, a string or a comment has been opened and not been left since. -/
theorem exists_opener (h : (code.after t).isCode = false) :
    ∃ front opener inside s, t = front ++ (opener ++ s) ∧ Outside front ∧ Opener opener inside ∧
      ∀ u, u <+: s → (inside.after u).isCode = false := by
  induction t using List.reverseRecOn with
  | nil => cases h
  | append_singleton t c ih =>
    by_cases hcode : (code.after t).isCode = true
    · rw [after_append] at h
      obtain ⟨front, opener, inside, ht, hfront, hopener⟩ := exists_opener_of_step hcode h
      refine ⟨front, opener, inside, [], by rw [ht, List.append_nil], hfront, hopener,
        fun u hu => ?_⟩
      rw [List.prefix_nil.1 hu, after_nil, ← after_opener hopener hfront, ← ht, after_append]
      exact h
    · obtain ⟨front, opener, inside, s, rfl, hfront, hopener, hinside⟩ :=
        ih (Bool.eq_false_iff.2 hcode)
      refine ⟨front, opener, inside, s ++ [c], by simp only [List.append_assoc], hfront, hopener,
        fun u hu => ?_⟩
      rcases List.prefix_concat_iff.1 hu with rfl | hu
      · rw [← after_opener hopener hfront, ← after_append]
        simpa only [List.append_assoc] using h
      · exact hinside u hu

end Zone

/-! ## Parts -/

namespace Depth

variable {d : Depth} {c : Char} {s t : Text}

theorem isFree_after_of_sealed (h : Sealed t) : (start.after t).isFree = true := by
  obtain ⟨d, hrun, hfree⟩ := h
  rw [after_of_run hrun]
  exact hfree

theorem isCode_zone_after : (start.after t).zone.isCode = true ↔ Outside t := by
  rw [zone_after, outside_iff]
  rfl

/-- Whether the place lies in a string, a comment or square brackets. -/
def isShielded (d : Depth) : Bool := !d.zone.isCode || d.closers.contains ']'

theorem isShielded_of_zone (h : d.zone.isCode = false) : d.isShielded = true := by
  rw [isShielded, h]
  rfl

theorem isShielded_eq_false_iff :
    d.isShielded = false ↔ d.zone.isCode = true ∧ ']' ∉ d.closers := by
  simp [isShielded]

end Depth

/-- What may stand between two square brackets: nothing closes the first one before the second one
does. -/
def Unclosed (t : Text) : Prop := ∀ s, s ++ [']'] <+: t → (Depth.start.after s).isFree = false

/-- The parts of a statement that mean something as a whole, and the text in front of them. -/
inductive Shielded (front : Text) : Text → Prop where
  /-- a string -/
  | string {quote : Char} {body : Text} (hfront : Outside front)
    (hquote : Zone.isQuote quote = true)
    (hbody : StringBody quote body) : Shielded front (quote :: (body ++ [quote]))
  /-- a comment -/
  | comment {body : Text} (hfront : Outside front) (hbody : CommentBody body) :
    Shielded front ('/' :: '*' :: (body ++ ['*', '/']))
  /-- square brackets with all that stands between them -/
  | group {inner : Text} (hfront : Outside front) (hopen : Unclosed inner)
    (hinner : (Depth.start.after inner).isFree = true) : Shielded front ('[' :: (inner ++ [']']))

/-! ## Square brackets -/

section Brackets

open Depth

variable {c : Char} {front s t back : Text} {own outer : List Char}

theorem unclosed_nil : Unclosed [] := fun s hs => absurd (List.prefix_nil.1 hs) (by simp)

theorem unclosed_concat_iff :
    Unclosed (t ++ [c]) ↔ Unclosed t ∧ (c = ']' → (start.after t).isFree = false) := by
  constructor
  · intro h
    refine ⟨fun s hs => h s (hs.trans (List.prefix_append ..)), ?_⟩
    rintro rfl
    exact h t List.prefix_rfl
  · rintro ⟨h, hlast⟩ s hs
    rcases List.prefix_concat_iff.1 hs with heq | hs
    · obtain ⟨rfl, hc⟩ := List.append_inj' heq rfl
      exact hlast (List.cons.inj hc).1.symm
    · exact h s hs

theorem nest_append (h : ¬ (own = [] ∧ c = ']')) :
    nest (own ++ ']' :: outer) c = nest own c ++ ']' :: outer := by
  rw [nest, nest]
  cases Bracket.closer? c with
  | some closer => rfl
  | none =>
    cases own with
    | nil =>
      have hne : ¬ (some ']' == some c) = true := by
        intro heq
        exact h ⟨rfl, (Option.some.inj (beq_iff_eq.1 heq)).symm⟩
      exact if_neg hne
    | cons innermost own => exact (apply_ite (· ++ ']' :: outer) ..).symm

/-- While a square bracket is open, what stands behind it nests as it does on its own. -/
theorem after_bracket (hfront : Outside front) (ht : Unclosed t) : start.after (front ++ '[' :: t) =
    ⟨(start.after t).zone, (start.after t).closers ++ ']' :: (start.after front).closers⟩ := by
  have hcode : (start.after front).zone.isCode = true := isCode_zone_after.2 hfront
  have hopen : (start.after front).step '[' = ⟨.code, ']' :: (start.after front).closers⟩ := by
    rw [step, if_pos hcode]
    cases hzone : (start.after front).zone with
    | code | slash => rfl
    | quoted | escaped | comment | star =>
      rw [hzone] at hcode
      cases hcode
  rw [Depth.after_append, Depth.after_cons, hopen]
  induction t using List.reverseRecOn with
  | nil => rfl
  | append_singleton t c ih =>
    obtain ⟨ht, hlast⟩ := unclosed_concat_iff.1 ht
    have hgoes : (start.after t).zone.isCode = true →
        ¬ ((start.after t).closers = [] ∧ c = ']') := by
      rintro hzone ⟨hclosers, hc⟩
      have hfree := hlast hc
      rw [isFree, hzone, hclosers] at hfree
      cases hfree
    rw [Depth.after_append, ih ht, Depth.after_append, Depth.after_cons, Depth.after_cons,
      Depth.after_nil, Depth.after_nil, step, step]
    split
    · rename_i hzone
      rw [nest_append (hgoes hzone)]
    · rfl

theorem eq_of_closer?_eq_square (h : Bracket.closer? c = some ']') : c = '[' := by
  rw [Bracket.closer?.eq_def] at h
  split at h <;> cases h
  rfl

/-- An open square bracket was open before, or it is the last character. -/
theorem closers_of_step {d : Depth} (h : (d.step c).closers = own ++ ']' :: outer) :
    (d.zone.isCode = true ∧ c = '[' ∧ d.closers = outer) ∨
      ∃ own, d.closers = own ++ ']' :: outer ∧ ¬ (d.zone.isCode = true ∧ own = [] ∧ c = ']') := by
  rw [step] at h
  split at h
  · rename_i hcode
    rw [nest] at h
    split at h
    · rename_i closer hcloser
      rcases own with _ | ⟨innermost, own⟩
      · obtain ⟨rfl, houter⟩ := List.cons.inj h
        exact .inl ⟨hcode, eq_of_closer?_eq_square hcloser, houter⟩
      · refine .inr ⟨own, (List.cons.inj h).2, ?_⟩
        rintro ⟨-, -, rfl⟩
        cases hcloser
    · split at h
      · rename_i hinnermost
        obtain ⟨closers, hclosers⟩ := List.head?_eq_some_iff.1 (beq_iff_eq.1 hinnermost)
        rw [hclosers] at h ⊢
        exact .inr ⟨c :: own, congrArg (c :: ·) h, by simp⟩
      · rename_i hinnermost
        refine .inr ⟨own, h, ?_⟩
        rintro ⟨-, rfl, rfl⟩
        exact hinnermost (by rw [h]; rfl)
  · rename_i hcode
    exact .inr ⟨own, h, fun hclose => hcode hclose.1⟩

/-- Where a square bracket is open it has been opened. -/
theorem exists_bracket (h : (start.after t).closers = own ++ ']' :: outer) :
    ∃ front s, t = front ++ '[' :: s ∧ Outside front ∧ (start.after front).closers = outer ∧
      Unclosed s := by
  induction t using List.reverseRecOn generalizing own outer with
  | nil => simp [start] at h
  | append_singleton t c ih =>
    rw [Depth.after_append] at h
    rcases closers_of_step h with ⟨hcode, rfl, houter⟩ | ⟨before, hbefore, hgoes⟩
    · exact ⟨t, [], rfl, isCode_zone_after.1 hcode, houter, unclosed_nil⟩
    · obtain ⟨front, s, rfl, hfront, houter, hs⟩ := ih hbefore
      refine ⟨front, s ++ [c], by simp, hfront, houter, unclosed_concat_iff.2 ⟨hs, fun hc => ?_⟩⟩
      rw [after_bracket hfront hs, houter] at hbefore hgoes
      have hown : (start.after s).closers = before := List.append_cancel_right hbefore
      rw [Bool.eq_false_iff]
      intro hfree
      obtain ⟨hcode, hempty⟩ := Bool.and_eq_true_iff.1 hfree
      exact hgoes ⟨hcode, hown ▸ List.isEmpty_iff.1 hempty, hc⟩

/-- A square bracket that is closed at last is closed somewhere. -/
theorem exists_close (hs : Unclosed s) (h : ¬ Unclosed (s ++ back)) :
    ∃ u v, back = u ++ ']' :: v ∧ Unclosed (s ++ u) ∧ (start.after (s ++ u)).isFree = true := by
  induction back generalizing s with
  | nil =>
    rw [List.append_nil] at h
    exact absurd hs h
  | cons c back ih =>
    by_cases hclose : c = ']' ∧ (start.after s).isFree = true
    · obtain ⟨rfl, hfree⟩ := hclose
      rw [← List.append_nil s] at hs hfree
      exact ⟨[], back, rfl, hs, hfree⟩
    · have hgo : Unclosed (s ++ [c]) :=
        unclosed_concat_iff.2 ⟨hs, fun hc => Bool.eq_false_iff.2 fun hfree => hclose ⟨hc, hfree⟩⟩
      rw [List.append_cons] at h
      obtain ⟨u, v, rfl, hu, hfree⟩ := ih hgo h
      rw [← List.append_cons] at hu hfree
      exact ⟨c :: u, v, rfl, hu, hfree⟩

end Brackets

/-! ## Places inside of parts -/

open Depth

theorem Zone.after_behind_opener {front opener s : Text} {inside : Zone}
    (hopener : Opener opener inside) (hfront : Outside front) :
    (start.after (front ++ (opener ++ s))).zone = inside.after s := by
  rw [zone_after, ← List.append_assoc, Zone.after_append]
  exact congrArg (Zone.after · s) (after_opener hopener hfront)

/-- Inside of a shielded part, all places are shielded but the one in the middle of `/*`. -/
theorem Shielded.isShielded {front part s t : Text} {c : Char} (h : Shielded front part)
    (hpart : part = s ++ c :: t) (hne : s ≠ []) (hc : c ≠ '*') :
    (start.after (front ++ s)).isShielded = true := by
  have hinner {s body : Text} {last : Char} (heq : body ++ [last] = s ++ c :: t) : s <+: body := by
    rcases List.prefix_concat_iff.1 ⟨c :: t, heq.symm⟩ with rfl | hs
    · simp at heq
    · exact hs
  obtain ⟨first, s, rfl⟩ := List.exists_cons_of_ne_nil hne
  cases h with
  | string hfront hquote hbody =>
    obtain ⟨rfl, heq⟩ := List.cons.inj hpart
    refine isShielded_of_zone ?_
    rw [← List.singleton_append, Zone.after_behind_opener (.string hquote) hfront]
    exact Zone.isCode_after_stringBody hbody (hinner heq)
  | comment hfront hbody =>
    obtain ⟨rfl, heq⟩ := List.cons.inj hpart
    rcases s with _ | ⟨second, s⟩
    · exact absurd (List.cons.inj heq).1.symm hc
    · obtain ⟨rfl, hrest⟩ := List.cons.inj heq
      rw [List.append_cons] at hrest
      have hzone := Zone.after_behind_opener (s := s) .comment hfront
      refine isShielded_of_zone ?_
      change (start.after (front ++ (['/', '*'] ++ s))).zone.isCode = false
      rw [hzone]
      exact Zone.isCode_after_commentBody hbody (hinner hrest)
  | group hfront hopen hfree =>
    obtain ⟨rfl, heq⟩ := List.cons.inj hpart
    have hs : Unclosed s := fun u hu => hopen u (hu.trans (hinner heq))
    rw [after_bracket hfront hs, Depth.isShielded]
    simp

/-- What opens is closed, unless the text ends before. -/
theorem Zone.exists_closing {opener t : Text} {inside : Zone} (hopener : Opener opener inside)
    (h : (inside.after t).isCode = true) :
    ∃ part rest, t = part ++ rest ∧ (inside.after part).isCode = true ∧
      ∀ front, Outside front → Shielded front (opener ++ part) := by
  cases hopener with
  | @string q hq =>
    obtain ⟨body, rest, rfl, hbody, -⟩ := exists_stringBody h
    refine ⟨body ++ [q], rest, List.append_cons .., ?_, fun front hfront => .string hfront hq hbody⟩
    rw [Zone.after_append, after_stringBody hbody, Zone.after_cons, step_quoted hq]
    rfl
  | comment =>
    obtain ⟨body, rest, rfl, hbody, -⟩ := exists_commentBody h
    refine ⟨body ++ ['*', '/'], rest, by simp, ?_, fun front hfront => .comment hfront hbody⟩
    rw [after_commentBody hbody]
    rfl

/-- A shielded place lies inside of a shielded part, if the part is closed behind it. -/
theorem exists_shielded {front back : Text} (h : (start.after front).isShielded = true)
    (hfree : (start.after (front ++ back)).isFree = true) :
    ∃ before s t behind, front = before ++ s ∧ back = t ++ behind ∧ s ≠ [] ∧ t ≠ [] ∧
      Shielded before (s ++ t) := by
  obtain ⟨hcode, hclosers⟩ := Bool.and_eq_true_iff.1 hfree
  cases hzone : (start.after front).zone.isCode with
  | false =>
    rw [zone_after] at hzone
    obtain ⟨before, opener, inside, s, rfl, hbefore, hopener, hinside⟩ := Zone.exists_opener hzone
    rw [List.append_assoc, List.append_assoc, Zone.after_behind_opener hopener hbefore] at hcode
    obtain ⟨part, rest, heq, hpart, hshielded⟩ := Zone.exists_closing hopener hcode
    -- the part is left behind its end, and the place does not lie behind that
    have hinner : ¬ part <+: s :=
      fun hle => Bool.false_ne_true ((hinside part hle).symm.trans hpart)
    rcases List.append_eq_append_iff.1 heq with ⟨t, rfl, rfl⟩ | ⟨t, rfl, -⟩
    · have ht : t ≠ [] := by
        rintro rfl
        rw [List.append_nil] at hinner
        exact hinner List.prefix_rfl
      have hopener : opener ≠ [] := by cases hopener <;> simp
      refine ⟨before, opener ++ s, t, rest, rfl, rfl, by simp [hopener], ht, ?_⟩
      rw [List.append_assoc]
      exact hshielded before hbefore
    · exact absurd (List.prefix_append ..) hinner
  | true =>
    have hmem : ']' ∈ (start.after front).closers := by
      rw [isShielded, hzone] at h
      exact List.contains_iff_mem.1 h
    obtain ⟨own, outer, hsplit⟩ := List.append_of_mem hmem
    obtain ⟨before, s, rfl, hbefore, -, hs⟩ := exists_bracket hsplit
    have hclosed : ¬ Unclosed (s ++ back) := by
      intro hopen
      rw [List.append_assoc, List.cons_append, after_bracket hbefore hopen] at hclosers
      simp at hclosers
    obtain ⟨t, behind, rfl, ht, hinner⟩ := exists_close hs hclosed
    have hpart := Shielded.group hbefore ht hinner
    rw [List.append_assoc] at hpart
    exact ⟨before, '[' :: s, t ++ [']'], behind, rfl, List.append_cons .., by simp, by simp, hpart⟩

/-! ## One more character -/

namespace Depth

variable {d : Depth} {c : Char}

theorem notMem_nest {closers : List Char} (h : ']' ∉ closers) (hc : c ≠ '[') :
    ']' ∉ nest closers c := by
  rw [nest]
  split
  · rename_i closer hcloser
    intro hmem
    rcases List.mem_cons.1 hmem with rfl | hmem
    · exact hc (eq_of_closer?_eq_square hcloser)
    · exact h hmem
  · split
    · exact fun hmem => h (List.mem_of_mem_tail hmem)
    · exact h

/-- Only a quote, a square bracket or the star of `/*` opens a shielded part. -/
theorem isShielded_step (h : d.isShielded = false) (hquote : Zone.isQuote c = false)
    (hsquare : c ≠ '[') (hcomment : (d.zone == .slash && c == '*') = false) :
    (d.step c).isShielded = false := by
  obtain ⟨hcode, hclosers⟩ := isShielded_eq_false_iff.1 h
  refine isShielded_eq_false_iff.2 ⟨?_, ?_⟩
  · change (d.zone.step c).isCode = true
    cases hzone : d.zone <;> rw [hzone] at hcode hcomment <;>
      grind [Zone.step, Zone.enter, Zone.isCode]
  · rw [step, if_pos hcode]
    exact notMem_nest hclosers hsquare

/-- A plain character closes no shielded part. -/
theorem isShielded_step_of_isPlain (h : d.Proper) (hshield : d.isShielded = true)
    (hc : isPlain c = true) : (d.step c).isShielded = true := by
  cases hcode : d.zone.isCode with
  | true =>
    rw [step_of_isPlain h hcode hc]
    rw [isShielded, hcode] at hshield
    exact hshield
  | false =>
    refine isShielded_of_zone (Bool.eq_false_iff.2 fun hstep => ?_)
    have hbefore :=
      Zone.isCode_of_step h.quoted (isQuote_of_isPlain hc) (ne_of_isPlain hc rfl) hstep
    rw [hcode] at hbefore
    cases hbefore

end Depth

/-! ## Closing what is open -/

/-- A text that leads out of a zone. -/
def Zone.closing : Zone → Text
  | code | slash => []
  | quoted q => [q]
  | escaped q => [q, q]
  | comment => ['*', '/']
  | star => ['/']

namespace Depth

variable {d : Depth} {t : Text}

/-- A text that closes all that is open. -/
def closing (d : Depth) : Text := d.zone.closing ++ d.closers

theorem run_of_isTerminator (h : ∀ c ∈ t, Scanner.isTerminator c = false) :
    d.run t = some (d.after t) := by
  induction t generalizing d with
  | nil => rfl
  | cons c t ih =>
    rw [run_cons, h c List.mem_cons_self]
    exact ih fun other hmem => h other (List.mem_cons_of_mem _ hmem)

/-- What closes something is no blank and ends no statement. -/
theorem closing_spec (h : d.Proper) :
    ∀ c ∈ d.closing, isBlank c = false ∧ Scanner.isTerminator c = false := by
  have hquote {q : Char} (hq : Zone.isQuote q = true) : isBlank q = false ∧
      Scanner.isTerminator q = false := by
    rcases Bool.or_eq_true_iff.1 hq with hq | hq <;> rw [beq_iff_eq.1 hq] <;> decide +kernel
  intro c hc
  rcases List.mem_append.1 hc with hc | hc
  · cases hzone : d.zone <;>
      simp only [hzone, Zone.closing, List.mem_cons, List.not_mem_nil, or_false, or_self] at hc
    · exact hc ▸ hquote (h.quoted _ hzone)
    · exact hc ▸ hquote (h.escaped _ hzone)
    · rcases hc with rfl | rfl <;> decide +kernel
    · rw [hc]
      decide +kernel
  · rcases h.closer c hc with rfl | rfl <;> decide +kernel

theorem isFree_after_closers {zone : Zone} {closers : List Char} (hcode : zone.isCode = true)
    (h : ∀ c ∈ closers, c = ')' ∨ c = ']') :
    ((⟨zone, closers⟩ : Depth).after closers).isFree = true := by
  induction closers generalizing zone with
  | nil => rw [Depth.after_nil, isFree, hcode, List.isEmpty_nil, Bool.and_self]
  | cons c closers ih =>
    have hclose : Bracket.closer? c = none ∧ (zone.step c).isCode = true := by
      rcases h c List.mem_cons_self with
        rfl | rfl <;> cases zone <;> first | exact ⟨rfl, rfl⟩ | cases hcode
    have hstep : (⟨zone, c :: closers⟩ : Depth).step c = ⟨zone.step c, closers⟩ := by
      rw [step, if_pos hcode, nest, hclose.1]
      simp
    rw [Depth.after_cons, hstep]
    exact ih hclose.2 fun other hmem => h other (List.mem_cons_of_mem _ hmem)

theorem isFree_after_closing (h : d.Proper) : (d.after d.closing).isFree = true := by
  have hzone : ∃ zone, d.after d.zone.closing = ⟨zone, d.closers⟩ ∧ zone.isCode = true := by
    obtain ⟨zone, closers⟩ := d
    cases zone with
    | code | slash => exact ⟨_, rfl, rfl⟩
    | comment | star => exact ⟨_, rfl, rfl⟩
    | quoted q => exact ⟨_, rfl, by rw [Zone.step_quoted (h.quoted q rfl)]; rfl⟩
    | escaped q => exact ⟨_, rfl, congrArg Zone.isCode (Zone.step_quoted (h.escaped q rfl))⟩
  obtain ⟨zone, hafter, hcode⟩ := hzone
  rw [closing, Depth.after_append, hafter]
  exact isFree_after_closers hcode h.closer

theorem closing_ne_nil (h : d.isShielded = true) : d.closing ≠ [] := by
  intro hnil
  obtain ⟨hzone, hclosers⟩ := List.append_eq_nil_iff.1 hnil
  rw [isShielded, hclosers] at h
  cases hcode : d.zone with
  | code | slash =>
    rw [hcode] at h
    cases h
  | quoted | escaped | comment | star =>
    rw [hcode] at hzone
    exact List.cons_ne_nil _ _ hzone

end Depth

end MiniSheet
