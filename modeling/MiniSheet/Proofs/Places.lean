import Mathlib.Data.Prod.Lex
import MiniSheet.Source.Position

/-!
# The order of places

Places are ordered by line, and within a line by column. Reading only ever goes forward: the place
behind a text comes later than the place in front of it, unless the text is empty
(`Position.lt_advance`). So a span can be taken for the characters that lie in it (`Span.slice`),
and if it goes from one place of a source to a later one, these are the characters between the two
(`Span.slice_append`).
-/

namespace MiniSheet

namespace Position

theorem injective_toLex : Function.Injective fun p : Position => toLex (p.line, p.column) := by
  rintro ⟨line, column⟩ ⟨line', column'⟩ h
  obtain ⟨rfl, rfl⟩ := Prod.mk.inj (toLex.injective h)
  rfl

/-- Places are ordered by line, and within a line by column. -/
instance : LinearOrder Position :=
  LinearOrder.lift' (fun p : Position => toLex (p.line, p.column)) injective_toLex

variable {p q : Position} {t : Text}

theorem lt_iff : p < q ↔ p.line < q.line ∨ p.line = q.line ∧ p.column < q.column :=
  Prod.Lex.toLex_lt_toLex

theorem lt_step (p : Position) (c : Char) : p < p.step c := by
  rw [lt_iff, step]
  split
  · exact .inl (Nat.lt_succ_self _)
  · exact .inr ⟨rfl, Nat.lt_succ_self _⟩

theorem le_advance (p : Position) (t : Text) : p ≤ p.advance t := by
  induction t generalizing p with
  | nil => exact le_rfl
  | cons c t ih => exact (lt_step p c).le.trans (ih (p.step c))

/-- **Reading goes forward.** -/
theorem lt_advance (h : t ≠ []) : p < p.advance t := by
  obtain ⟨c, t, rfl⟩ := List.exists_cons_of_ne_nil h
  exact (lt_step p c).trans_le (le_advance (p.step c) t)

theorem advance_le_advance (p : Position) {s t : Text} (h : s <+: t) :
    p.advance s ≤ p.advance t := by
  obtain ⟨rest, rfl⟩ := h
  rw [advance_append]
  exact le_advance _ rest

end Position

/-! ## Slices -/

namespace Span

/-- The characters that lie in the span, of a text that starts at the given place. -/
def sliceFrom (span : Span) (here : Position) : Text → Text
  | [] => []
  | c :: t =>
    if span.start ≤ here ∧ here < span.stop then c :: span.sliceFrom (here.step c) t
    else span.sliceFrom (here.step c) t

/-- The part of a source that a span addresses. -/
def slice (span : Span) (source : Text) : Text := span.sliceFrom .start source

variable {span : Span} {here : Position} {s t : Text}

theorem sliceFrom_append :
    span.sliceFrom here (s ++ t) = span.sliceFrom here s ++ span.sliceFrom (here.advance s) t := by
  induction s generalizing here with
  | nil => rfl
  | cons c s ih =>
    rw [List.cons_append, sliceFrom, sliceFrom, ih]
    split
    · rfl
    · rfl

theorem sliceFrom_of_le_start (h : here.advance t ≤ span.start) : span.sliceFrom here t = [] := by
  induction t generalizing here with
  | nil => rfl
  | cons c t ih =>
    have hbefore : here < span.start := (Position.lt_advance (List.cons_ne_nil c t)).trans_le h
    rw [sliceFrom, if_neg fun hin => hin.1.not_gt hbefore]
    exact ih h

theorem sliceFrom_of_stop_le (h : span.stop ≤ here) : span.sliceFrom here t = [] := by
  induction t generalizing here with
  | nil => rfl
  | cons c t ih =>
    rw [sliceFrom, if_neg fun hin => hin.2.not_ge h]
    exact ih (h.trans (Position.lt_step here c).le)

theorem sliceFrom_of_le (hstart : span.start ≤ here) (hstop : here.advance t ≤ span.stop) :
    span.sliceFrom here t = t := by
  induction t generalizing here with
  | nil => rfl
  | cons c t ih =>
    have hbefore : here < span.stop := (Position.lt_advance (List.cons_ne_nil c t)).trans_le hstop
    rw [sliceFrom, if_pos ⟨hstart, hbefore⟩, ih (hstart.trans (Position.lt_step here c).le) hstop]

/-- **A span addresses what stands between its two places.** -/
theorem slice_append (front part back : Text) :
    slice ⟨Position.start.advance front, Position.start.advance (front ++ part)⟩
      (front ++ (part ++ back)) = part := by
  rw [slice, sliceFrom_append, sliceFrom_append, sliceFrom_of_le_start le_rfl, List.nil_append,
    sliceFrom_of_le le_rfl (by rw [Position.advance_append]), ← Position.advance_append,
    sliceFrom_of_stop_le le_rfl, List.append_nil]

end Span

end MiniSheet
