/-!
# Outcomes of computations that may fail

Readers, searches and renderings are `Except` computations. These inversion lemmas take such a
computation apart: how a chain of steps came to succeed, and where it failed.
-/

namespace MiniSheet

namespace Outcome

variable {ε α β : Type} {x : Except ε α} {e : ε} {b : β}

/-- A chain succeeds only if both its links do. -/
theorem bind_eq_ok {f : α → Except ε β} (h : x >>= f = .ok b) : ∃ a, x = .ok a ∧ f a = .ok b := by
  cases x with
  | error e => cases h
  | ok a => exact ⟨a, rfl, h⟩

/-- A chain fails as its first link, or behind it as its second. -/
theorem bind_eq_error {f : α → Except ε β} (h : x >>= f = .error e) :
    x = .error e ∨ ∃ a, x = .ok a ∧ f a = .error e := by
  cases x with
  | error e' => exact Or.inl (congrArg _ (Except.error.inj h))
  | ok a => exact Or.inr ⟨a, rfl, h⟩

theorem map_eq_ok {f : α → β} (h : x.map f = .ok b) : ∃ a, x = .ok a ∧ f a = b := by
  cases x with
  | error e => cases h
  | ok a => exact ⟨a, rfl, Except.ok.inj h⟩

theorem map_eq_error {f : α → β} (h : x.map f = .error e) : x = .error e := by
  cases x with
  | error e' => exact congrArg _ (Except.error.inj h)
  | ok a => cases h

theorem exists_of_isOk (h : x.isOk = true) : ∃ a, x = .ok a := by
  cases x with
  | error e => cases h
  | ok a => exact ⟨a, rfl⟩

/-- A fold fails at one of its steps. -/
theorem foldlM_eq_error {step : β → α → Except ε β} {l : List α} (h : l.foldlM step b = .error e) :
    ∃ front a back b', l = front ++ a :: back ∧ front.foldlM step b = .ok b' ∧
      step b' a = .error e := by
  induction l generalizing b with
  | nil => cases h
  | cons a l ih =>
    rw [List.foldlM_cons] at h
    rcases bind_eq_error h with hstep | ⟨b', hstep, hrest⟩
    · exact ⟨[], a, l, b, rfl, rfl, hstep⟩
    · obtain ⟨front, other, back, b'', rfl, hfront, herror⟩ := ih hrest
      refine ⟨a :: front, other, back, b'', rfl, ?_, herror⟩
      rw [List.foldlM_cons, hstep]
      exact hfront

end Outcome

end MiniSheet
