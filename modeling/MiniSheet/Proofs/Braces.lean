import MiniSheet.Proofs.Seams

/-!
# Too few and too many closing braces

What the builder says of braces is exact (`Document.brace_faults`): a source is reported to have an
unclosed block exactly if some closing braces behind it make it readable, and their number is
determined; a closing brace is reported as superfluous exactly if it stands behind a text that can
be read on its own.

The number is that of the blocks that a text leaves open (`Document.Leaves`). One more closing brace
always closes exactly one of them (`Document.leaves_append_brace`), because a closing brace at the
end is never part of anything else: whatever cannot be read without it cannot be read with it.
-/

namespace MiniSheet

/-! ## Places of a text -/

namespace Position

variable {p : Position} {s t u : Text}

theorem line_le_advance (p : Position) (t : Text) : p.line ≤ (p.advance t).line := by
  induction t generalizing p with
  | nil => exact Nat.le_refl _
  | cons c t ih =>
    refine Nat.le_trans ?_ (ih (p.step c))
    rw [step]
    split
    · exact Nat.le_succ _
    · exact Nat.le_refl _

/-- Within a line the column counts the characters. -/
theorem column_advance (h : (p.advance t).line = p.line) :
    (p.advance t).column = p.column + t.length := by
  induction t generalizing p with
  | nil => rfl
  | cons c t ih =>
    rw [advance_cons] at h ⊢
    have hline := line_le_advance (p.step c) t
    rw [step] at h hline ⊢
    split at h
    · rename_i hbreak
      rw [if_pos hbreak] at hline
      dsimp only at hline
      omega
    · rename_i hbreak
      rw [if_neg hbreak, ih h, List.length_cons]
      dsimp only
      omega

/-- Every place in a source is that of one character only. -/
theorem eq_of_advance_eq (hs : s <+: u) (ht : t <+: u) (h : p.advance s = p.advance t) : s = t := by
  have hlonger {s t : Text} (hfront : s <+: t) (h : p.advance s = p.advance t) : s = t := by
    obtain ⟨rest, rfl⟩ := hfront
    rw [advance_append] at h
    have hcolumn := column_advance (p := p.advance s) (t := rest) (by rw [← h])
    rw [← h] at hcolumn
    have hrest : rest = [] := List.length_eq_zero_iff.1 (by omega)
    rw [hrest, List.append_nil]
  rcases List.prefix_or_prefix_of_prefix hs ht with hfront | hfront
  · exact hlonger hfront h
  · exact (hlonger hfront h.symm).symm

end Position

/-! ## Faults of braces -/

/-- Whether a fault is about the nesting of blocks. -/
def Fault.isBrace : Fault → Bool
  | unclosedBlock | unexpectedClose => true
  | _ => false

theorem Scanner.isBrace_of_scan {s : Scanner} {t : Text} {e : ParseError}
    (h : s.scan t = .error e) : e.fault.isBrace = false := by
  induction t generalizing s with
  | nil =>
    have hfinish := Outcome.map_eq_error h
    rw [finish] at hfinish
    repeat' split at hfinish
    all_goals cases hfinish <;> rfl
  | cons c t ih =>
    rw [scan] at h
    split at h
    · cases h
    · exact ih (Outcome.map_eq_error h)

namespace Token

variable {here : Position} {t : Text} {e : ParseError}

theorem isBrace_of_readDeclaration {terminated : Bool}
    (h : readDeclaration here t terminated = .error e) : e.fault.isBrace = false := by
  rw [readDeclaration] at h
  split at h
  · cases h
  · cases h
    rfl

theorem isBrace_of_readStatement (h : readStatement here t = .error e) :
    e.fault.isBrace = false := by
  rcases Outcome.bind_eq_error h with hscan | ⟨⟨statement, rest⟩, -, hread⟩
  · exact Scanner.isBrace_of_scan hscan
  · dsimp only at hread
    split at hread
    · split at hread
      · cases hread
        rfl
      · cases hread
    · rcases Outcome.bind_eq_error hread with hread | ⟨token, -, hread⟩
      · exact isBrace_of_readDeclaration hread
      · cases hread
    · rcases Outcome.bind_eq_error hread with hread | ⟨token, -, hread⟩
      · exact isBrace_of_readDeclaration hread
      · cases hread

theorem isBrace_of_readAtRule (h : readAtRule here t = .error e) : e.fault.isBrace = false := by
  rw [readAtRule] at h
  split at h
  · cases h
    rfl
  · rcases Outcome.bind_eq_error h with hscan | ⟨⟨params, rest⟩, -, hread⟩
    · exact Scanner.isBrace_of_scan hscan
    · dsimp only at hread
      split at hread <;> cases hread

theorem isBrace_of_next (h : next here t = .error e) : e.fault.isBrace = false := by
  rw [next] at h
  split at h
  · cases h
  · cases h
  · rw [readComment] at h
    split at h
    · cases h
      rfl
    · cases h
  · exact isBrace_of_readAtRule h
  · exact isBrace_of_readStatement h

/-- Reading never finds fault with braces: they are left to the builder. -/
theorem isBrace_of_readAll (h : (readAll here t).ending = .error e) : e.fault.isBrace = false := by
  induction here, t using readAll.induct with
  | case1 here t error hnext =>
    rw [readAll_of_error hnext] at h
    cases h
    exact isBrace_of_next hnext
  | case2 here t stop hnext =>
    rw [readAll_of_done hnext] at h
    cases h
  | case3 here t token there rest hnext ih =>
    rw [readAll_of_token hnext] at h
    exact ih h

end Token

namespace Document

open Text

variable {s t : Text} {place : Position} {k : Nat}

/-! ## Open blocks -/

/-- The text is read without a fault and leaves the given number of blocks open. -/
def Leaves (s : Text) (k : Nat) : Prop :=
  ∃ tokens stop builder, Token.readAll .start s = ⟨tokens, .ok stop⟩ ∧
    tokens.foldlM Builder.step .empty = .ok builder ∧ builder.frames.length = k

theorem Leaves.unique {j : Nat} (hj : Leaves s j) (hk : Leaves s k) : j = k := by
  obtain ⟨tokens, stop, builder, hread, hbuild, rfl⟩ := hj
  obtain ⟨tokens', stop', builder', hread', hbuild', rfl⟩ := hk
  obtain ⟨rfl, -⟩ := Token.Reading.mk.inj (hread.symm.trans hread')
  obtain rfl := Except.ok.inj (hbuild.symm.trans hbuild')
  rfl

/-- A text that leaves no block open is a document. -/
theorem exists_parse_iff : (∃ document, parse s = .ok document) ↔ Leaves s 0 := by
  constructor
  · rintro ⟨document, h⟩
    obtain ⟨builder, hbuild, h⟩ := Outcome.bind_eq_ok h
    obtain ⟨stop, hstop, h⟩ := Outcome.bind_eq_ok h
    obtain ⟨nodes, hnodes, -⟩ := Outcome.bind_eq_ok h
    refine ⟨_, stop, builder, by rw [← hstop], hbuild, ?_⟩
    rw [Builder.finish] at hnodes
    split at hnodes
    · rename_i hframes
      rw [hframes]
      rfl
    · cases hnodes
  · rintro ⟨tokens, stop, ⟨frames, nodes⟩, hread, hbuild, hframes⟩
    obtain rfl := List.length_eq_zero_iff.1 hframes
    refine ⟨⟨nodes.reverse, ⟨.start, stop⟩⟩, ?_⟩
    rw [parse, hread]
    dsimp only
    rw [hbuild]
    rfl

/-- A text that leaves a block open is reported to do so. -/
theorem unclosedBlock_iff :
    (∃ position, parse s = .error ⟨.unclosedBlock, position⟩) ↔ ∃ k, 1 ≤ k ∧ Leaves s k := by
  constructor
  · rintro ⟨position, h⟩
    rcases Outcome.bind_eq_error h with hbuild | ⟨builder, hbuild, h⟩
    · obtain ⟨front, token, back, builder, -, -, hstep⟩ := Outcome.foldlM_eq_error hbuild
      rw [Builder.step.eq_def] at hstep
      split at hstep <;> try cases hstep
      split at hstep <;> cases hstep
    rcases Outcome.bind_eq_error h with hending | ⟨stop, hending, h⟩
    · cases Token.isBrace_of_readAll hending
    rcases Outcome.bind_eq_error h with hfinish | ⟨nodes, -, h⟩
    · refine ⟨builder.frames.length, ?_, _, stop, builder, by rw [← hending], hbuild, rfl⟩
      rw [Builder.finish] at hfinish
      split at hfinish
      · cases hfinish
      · rename_i hframes
        rw [hframes, List.length_cons]
        omega
    · cases h
  · rintro ⟨k, hk, tokens, stop, ⟨frames, nodes⟩, hread, hbuild, rfl⟩
    obtain ⟨frame, frames, rfl⟩ := List.exists_cons_of_ne_nil (List.length_pos_iff.1 hk)
    refine ⟨frame.start, ?_⟩
    rw [parse, hread]
    dsimp only
    rw [hbuild]
    rfl

/-- **A closing brace at the end closes one block.** It is never part of anything else. -/
theorem leaves_append_brace : Leaves (s ++ ['}']) k ↔ Leaves s (k + 1) := by
  constructor
  · rintro ⟨tokens, stop, builder, hread, hbuild, rfl⟩
    obtain ⟨front, place, hfront⟩ := Token.readAll_of_append_brace (by rw [hread])
    rw [Token.readAll_append_brace hfront, Token.readAll_nil] at hread
    obtain ⟨rfl, -⟩ := Token.Reading.mk.inj hread
    rw [List.foldlM_append] at hbuild
    obtain ⟨⟨frames, nodes⟩, hbefore, hlast⟩ := Outcome.bind_eq_ok hbuild
    refine ⟨front, place, ⟨frames, nodes⟩, hfront, hbefore, ?_⟩
    cases frames with
    | nil => cases hlast
    | cons frame frames =>
      obtain rfl := Except.ok.inj hlast
      rfl
  · rintro ⟨tokens, stop, ⟨frames, nodes⟩, hread, hbuild, hframes⟩
    obtain ⟨frame, frames, rfl⟩ := List.exists_cons_of_length_eq_add_one hframes
    have hwhole := Token.readAll_append_brace hread []
    rw [Token.readAll_nil] at hwhole
    refine ⟨_, _,
      ⟨frames, .block frame.head nodes.reverse ⟨frame.start, stop.step '}'⟩ :: frame.before⟩,
      hwhole, ?_, Nat.succ.inj hframes⟩
    rw [List.foldlM_append, hbuild]
    rfl

/-- As many closing braces as there are open blocks make a text a document, and only as many. -/
theorem exists_parse_append_braces_iff :
    (∃ document, parse (s ++ List.replicate k '}') = .ok document) ↔ Leaves s k := by
  induction k generalizing s with
  | zero => rw [List.replicate_zero, List.append_nil, exists_parse_iff]
  | succ k ih => rw [List.replicate_succ, List.append_cons, ih, leaves_append_brace]

/-! ## Superfluous braces -/

/-- A closing brace is superfluous where it stands behind a document. -/
theorem unexpectedClose_iff : parse s = .error ⟨.unexpectedClose, place⟩ ↔
    ∃ front rest, s = front ++ '}' :: rest ∧ place = Position.start.advance front ∧
      Leaves front 0 := by
  constructor
  · intro h
    rcases Outcome.bind_eq_error h with hbuild | ⟨builder, -, h⟩
    · obtain ⟨front, token, back, ⟨frames, nodes⟩, htokens, hfront, hstep⟩ :=
        Outcome.foldlM_eq_error hbuild
      cases token with
      | leaf content span => cases hstep
      | opening head start => cases hstep
      | closing found =>
        cases frames with
        | cons frame frames => cases hstep
        | nil =>
          cases hstep
          obtain ⟨t, rest, rfl, hread, -⟩ := Token.readAll_of_closing htokens
          obtain ⟨hplace, -⟩ := Token.readAll_append (t := []) hread (.inr fenced_nil)
          exact ⟨t, rest, rfl, hplace, front, place, ⟨[], nodes⟩, hread, hfront, rfl⟩
    rcases Outcome.bind_eq_error h with hending | ⟨stop, -, h⟩
    · cases Token.isBrace_of_readAll hending
    rcases Outcome.bind_eq_error h with hfinish | ⟨nodes, -, h⟩
    · rw [Builder.finish] at hfinish
      split at hfinish <;> cases hfinish
    · cases h
  · rintro ⟨front, rest, rfl, rfl, tokens, stop, ⟨frames, nodes⟩, hread, hbuild, hframes⟩
    obtain rfl := List.length_eq_zero_iff.1 hframes
    obtain ⟨rfl, -⟩ := Token.readAll_append (t := []) hread (.inr fenced_nil)
    rw [parse, Token.readAll_append_brace hread]
    dsimp only
    rw [List.foldlM_append, hbuild]
    rfl

/-- **What is said of braces is exact.** For every source:

1. it is reported to have an unclosed block exactly if some closing braces behind it make it
   readable, and only one number of them does;
2. a closing brace is reported as superfluous exactly if what stands in front of it can be read on
   its own, and nothing else is ever reported as superfluous. -/
theorem brace_faults (s : Text) :
    ((∃ position, parse s = .error ⟨.unclosedBlock, position⟩) ↔
      ∃ k, 1 ≤ k ∧ ∃ document, parse (s ++ List.replicate k '}') = .ok document) ∧
    (∀ j k, (∃ document, parse (s ++ List.replicate j '}') = .ok document) →
      (∃ document, parse (s ++ List.replicate k '}') = .ok document) → j = k) ∧
    (∀ offset, parse s = .error ⟨.unexpectedClose, Position.start.advance (s.take offset)⟩ ↔
      s[offset]? = some '}' ∧ ∃ document, parse (s.take offset) = .ok document) ∧
    ∀ position, parse s = .error ⟨.unexpectedClose, position⟩ →
      ∃ offset, offset < s.length ∧ position = Position.start.advance (s.take offset) := by
  simp only [exists_parse_append_braces_iff, exists_parse_iff]
  refine ⟨unclosedBlock_iff, fun j k => Leaves.unique, fun offset => ?_, fun position h => ?_⟩
  · rw [unexpectedClose_iff]
    constructor
    · rintro ⟨front, rest, rfl, hplace, hfront⟩
      have hsame : (front ++ '}' :: rest).take offset = front :=
        Position.eq_of_advance_eq (List.take_prefix ..) (List.prefix_append ..) hplace
      have hoffset : offset = front.length := by
        have hlength := congrArg List.length hsame
        simp only [List.length_take, List.length_append, List.length_cons] at hlength
        omega
      rw [hsame]
      exact ⟨by simp [hoffset], hfront⟩
    · rintro ⟨hbrace, hfront⟩
      obtain ⟨hlength, hbrace⟩ := List.getElem?_eq_some_iff.1 hbrace
      refine ⟨s.take offset, s.drop (offset + 1), ?_, rfl, hfront⟩
      rw [← hbrace, ← List.drop_eq_getElem_cons hlength, List.take_append_drop]
  · obtain ⟨front, rest, rfl, hplace, -⟩ := unexpectedClose_iff.1 h
    refine ⟨front.length, ?_, ?_⟩
    · rw [List.length_append, List.length_cons]
      omega
    · rw [List.take_left' rfl, hplace]

end Document

end MiniSheet
