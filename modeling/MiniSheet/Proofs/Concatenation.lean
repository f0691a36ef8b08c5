import MiniSheet.Proofs.Moving

/-!
# One source behind another

If a source can be read and ends with a semicolon or a closing brace, any other text can be put
behind it: both together are read as the first one is and then as the second one would be on its
own, with its places counted on from the end of the first (`Document.parse_append`). This holds for
the tree as well as for the fault if the second text has one.

Three things come together. At such a seam reading goes on with the second text
(`Token.readAll_append`). That it starts somewhere else only moves its places
(`Token.readAll_moved`). And nothing is open at the seam, so the nodes of the first text just stand
in front of whatever is built from the second one (`Document.Builder.behind`).
-/

namespace MiniSheet

namespace Document

open Node Position

/-! ## Nodes in front -/

namespace Builder

/-- A tree under construction, from its open blocks and the nodes of the innermost one, that stands
behind finished nodes, given last one first. -/
def attach (base : List Node) : List Frame → List Node → Builder
  | [], nodes => ⟨[], nodes ++ base⟩
  | frame :: frames, nodes =>
    let below := attach base frames frame.before
    ⟨⟨frame.head, frame.start, below.nodes⟩ :: below.frames, nodes⟩

/-- A tree under construction behind finished nodes. -/
def behind (base : List Node) (b : Builder) : Builder := attach base b.frames b.nodes

variable {base : List Node}

theorem attach_cons (frames : List Frame) (node : Node) (nodes : List Node) :
    attach base frames (node :: nodes) =
      ⟨(attach base frames nodes).frames, node :: (attach base frames nodes).nodes⟩ := by
  cases frames with
  | nil => rfl
  | cons frame frames => rfl

/-- What stands in front has no part in a step. -/
theorem step_behind (b : Builder) (token : Token) :
    (b.behind base).step token = (b.step token).map (behind base) := by
  obtain ⟨frames, nodes⟩ := b
  cases token with
  | leaf content span => exact congrArg Except.ok (attach_cons frames _ nodes).symm
  | opening head start => rfl
  | closing place =>
    cases frames with
    | nil => rfl
    | cons frame frames => exact congrArg Except.ok (attach_cons frames _ frame.before).symm

theorem foldlM_behind (b : Builder) (tokens : List Token) :
    tokens.foldlM step (b.behind base) = (tokens.foldlM step b).map (behind base) := by
  induction tokens generalizing b with
  | nil => rfl
  | cons token tokens ih =>
    rw [List.foldlM_cons, List.foldlM_cons, step_behind]
    cases b.step token with
    | error e => rfl
    | ok b' => exact ih b'

theorem finish_behind (b : Builder) :
    (b.behind base).finish = b.finish.map (base.reverse ++ ·) := by
  obtain ⟨frames, nodes⟩ := b
  cases frames with
  | nil => exact congrArg Except.ok (List.reverse_append ..)
  | cons frame frames => rfl

/-- A tree in which no block is open stands in front of what follows. -/
theorem eq_behind_empty {b : Builder} {nodes : List Node} (h : b.finish = .ok nodes) :
    b = empty.behind nodes.reverse := by
  obtain ⟨frames, reversed⟩ := b
  cases frames with
  | nil =>
    obtain rfl := Except.ok.inj h
    rw [List.reverse_reverse]
    rfl
  | cons frame frames => cases h

end Builder

/-! ## Documents -/

/-- A document that could be read was read from tokens that leave no block open. -/
theorem builder_of_parse {s : Text} {document : Document} (h : parse s = .ok document) :
    ∃ tokens, Token.readAll .start s = ⟨tokens, .ok document.span.stop⟩ ∧
      tokens.foldlM Builder.step .empty = .ok (Builder.empty.behind document.nodes.reverse) := by
  obtain ⟨builder, hbuilder, h⟩ := Outcome.bind_eq_ok h
  obtain ⟨stop, hstop, h⟩ := Outcome.bind_eq_ok h
  obtain ⟨nodes, hnodes, h⟩ := Outcome.bind_eq_ok h
  obtain rfl := Except.ok.inj h
  refine ⟨(Token.readAll .start s).tokens, ?_, ?_⟩
  · rw [← hstop]
  · rw [hbuilder, Builder.eq_behind_empty hnodes]

/-- Behind a finished tree, the moved tokens of a text are built into its moved tree. -/
theorem foldlM_readAll_moved {f : Position → Position} (hcarries : Carries f .start)
    {front : List Token} {base : List Node}
    (hfront : front.foldlM Builder.step .empty = .ok (Builder.empty.behind base)) (t : Text) :
    (front ++ ((Token.readAll .start t).moved f).tokens).foldlM Builder.step .empty =
      Outcome.moved f (fun builder => (builder.moved f).behind base)
        ((Token.readAll .start t).tokens.foldlM Builder.step .empty) := by
  have hmoved := Builder.foldlM_moved (f := f) .empty fun place hmem =>
    Token.carries_of_closing (t := t) hcarries hmem
  have hempty : Builder.empty.moved f = .empty := rfl
  rw [hempty] at hmoved
  rw [List.foldlM_append, hfront]
  change ((Token.readAll .start t).tokens.map (Token.moved f)).foldlM Builder.step
    (Builder.empty.behind base) = _
  rw [Builder.foldlM_behind, hmoved]
  cases (Token.readAll .start t).tokens.foldlM Builder.step .empty with
  | error e => rfl
  | ok builder => rfl

/-- **One source behind another.** Let a source be read as a document, and let it be empty or end
with a semicolon or a closing brace. If a second text can be read on its own, both together can be
read, and their nodes are those of the first and then those of the second with all places counted on
from the end of the first. If the second text has a fault, both together have the same one, at the
place counted on. -/
theorem parse_append (s t : Text) (front : Document) (hfront : parse s = .ok front)
    (hended : s.Ended) :
    let origin := Position.start.advance s
    (∀ back, parse t = .ok back →
      parse (s ++ t) = .ok
        ⟨front.nodes ++ movedAll (shift origin) back.nodes,
          ⟨.start, shift origin back.span.stop⟩⟩) ∧
    ∀ e, parse t = .error e → parse (s ++ t) = .error ⟨e.fault, shift origin e.position⟩ := by
  intro origin
  have hcarries : Carries (shift origin) .start := carries_shift origin
  obtain ⟨tokens, hread, hbuild⟩ := builder_of_parse hfront
  obtain ⟨hstop, happend⟩ := Token.readAll_append (t := t) hread (.inl hended)
  rw [hstop, ← shift_start (Position.start.advance s), Token.readAll_moved hcarries] at happend
  -- the second text is read and built as on its own, moved and behind the first one
  have hparse : parse (s ++ t) = Outcome.moved (shift origin)
      (fun back : Document =>
        ⟨front.nodes ++ movedAll (shift origin) back.nodes, ⟨.start, shift origin back.span.stop⟩⟩)
      (parse t) := by
    rw [parse, happend]
    dsimp only
    rw [foldlM_readAll_moved hcarries hbuild]
    refine Outcome.moved_bind fun builder => Outcome.moved_bind fun stop => ?_
    rw [Builder.finish_behind, Builder.finish_moved, List.reverse_reverse]
    cases builder.finish with
    | error e => rfl
    | ok nodes => rfl
  constructor
  · intro back hback
    rw [hparse, hback]
    rfl
  · intro e he
    rw [hparse, he]
    rfl

/-- A source of two lines whose last block holds a declaration without a semicolon. -/
def headline : Text := "@a b;\nc \x7bd:e\x7d".toList

/-- A source that starts with a semicolon and has a string in its second line. -/
def sequel : Text := ";f\x7bg:\n'h'\x7d".toList

/-- The first source ends at `2:8`. From there on the nodes of the second one are counted, and there
a superfluous brace is found. -/
theorem parse_append_headline :
    ∃ front back, parse headline = .ok front ∧ headline.Ended ∧ parse sequel = .ok back ∧
      parse (headline ++ sequel) =
        .ok ⟨front.nodes ++ movedAll (shift ⟨2, 8⟩) back.nodes,
          ⟨.start, shift ⟨2, 8⟩ back.span.stop⟩⟩ ∧
    parse ['}'] = .error ⟨.unexpectedClose, ⟨1, 1⟩⟩ ∧
    parse (headline ++ ['}']) = .error ⟨.unexpectedClose, ⟨2, 8⟩⟩ := by
  have hok : (parse headline).isOk = true ∧ (parse sequel).isOk = true := by decide +kernel
  have hended : headline.Ended := by decide +kernel
  have hbrace : parse ['}'] = .error ⟨.unexpectedClose, ⟨1, 1⟩⟩ := by
    rw [parse, Token.readAll_of_token Token.next_closing]
    rfl
  obtain ⟨front, hfront⟩ := Outcome.exists_of_isOk hok.1
  obtain ⟨back, hback⟩ := Outcome.exists_of_isOk hok.2
  exact ⟨front, back, hfront, hended, hback,
    (parse_append headline sequel front hfront hended).1 back hback, hbrace,
    (parse_append headline ['}'] front hfront hended).2 _ hbrace⟩

end Document

end MiniSheet
