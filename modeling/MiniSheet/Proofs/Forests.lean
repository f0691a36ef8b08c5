import MiniSheet.Proofs.Concatenation

/-!
# Texts and their nodes

The tree of a source is built with a stack of open blocks. Which tokens make up which nodes can be
said without a stack (`Document.Builds`): a leaf is a token of its own, and a block is made of a
head, the tokens of its children and a closing brace. The builder goes by this rule, whatever it was
doing before (`Document.Builds.foldlM`), and there is no other way to get a tree
(`Document.builds_of_foldlM`).

So a text *holds* nodes from a place on if these are made of its tokens (`Document.Holds`). A source
holds the nodes of its document (`Document.holds_of_parse`), and whatever holds nodes can be read on
its own and gives these nodes, moved to the start (`Document.parse_of_holds`).
-/

namespace MiniSheet

open Text

/-- Reading ends where the text does. -/
theorem Token.stop_of_readAll {here stop : Position} {t : Text} {tokens : List Token}
    (h : readAll here t = ⟨tokens, .ok stop⟩) : stop = here.advance t :=
  (readAll_append (t := []) h (.inr fenced_nil)).1

namespace Document

/-! ## Nodes and their tokens -/

/-- The tokens that nodes are built from. -/
inductive Builds : List Token → List Node → Prop where
  /-- no tokens, no nodes -/
  | nil : Builds [] []
  /-- a leaf is a token of its own -/
  | leaf {content : Leaf} {span : Span} {tokens : List Token} {nodes : List Node}
    (h : Builds tokens nodes) :
    Builds (.leaf content span :: tokens) (.leaf content span :: nodes)
  /-- a block is a head, the tokens of its children and a closing brace -/
  | block {head : Head} {start place : Position} {inner tokens : List Token}
    {children nodes : List Node}
    (hinner : Builds inner children) (h : Builds tokens nodes) :
    Builds (.opening head start :: (inner ++ .closing place :: tokens))
      (.block head children ⟨start, place.step '}'⟩ :: nodes)

/-- The tokens that a builder has taken, given its open blocks and the nodes of the innermost
one. -/
inductive Took : List Token → List Frame → List Node → Prop where
  /-- no block is open -/
  | top {tokens : List Token} {nodes : List Node} (h : Builds tokens nodes.reverse) :
    Took tokens [] nodes
  /-- the tokens in front of the innermost open block, its head, and the tokens since then -/
  | frame {before tokens : List Token} {frame : Frame} {frames : List Frame} {nodes : List Node}
    (hbefore : Took before frames frame.before) (h : Builds tokens nodes.reverse) :
    Took (before ++ .opening frame.head frame.start :: tokens) (frame :: frames) nodes

variable {tokens more : List Token} {nodes new : List Node} {frames : List Frame} {token : Token}
  {b b' : Builder}

theorem Builds.append (h : Builds tokens nodes) (hmore : Builds more new) :
    Builds (tokens ++ more) (nodes ++ new) := by
  induction h with
  | nil => exact hmore
  | leaf _ ih => exact .leaf ih
  | block hinner _ _ ih =>
    rw [List.cons_append, List.append_assoc]
    exact .block hinner ih

/-- The tokens of nodes are built into these nodes. -/
theorem Builds.foldlM (h : Builds tokens nodes) (b : Builder) :
    tokens.foldlM Builder.step b = .ok ⟨b.frames, nodes.reverse ++ b.nodes⟩ := by
  induction h generalizing b with
  | nil => rfl
  | @leaf content span tokens nodes _ ih =>
    rw [List.foldlM_cons, List.reverse_cons, List.append_assoc]
    exact ih ⟨b.frames, .leaf content span :: b.nodes⟩
  | @block head start place inner tokens children nodes _ _ ihinner ih =>
    rw [List.foldlM_cons, List.reverse_cons, List.append_assoc]
    change (inner ++ Token.closing place :: tokens).foldlM Builder.step
      ⟨⟨head, start, b.nodes⟩ :: b.frames, []⟩ = _
    rw [List.foldlM_append, ihinner, List.append_nil]
    change tokens.foldlM Builder.step ⟨b.frames,
      .block head children.reverse.reverse _ :: b.nodes⟩ = _
    rw [List.reverse_reverse]
    exact ih ⟨b.frames, .block head children ⟨start, place.step '}'⟩ :: b.nodes⟩

theorem Took.append (h : Took tokens frames nodes) (hmore : Builds more new) :
    Took (tokens ++ more) frames (new.reverse ++ nodes) := by
  cases h with
  | top h =>
    refine .top ?_
    rw [List.reverse_append, List.reverse_reverse]
    exact h.append hmore
  | frame hbefore h =>
    rw [List.append_assoc, List.cons_append]
    refine .frame hbefore ?_
    rw [List.reverse_append, List.reverse_reverse]
    exact h.append hmore

/-- A builder takes one token after the other. -/
theorem Took.step (h : Took tokens b.frames b.nodes) (hstep : b.step token = .ok b') :
    Took (tokens ++ [token]) b'.frames b'.nodes := by
  obtain ⟨frames, nodes⟩ := b
  cases token with
  | leaf content span =>
    obtain rfl := Except.ok.inj hstep
    exact h.append (.leaf .nil)
  | opening head start =>
    obtain rfl := Except.ok.inj hstep
    exact @Took.frame tokens [] ⟨head, start, nodes⟩ frames [] h .nil
  | closing place =>
    cases h with
    | top => cases hstep
    | frame hbefore h =>
      -- the head, the nodes since then and the brace are now one more node in front of the block
      obtain rfl := Except.ok.inj hstep
      rw [List.append_assoc, List.cons_append]
      exact hbefore.append (.block h .nil)

theorem Took.foldlM (h : Took tokens b.frames b.nodes)
    (hfold : more.foldlM Builder.step b = .ok b') : Took (tokens ++ more) b'.frames b'.nodes := by
  induction more generalizing tokens b with
  | nil =>
    obtain rfl := Except.ok.inj hfold
    rwa [List.append_nil]
  | cons token more ih =>
    obtain ⟨between, hstep, hfold⟩ := Outcome.bind_eq_ok hfold
    rw [List.append_cons]
    exact ih (h.step hstep) hfold

/-- Conversely what tokens are built into has these tokens. -/
theorem builds_of_foldlM (h : tokens.foldlM Builder.step .empty = .ok ⟨[], nodes⟩) :
    Builds tokens nodes.reverse := by
  have htook : Took ([] ++ tokens) [] nodes := Took.foldlM (b := .empty) (.top .nil) h
  cases htook with
  | top h => exact h

/-! ## Texts and their nodes -/

/-- The text, read from the place on, is made of the nodes. -/
def Holds (here : Position) (t : Text) (nodes : List Node) : Prop :=
  ∃ tokens, Token.readAll here t = ⟨tokens, .ok (here.advance t)⟩ ∧ Builds tokens nodes

variable {here : Position} {t source : Text} {document : Document}

/-- A source holds the nodes of its document, whose span is the whole source. -/
theorem holds_of_parse (h : parse source = .ok document) :
    Holds .start source document.nodes ∧
      document.span = ⟨.start, Position.start.advance source⟩ := by
  obtain ⟨⟨frames, nodes⟩, hbuild, h⟩ := Outcome.bind_eq_ok h
  obtain ⟨stop, hstop, h⟩ := Outcome.bind_eq_ok h
  obtain ⟨_, hnodes, h⟩ := Outcome.bind_eq_ok h
  obtain rfl := Except.ok.inj h
  have hread : Token.readAll .start source = ⟨(Token.readAll .start source).tokens, .ok stop⟩ := by
    rw [← hstop]
  obtain rfl := Token.stop_of_readAll hread
  cases frames with
  | nil =>
    obtain rfl := Except.ok.inj hnodes
    exact ⟨⟨_, hread, builds_of_foldlM hbuild⟩, rfl⟩
  | cons frame frames => cases hnodes

/-- **What holds nodes can be read on its own**, and gives these nodes but for a shift of places. -/
theorem parse_of_holds (h : Holds here t nodes) : ∃ read,
    parse t = .ok ⟨read, ⟨.start, Position.start.advance t⟩⟩ ∧
      Node.movedAll (Position.shift here) read = nodes := by
  obtain ⟨tokens, hread, hbuilds⟩ := h
  have hcarries := Position.carries_shift here
  have hmoved := Token.readAll_moved hcarries t
  rw [Position.shift_start, hread] at hmoved
  obtain ⟨htokens, hending⟩ := Token.Reading.mk.inj hmoved
  rcases hstart : (Token.readAll .start t).ending with e | stop
  · rw [hstart] at hending
    cases hending
  have hread' : Token.readAll .start t = ⟨(Token.readAll .start t).tokens, .ok stop⟩ := by
    rw [← hstart]
  obtain rfl := Token.stop_of_readAll hread'
  have hfold := Builder.foldlM_moved (f := Position.shift here) .empty fun place hmem =>
    Token.carries_of_closing (t := t) hcarries hmem
  rw [← htokens] at hfold
  change tokens.foldlM Builder.step .empty = _ at hfold
  rw [hbuilds.foldlM] at hfold
  rcases hbuild : (Token.readAll .start t).tokens.foldlM Builder.step .empty with e | ⟨frames, read⟩
  · rw [hbuild] at hfold
    cases hfold
  · rw [hbuild] at hfold
    obtain ⟨hframes, hnodes⟩ := Builder.mk.inj (Except.ok.inj hfold)
    obtain rfl := List.map_eq_nil_iff.1 hframes.symm
    refine ⟨read.reverse, ?_, ?_⟩
    · rw [parse, hread']
      dsimp only
      rw [hbuild]
      rfl
    · rw [Node.movedAll_reverse, ← hnodes]
      simp [Builder.empty]

end Document

end MiniSheet
