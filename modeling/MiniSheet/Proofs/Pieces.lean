import MiniSheet.Proofs.Outcome
import MiniSheet.Source.Document

/-!
# Trees and their pieces

A tree can be laid out flat: every leaf, every head and every closing brace is a `Piece`, in the
order they stand in the source (`Node.piecesAll`). Pieces are tokens without places.

The tree that is built from tokens has the pieces of the tokens (`Document.pieces_of_parse`).
Conversely pieces decide the tree: tokens with the pieces of some tree are built into that tree, up
to places (`Document.parse_of_pieces`). So a source can be compared with a tree piece by piece.

What is done to the leaves of a tree is done to its pieces (`Node.piecesAll_rewriteAll`).
-/

namespace MiniSheet

/-- A piece of a stylesheet, wherever it stands. -/
inductive Piece where
  /-- a statement without a block -/
  | leaf (content : Leaf)
  /-- the head of a block and its opening brace -/
  | opening (head : Head)
  /-- a closing brace -/
  | closing
  deriving Repr, DecidableEq

/-- The piece of a token. -/
def Token.piece : Token → Piece
  | leaf content _ => .leaf content
  | opening head _ => .opening head
  | closing _ => .closing

namespace Node

mutual

/-- The pieces of a node. -/
def pieces : Node → List Piece
  | leaf content _ => [.leaf content]
  | block head children _ => .opening head :: piecesAll children ++ [.closing]

/-- The pieces of nodes, one behind the other. -/
def piecesAll : List Node → List Piece
  | [] => []
  | node :: nodes => node.pieces ++ piecesAll nodes

end

theorem piecesAll_append (front back : List Node) :
    piecesAll (front ++ back) = piecesAll front ++ piecesAll back := by
  induction front with
  | nil => rw [piecesAll, List.nil_append, List.nil_append]
  | cons node front ih => rw [List.cons_append, piecesAll, piecesAll, ih, List.append_assoc]

theorem piecesAll_singleton (node : Node) : piecesAll [node] = node.pieces := by
  rw [piecesAll, piecesAll, List.append_nil]

/-! ## Places -/

mutual

/-- A node, wherever it stands. -/
def unplaced : Node → Node
  | leaf content _ => leaf content ⟨.start, .start⟩
  | block head children _ => block head (unplacedAll children) ⟨.start, .start⟩

/-- Nodes, wherever they stand. -/
def unplacedAll : List Node → List Node
  | [] => []
  | node :: nodes => node.unplaced :: unplacedAll nodes

end

/-! ## Leaves -/

mutual

/-- A node with other leaves. Those without a replacement are left out. -/
def rewrite (g : Leaf → Option Leaf) : Node → Option Node
  | leaf content span => (g content).map (leaf · span)
  | block head children span => some (block head (rewriteAll g children) span)

/-- Nodes with other leaves, at every depth. -/
def rewriteAll (g : Leaf → Option Leaf) : List Node → List Node
  | [] => []
  | node :: nodes => (node.rewrite g).toList ++ rewriteAll g nodes

end

end Node

/-- A piece with another leaf. -/
def Piece.rewrite (g : Leaf → Option Leaf) : Piece → Option Piece
  | leaf content => (g content).map leaf
  | opening head => some (opening head)
  | closing => some closing

namespace Node

mutual

theorem pieces_rewrite (g : Leaf → Option Leaf) :
    (node : Node) → piecesAll (node.rewrite g).toList = node.pieces.filterMap (Piece.rewrite g)
  | leaf content span => by
    rw [rewrite, pieces]
    rcases hleaf : g content with _ | replacement
    · simp [Piece.rewrite, hleaf, piecesAll]
    · simp [Piece.rewrite, hleaf, piecesAll, pieces]
  | block head children span => by
    rw [rewrite, pieces, Option.toList_some, piecesAll_singleton, pieces,
      piecesAll_rewriteAll g children]
    simp [Piece.rewrite]

/-- Rewriting the leaves of a tree rewrites its pieces. -/
theorem piecesAll_rewriteAll (g : Leaf → Option Leaf) :
    (nodes : List Node) →
      piecesAll (rewriteAll g nodes) = (piecesAll nodes).filterMap (Piece.rewrite g)
  | [] => by rw [rewriteAll, piecesAll]; rfl
  | node :: nodes => by
    rw [rewriteAll, piecesAll_append, pieces_rewrite g node,
      piecesAll_rewriteAll g nodes, piecesAll, List.filterMap_append]

end

end Node

/-! ## From tokens to trees -/

namespace Document

open Node

/-- The pieces that were put aside for an open block, up to its head. -/
def Frame.pieces (frame : Frame) : List Piece :=
  piecesAll frame.before.reverse ++ [.opening frame.head]

namespace Builder

/-- The pieces of a tree under construction. -/
def pieces (b : Builder) : List Piece :=
  b.frames.reverse.flatMap Frame.pieces ++ piecesAll b.nodes.reverse

variable {b b' : Builder} {token : Token} {tokens : List Token} {nodes : List Node}

/-- One more token is one more piece. -/
theorem pieces_step (h : b.step token = .ok b') : b'.pieces = b.pieces ++ [token.piece] := by
  cases token with
  | leaf content span =>
    obtain rfl := Except.ok.inj h
    simp [pieces, piecesAll_append, piecesAll_singleton, Node.pieces, Token.piece]
  | opening head start =>
    obtain rfl := Except.ok.inj h
    simp [pieces, piecesAll, Frame.pieces, Token.piece]
  | closing place =>
    rw [step] at h
    split at h
    · cases h
    · rename_i frame frames hframes
      obtain rfl := Except.ok.inj h
      simp [pieces, hframes, piecesAll_append, piecesAll_singleton, Node.pieces, Frame.pieces,
        Token.piece]

theorem pieces_foldlM (h : tokens.foldlM step b = .ok b') :
    b'.pieces = b.pieces ++ tokens.map Token.piece := by
  induction tokens generalizing b with
  | nil =>
    obtain rfl := Except.ok.inj h
    exact (List.append_nil _).symm
  | cons token tokens ih =>
    rw [List.foldlM_cons] at h
    obtain ⟨between, hstep, hrest⟩ := Outcome.bind_eq_ok h
    rw [ih hrest, pieces_step hstep, List.append_assoc, List.map_cons]
    rfl

theorem pieces_finish (h : b.finish = .ok nodes) : piecesAll nodes = b.pieces := by
  rw [finish] at h
  split at h
  · rename_i hframes
    obtain rfl := Except.ok.inj h
    rw [pieces, hframes]
    rfl
  · cases h

end Builder

/-- The tree of a source has the pieces of its tokens. -/
theorem pieces_of_parse {source : Text} {document : Document} (h : parse source = .ok document) :
    (∃ stop, (Token.readAll .start source).ending = .ok stop) ∧
      (Token.readAll .start source).tokens.map Token.piece = piecesAll document.nodes := by
  obtain ⟨builder, hbuilder, h⟩ := Outcome.bind_eq_ok h
  obtain ⟨stop, hstop, h⟩ := Outcome.bind_eq_ok h
  obtain ⟨nodes, hnodes, h⟩ := Outcome.bind_eq_ok h
  obtain rfl := Except.ok.inj h
  refine ⟨⟨stop, hstop⟩, ?_⟩
  rw [Builder.pieces_finish hnodes, Builder.pieces_foldlM hbuilder]
  rfl

/-! ## From pieces to trees -/

namespace Builder

mutual

/-- Tokens with the pieces of a node are built into that node. -/
theorem foldlM_pieces :
    (node : Node) → ∀ (b : Builder) (tokens : List Token), tokens.map Token.piece = node.pieces →
      ∃ built, tokens.foldlM step b = .ok { b with nodes := built :: b.nodes } ∧
        built.unplaced = node.unplaced
  | .leaf content span, b, tokens, h => by
    rw [Node.pieces] at h
    obtain ⟨token, rfl, htoken⟩ := List.map_eq_singleton_iff.1 h
    cases token with
    | leaf other place =>
      obtain rfl := Piece.leaf.inj htoken
      exact ⟨_, rfl, by rw [unplaced, unplaced]⟩
    | opening head start => cases htoken
    | closing place => cases htoken
  | .block head children span, b, tokens, h => by
    rw [Node.pieces, List.cons_append] at h
    obtain ⟨first, rest, rfl, hfirst, hrest⟩ := List.map_eq_cons_iff.1 h
    obtain ⟨inner, last, rfl, hinner, hlast⟩ := List.map_eq_append_iff.1 hrest
    obtain ⟨last, rfl, hlast⟩ := List.map_eq_singleton_iff.1 hlast
    cases first with
    | leaf content place => cases hfirst
    | closing place => cases hfirst
    | opening other start =>
      obtain rfl := Piece.opening.inj hfirst
      cases last with
      | leaf content place => cases hlast
      | opening head start => cases hlast
      | closing place =>
        -- the children are built in a block of their own
        obtain ⟨built, hbuilt, hchildren⟩ :=
          foldlM_piecesAll children ⟨⟨other, start, b.nodes⟩ :: b.frames, []⟩ inner hinner
        refine ⟨.block other built ⟨start, place.step '}'⟩,
          ?_, by rw [unplaced, unplaced, hchildren]⟩
        change (inner ++ [Token.closing place]).foldlM step
          ⟨⟨other, start, b.nodes⟩ :: b.frames, []⟩ = _
        rw [List.foldlM_append, hbuilt, List.append_nil]
        change Except.ok (Builder.mk b.frames (.block other built.reverse.reverse _ :: b.nodes)) = _
        rw [List.reverse_reverse]

/-- Tokens with the pieces of nodes are built into those nodes. -/
theorem foldlM_piecesAll : (nodes : List Node) → ∀ (b : Builder) (tokens : List Token),
    tokens.map Token.piece = piecesAll nodes →
    ∃ built, tokens.foldlM step b = .ok { b with nodes := built.reverse ++ b.nodes } ∧
      unplacedAll built = unplacedAll nodes
  | [], b, tokens, h => by
    rw [piecesAll] at h
    obtain rfl := List.map_eq_nil_iff.1 h
    exact ⟨[], rfl, rfl⟩
  | node :: nodes, b, tokens, h => by
    rw [piecesAll] at h
    obtain ⟨front, back, rfl, hfront, hback⟩ := List.map_eq_append_iff.1 h
    obtain ⟨first, hfirst, hnode⟩ := foldlM_pieces node b front hfront
    obtain ⟨built, hbuilt, hnodes⟩ :=
      foldlM_piecesAll nodes { b with nodes := first :: b.nodes } back hback
    refine ⟨first :: built, ?_, by rw [unplacedAll, unplacedAll, hnode, hnodes]⟩
    rw [List.foldlM_append, hfirst, List.reverse_cons, List.append_assoc]
    exact hbuilt

end

end Builder

/-- **Pieces decide the tree.** A source whose tokens have the pieces of a tree is read as that
tree, up to places. -/
theorem parse_of_pieces {source : Text} {tokens : List Token} {stop : Position} {nodes : List Node}
    (hread : Token.readAll .start source = ⟨tokens, .ok stop⟩)
    (hpieces : tokens.map Token.piece = piecesAll nodes) :
    ∃ document, parse source = .ok document ∧ unplacedAll document.nodes = unplacedAll nodes := by
  obtain ⟨built, hbuilt, hnodes⟩ := Builder.foldlM_piecesAll nodes .empty tokens hpieces
  have hfinish : Builder.finish ⟨[], built.reverse ++ []⟩ = .ok built := by
    rw [Builder.finish, List.append_nil, List.reverse_reverse]
  refine ⟨⟨built, ⟨.start, stop⟩⟩, ?_, hnodes⟩
  rw [parse, hread]
  dsimp only
  rw [hbuilt]
  change (Builder.finish ⟨[], built.reverse ++ []⟩ >>=
    fun nodes => .ok (Document.mk nodes ⟨.start, stop⟩)) = _
  rw [hfinish]
  rfl

end Document

end MiniSheet
