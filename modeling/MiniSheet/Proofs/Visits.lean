import MiniSheet.Proofs.ImportSites
import MiniSheet.Proofs.NormalForm
import MiniSheet.Proofs.Writing

/-!
# What a walk writes

Whoever walks through a tree enters each node, goes through its children, and leaves it again
(`Node.visitsAll`). With the standard transforms a walk that does not fail writes something at each
of these visits, one behind the other (`Compiler.puts_produceNodes`). Only the block of an import is
not entered.
-/

namespace MiniSheet

/-! ## Visits -/

/-- The two times at which a walk comes to a node. -/
inductive Visit.Side where
  /-- in front of the children -/
  | entering
  /-- behind the children -/
  | leaving
  deriving DecidableEq

/-- One of the two times at which a walk comes to a node. -/
structure Visit where
  /-- the address of the node -/
  address : List Nat
  /-- the node -/
  node : Node
  /-- which of the two -/
  side : Visit.Side

namespace Visit

/-- The visit, seen from the block around it. -/
def below (i : Nat) (visit : Visit) : Visit := { visit with address := i :: visit.address }

/-- The visits of a node, given those of what is in it. -/
def around (node : Node) (inner : List Visit) : List Visit :=
  ⟨[], node, .entering⟩ :: inner ++ [⟨[], node, .leaving⟩]

end Visit

namespace Node

mutual

/-- The visits of a node and what is in it. Nobody looks into the block of an import. -/
def visits : Node → List Visit
  | leaf content span => Visit.around (leaf content span) []
  | block head children span => Visit.around (block head children span)
    (if (block head children span).import?.isSome then [] else visitsAll 0 children)

/-- The visits of nodes that are numbered from the given number on. -/
def visitsAll (i : Nat) : List Node → List Visit
  | [] => []
  | node :: nodes => node.visits.map (Visit.below i) ++ visitsAll (i + 1) nodes

end

end Node

/-! ## What visits write -/

/-- What is written for a declaration: the lengths of its value wait for the device. -/
def Declaration.symbols (d : Declaration) : List (Symbol Location) :=
  (d.property ++ d.separator).map .char ++ (Rpx.atoms d.value).map Rpx.Atom.symbol ++
    (d.marker.elim [] (' ' :: ·) ++ if d.terminated then [';'] else []).map .char

/-- What is written for a statement without a block. -/
def Leaf.symbols : Leaf → List (Symbol Location)
  | declaration content => content.symbols
  | content => content.write.map .char

/-- What is written for an import: a reference, if the import can be resolved. -/
def Compiler.reference (c : Compiler) (site : ImportSite) : List (Symbol Location) :=
  match c.resolveImport site.params site.span with
  | .ok edge => [.nested edge.target]
  | .error _ => []

/-- What is written in front of the children of a node. -/
def Node.front (c : Compiler) (node : Node) : List (Symbol Location) :=
  match node.import? with
  | some site => c.reference site
  | none =>
    match node with
    | leaf content _ => content.symbols
    | block head _ _ => (head.write ++ ['{']).map .char

/-- What is written behind the children of a node. -/
def Node.back (node : Node) : List (Symbol Location) :=
  match node.import? with
  | some _ => []
  | none =>
    match node with
    | leaf _ _ => []
    | block _ _ _ => [.char '}']

namespace Visit

/-- What is written at a visit. -/
def symbols (c : Compiler) (visit : Visit) : List (Symbol Location) :=
  match visit.side with
  | .entering => visit.node.front c
  | .leaving => visit.node.back

theorem flatMap_around (c : Compiler) (node : Node) (inner : List Visit) :
    (around node inner).flatMap (symbols c) =
      node.front c ++ inner.flatMap (symbols c) ++ node.back := by
  simp [around, symbols]

theorem flatMap_map_below (c : Compiler) (i : Nat) (visits : List Visit) :
    (visits.map (below i)).flatMap (symbols c) = visits.flatMap (symbols c) :=
  List.flatMap_map ..

end Visit

namespace Production

variable {s t : List (Symbol Location)} {first second : Production}

/-- The symbols that a production writes. -/
def symbols (p : Production) : List (Symbol Location) :=
  (p.events.filterMap Event.emission?).flatMap Emission.symbols

/-- Unless the production fails, it writes the symbols. -/
def Puts (s : List (Symbol Location)) (p : Production) : Prop := p.failure = none → p.symbols = s

theorem puts_empty : Puts [] empty := fun _ => rfl

theorem puts_text (content : Text) : Puts (content.map .char) (text content) :=
  fun _ => List.append_nil _

theorem puts_note (level : Level) (message : String) : Puts [] (note level message) := fun _ => rfl

theorem puts_fail (error : CompileError) : Puts s (fail error) := fun h => by cases h

theorem puts_emissions (list : List (Emission Location)) :
    Puts (list.flatMap Emission.symbols) (emissions list) := by
  intro _
  rw [symbols, emissions, List.filterMap_map]
  exact congrArg (List.flatMap _) List.filterMap_some

theorem Puts.append (hfirst : Puts s first) (hsecond : Puts t second) :
    Puts (s ++ t) (first ++ second) := by
  intro h
  obtain ⟨hfailure, hfailure', hevents⟩ := events_append h
  rw [symbols, hevents, List.filterMap_append, List.flatMap_append]
  exact congrArg₂ (· ++ ·) (hfirst hfailure) (hsecond hfailure')

theorem Puts.block {head : Text} (hfirst : Puts (head.map .char) first) (hsecond : Puts t second) :
    Puts ((head ++ ['{']).map .char ++ t ++ [.char '}'])
      (first ++ text ['{'] ++ second ++ text ['}']) := by
  rw [List.map_append]
  exact ((hfirst.append (puts_text ['{'])).append hsecond).append (puts_text ['}'])

end Production

namespace Compiler

open Production

variable {c : Compiler}

theorem puts_produceImport (site : ImportSite) :
    Puts (c.reference site) (c.produceImport site.params site.span) := by
  rw [produceImport, reference]
  rcases c.resolveImport site.params site.span with error | edge
  · exact puts_fail error
  · exact fun _ => rfl

theorem puts_produceValue (hc : c.transforms = .standard) (context : Context) (d : Declaration) :
    Puts ((Rpx.atoms d.value).map Rpx.Atom.symbol) (c.produceValue context d) := by
  have hemissions := puts_emissions ((Rpx.atoms d.value).map Rpx.Atom.emission)
  rw [Rpx.symbols_emission] at hemissions
  rw [produceValue, hc, ← List.append_nil (List.map _ _)]
  refine hemissions.append ?_
  split
  · exact puts_note _ _
  · exact puts_empty

theorem puts_produceDeclaration (hc : c.transforms = .standard) (context : Context)
    {d : Declaration} (h : d.WellFormed) : Puts d.symbols (c.produceDeclaration context d) := by
  have hparts := ((((puts_text d.property).append (puts_text d.separator)).append
    (puts_produceValue hc context d)).append (puts_text (d.marker.elim [] (' ' :: ·)))).append
    (puts_text (if d.terminated then [';'] else []))
  rw [← List.map_append, List.append_assoc, ← List.map_append] at hparts
  rw [produceDeclaration, h.writtenSeparator_eq]
  exact hparts

theorem puts_produceSelector (hc : c.transforms = .standard) (context : Context) {selector : Text}
    (h : selector.Trimmed) : Puts (selector.map .char) (c.produceSelector context selector) := by
  have hemissions := puts_emissions [.text (Text.trim selector)]
  rw [produceSelector, hc]
  rw [h.trim_eq, List.flatMap_singleton] at hemissions
  change Puts _ (emissions [.text (Text.trim selector)])
  rw [h.trim_eq]
  exact hemissions

theorem flatMap_visits_of_import? {node : Node} {site : ImportSite} (h : node.import? = some site) :
    node.visits.flatMap (Visit.symbols c) = c.reference site := by
  have hparts : node.visits = Visit.around node [] := by
    rcases node with ⟨content, span⟩ | ⟨head, children, span⟩
    · rw [Node.visits]
    · rw [Node.visits, h]
      rfl
  rw [hparts, Visit.flatMap_around, Node.front.eq_def, Node.back.eq_def, h]
  simp

theorem flatMap_visits_leaf {content : Leaf} {span : Span}
    (h : (Node.leaf content span).import? = none) :
    (Node.leaf content span).visits.flatMap (Visit.symbols c) = content.symbols := by
  rw [Node.visits, Visit.flatMap_around, Node.front, Node.back, h]
  simp

theorem flatMap_visits_block {head : Head} {children : List Node} {span : Span}
    (h : (Node.block head children span).import? = none) :
    (Node.block head children span).visits.flatMap (Visit.symbols c) =
      (head.write ++ ['{']).map .char ++ (Node.visitsAll 0 children).flatMap (Visit.symbols c) ++
        [.char '}'] := by
  rw [Node.visits, Visit.flatMap_around, Node.front, Node.back, h]
  rfl

mutual

/-- A node writes what its visits write. -/
theorem puts_produceNode (hc : c.transforms = .standard) (context : Context) : (node : Node) →
    (∀ piece ∈ node.pieces, piece.WellFormed) →
    Puts (node.visits.flatMap (Visit.symbols c)) (c.produceNode context node)
  | .leaf (.comment content) span, _ => by
    rw [flatMap_visits_leaf rfl, produceNode]
    exact puts_empty
  | .leaf (.declaration content) span, h => by
    rw [Node.pieces] at h
    rw [flatMap_visits_leaf rfl, produceNode]
    exact puts_produceDeclaration hc context (h _ List.mem_cons_self)
  | .leaf (.atRule name params) span, _ => by
    rcases himport : (Node.leaf (.atRule name params) span).import? with _ | site
    · rw [flatMap_visits_leaf himport, produceNode,
        if_neg (Node.import?_leaf_eq_none_iff.1 himport)]
      exact puts_text _
    · rw [flatMap_visits_of_import? himport, produceNode_of_import? himport]
      exact puts_produceImport site
  | .block (.rule selector) children span, h => by
    rw [Node.pieces] at h
    have hform : Rule.WellFormed selector := h (.opening (.rule selector)) List.mem_cons_self
    rw [flatMap_visits_block rfl, produceNode]
    exact (puts_produceSelector hc context hform.trimmed).block
      (puts_produceNodes hc context 0 children
        fun piece hmem => h piece (List.mem_cons_of_mem _ (List.mem_append_left _ hmem)))
  | .block (.atRule name params) children span, h => by
    rcases himport : (Node.block (.atRule name params) children span).import? with _ | site
    · rw [Node.pieces] at h
      rw [flatMap_visits_block himport, produceNode,
        if_neg (Node.import?_block_eq_none_iff.1 himport)]
      refine .block ?_ (puts_produceNodes hc _ 0 children
        fun piece hmem => h piece (List.mem_cons_of_mem _ (List.mem_append_left _ hmem)))
      rw [← List.append_nil (List.map _ _)]
      exact (puts_text _).append (puts_note _ _)
    · rw [flatMap_visits_of_import? himport, produceNode_of_import? himport]
      exact puts_produceImport site

/-- **Nodes write what their visits write**, one behind the other. -/
theorem puts_produceNodes (hc : c.transforms = .standard) (context : Context) (i : Nat) :
    (nodes : List Node) → (∀ piece ∈ Node.piecesAll nodes, piece.WellFormed) →
    Puts ((Node.visitsAll i nodes).flatMap (Visit.symbols c)) (c.produceNodes context nodes)
  | [], _ => by
    rw [Node.visitsAll, produceNodes]
    exact puts_empty
  | node :: nodes, h => by
    rw [Node.piecesAll] at h
    rw [Node.visitsAll, produceNodes, List.flatMap_append, Visit.flatMap_map_below]
    have hnode := puts_produceNode hc context node fun piece hmem =>
      h piece (List.mem_append_left _ hmem)
    have hnodes := puts_produceNodes hc context (i + 1) nodes fun piece hmem =>
      h piece (List.mem_append_right _ hmem)
    exact hnode.append hnodes

end

end Compiler

end MiniSheet
