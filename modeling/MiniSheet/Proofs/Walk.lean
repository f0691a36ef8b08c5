import MiniSheet.Output.Production

/-!
# What a walk produces

The walk of the compiler puts productions one behind the other. So whatever holds of the parts and
is kept when two of them are put together holds of the whole walk
(`Compiler.WalkInvariant.produceNodes`). Along the way the walk counts the places where the source
imports something.

The imports of a source can be listed without compiling it: they are the import at-rules of its
tree, at any depth, in the order they are written (`Node.sitesAll`). The block of an import is never
looked at, so nothing inside it counts.
-/

namespace MiniSheet

/-- A place where a source imports something. -/
structure ImportSite where
  /-- the parameters of the import -/
  params : Text
  /-- where it stands -/
  span : Span
  deriving Repr, DecidableEq

namespace Node

mutual

/-- The imports of a node, in the order they are written. -/
def sites : Node → List ImportSite
  | leaf (.atRule name params) span => if name == Compiler.importName then [⟨params, span⟩] else []
  | leaf (.declaration _) _ => []
  | leaf (.comment _) _ => []
  | block (.rule _) children _ => sitesAll children
  | block (.atRule name params) children span =>
    if name == Compiler.importName then [⟨params, span⟩] else sitesAll children

/-- The imports of nodes, in the order they are written. -/
def sitesAll : List Node → List ImportSite
  | [] => []
  | node :: nodes => node.sites ++ sitesAll nodes

end

/-- The import that a node is, if it is one. -/
def import? : Node → Option ImportSite
  | leaf (.atRule name params) span =>
    if name == Compiler.importName then some ⟨params, span⟩ else none
  | block (.atRule name params) _ span =>
    if name == Compiler.importName then some ⟨params, span⟩ else none
  | _ => none

/-- An at-rule without a block is an import by its name. -/
theorem import?_leaf_eq_none_iff {name params : Text} {span : Span} :
    (leaf (.atRule name params) span).import? = none ↔ ¬ (name == Compiler.importName) = true := by
  rw [import?]
  split <;> simp_all

/-- And so is one with a block. -/
theorem import?_block_eq_none_iff {name params : Text} {children : List Node} {span : Span} :
    (block (.atRule name params) children span).import? = none ↔
      ¬ (name == Compiler.importName) = true := by
  rw [import?]
  split <;> simp_all

/-- The nodes that are imports. -/
theorem eq_of_import? {node : Node} {site : ImportSite} (h : node.import? = some site) :
    node = leaf (.atRule Compiler.importName site.params) site.span ∨
      ∃ children, node = block (.atRule Compiler.importName site.params) children site.span := by
  rcases node with
    ⟨content | ⟨name, params⟩ | content, span⟩ | ⟨selector | ⟨name, params⟩, children, span⟩
  · cases h
  · rw [import?] at h
    split at h
    · rename_i himport
      obtain rfl := Option.some.inj h
      exact .inl (by rw [beq_iff_eq.1 himport])
    · cases h
  · cases h
  · cases h
  · rw [import?] at h
    split at h
    · rename_i himport
      obtain rfl := Option.some.inj h
      exact .inr ⟨children, by rw [beq_iff_eq.1 himport]⟩
    · cases h

end Node

namespace Compiler

/-- A node that is an import produces what the import does. -/
theorem produceNode_of_import? {c : Compiler} {context : Context} {node : Node} {site : ImportSite}
    (h : node.import? = some site) :
    c.produceNode context node = c.produceImport site.params site.span := by
  rcases Node.eq_of_import? h with rfl | ⟨children, rfl⟩
  · rw [produceNode, if_pos BEq.rfl]
  · rw [produceNode, if_pos BEq.rfl]

/-- Something that holds of all parts of a walk and is kept when parts are put together. It is told
of a production together with the imports that the production stands for. -/
structure WalkInvariant (c : Compiler) (Q : List ImportSite → Production → Prop) : Prop where
  /-- nothing is produced -/
  empty : Q [] .empty
  /-- two parts are put together -/
  append : ∀ {sites sites' first second}, Q sites first → Q sites' second →
    Q (sites ++ sites') (first ++ second)
  /-- a text is written -/
  text : ∀ content, Q [] (.text content)
  /-- something is recorded -/
  note : ∀ level message, Q [] (.note level message)
  /-- something is imported -/
  imported : ∀ params span, Q [⟨params, span⟩] (c.produceImport params span)
  /-- a selector is written -/
  selector : ∀ context selector, Q [] (c.produceSelector context selector)
  /-- a value is written -/
  value : ∀ context declaration, Q [] (c.produceValue context declaration)

namespace WalkInvariant

variable {c : Compiler} {Q : List ImportSite → Production → Prop} (h : c.WalkInvariant Q)

include h

/-- Of a block only what stands between the braces can import anything. -/
theorem block {sites : List ImportSite} {head inner : Production} (hhead : Q [] head)
    (hinner : Q sites inner) : Q sites (head ++ .text ['{'] ++ inner ++ .text ['}']) := by
  have hparts := h.append (h.append (h.append hhead (h.text ['{'])) hinner) (h.text ['}'])
  rwa [List.append_nil] at hparts

mutual

/-- What holds of the parts of a walk holds of the walk over a node. -/
theorem produceNode (context : Context) : (node : Node) → Q node.sites (c.produceNode context node)
  | .leaf (.comment _) _ => by
    rw [Compiler.produceNode, Node.sites]
    exact h.empty
  | .leaf (.declaration declaration) _ => by
    rw [Compiler.produceNode, Node.sites]
    exact h.append
      (h.append (h.append (h.append (h.text _) (h.text _)) (h.value context declaration))
        (h.text _)) (h.text _)
  | .leaf (.atRule name params) span => by
    rw [Compiler.produceNode, Node.sites]
    split
    · exact h.imported params span
    · exact h.text _
  | .block (.rule selector) children _ => by
    rw [Compiler.produceNode, Node.sites]
    exact h.block (h.selector context selector) (produceNodes context children)
  | .block (.atRule name params) children span => by
    rw [Compiler.produceNode, Node.sites]
    split
    · -- the block of an import is never walked
      exact h.imported params span
    · exact h.block (h.append (h.text _) (h.note _ _)) (produceNodes (Context.inside name) children)

/-- **Induction along a walk**: what holds of the parts of a walk holds of the walk over nodes. -/
theorem produceNodes (context : Context) :
    (nodes : List Node) → Q (Node.sitesAll nodes) (c.produceNodes context nodes)
  | [] => by
    rw [Compiler.produceNodes, Node.sitesAll]
    exact h.empty
  | node :: nodes => by
    rw [Compiler.produceNodes, Node.sitesAll]
    exact h.append (produceNode context node) (produceNodes context nodes)

end

end WalkInvariant

end Compiler

end MiniSheet
