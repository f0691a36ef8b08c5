import MiniSheet.Proofs.Inlining

/-!
# What compiling keeps of a tree

A node of a tree has an *address*: its number among the nodes at the top, then among the children of
that node, and so on (`Node.at?`). Whoever walks through the tree enters each node, goes through its
children, and leaves it again. These visits have an order that is given by addresses alone
(`Visit.Before`).

With the standard transforms a stylesheet is compiled to what its visits write, one behind the other
(`Compiler.compile_writes_visits`). A node is visited exactly if it does not lie in the block of an
import. So no node is written twice or out of order, and none is lost, as long as imports have
nothing in their blocks. What is in the block of an import is lost without a failure
(`Compiler.lost_block`).
-/

namespace MiniSheet

/-! ## Addresses -/

namespace Node

/-- The nodes in the block of a node. -/
def children : Node → List Node
  | leaf _ _ => []
  | block _ children _ => children

/-- The node at an address that starts at a node. -/
def below? (node : Node) : List Nat → Option Node
  | [] => some node
  | i :: address => node.children[i]?.bind fun child => child.below? address

/-- The node at an address. -/
def at? (nodes : List Node) : List Nat → Option Node
  | [] => none
  | i :: address => nodes[i]?.bind fun node => node.below? address

/-- There is an import on the way from a node to an address. -/
def HiddenBelow (node : Node) (address : List Nat) : Prop :=
  ∃ above i rest inner, address = above ++ i :: rest ∧ node.below? above = some inner ∧
    inner.import?.isSome = true

/-- The address lies in the block of an import. -/
def Hidden (nodes : List Node) (address : List Nat) : Prop :=
  ∃ above i rest inner, address = above ++ i :: rest ∧ at? nodes above = some inner ∧
    inner.import?.isSome = true

variable {node inner : Node} {nodes : List Node} {i : Nat} {address : List Nat}

theorem below?_append (node : Node) (above rest : List Nat) :
    node.below? (above ++ rest) = (node.below? above).bind fun inner => inner.below? rest := by
  induction above generalizing node with
  | nil => rfl
  | cons i above ih =>
    rw [List.cons_append, below?, below?, Option.bind_assoc]
    exact congrArg (node.children[i]?.bind ·) (funext ih)

theorem at?_append_cons (nodes : List Node) (above : List Nat) (i : Nat) (rest : List Nat)
    (h : above ≠ []) :
    at? nodes (above ++ i :: rest) =
      (at? nodes above).bind fun inner => inner.children[i]?.bind
        fun child => child.below? rest := by
  obtain ⟨j, above, rfl⟩ := List.exists_cons_of_ne_nil h
  rw [List.cons_append, at?, at?, Option.bind_assoc]
  exact congrArg (nodes[j]?.bind ·) (funext fun node => below?_append node above (i :: rest))

theorem not_hiddenBelow_nil (node : Node) : ¬ node.HiddenBelow [] := by
  rintro ⟨above, i, rest, inner, h, -⟩
  cases above <;> cases h

/-- An address is hidden if the node it starts at is an import, or if there is an import further
down. -/
theorem hiddenBelow_cons : node.HiddenBelow (i :: address) ↔
    node.import?.isSome = true ∨
    ∃ child, node.children[i]? = some child ∧ child.HiddenBelow address := by
  constructor
  · rintro ⟨_ | ⟨j, above⟩, k, rest, inner, haddress, hinner, himport⟩
    · obtain rfl := Option.some.inj hinner
      exact .inl himport
    · obtain ⟨rfl, rfl⟩ := List.cons.inj haddress
      obtain ⟨child, hchild, hinner⟩ := Option.bind_eq_some_iff.1 hinner
      exact .inr ⟨child, hchild, above, k, rest, inner, rfl, hinner, himport⟩
  · rintro (himport | ⟨child, hchild, above, k, rest, inner, rfl, hinner, himport⟩)
    · exact ⟨[], i, address, node, rfl, rfl, himport⟩
    · exact ⟨i :: above, k, rest, inner, rfl, Option.bind_eq_some_iff.2 ⟨child, hchild, hinner⟩,
        himport⟩

theorem hidden_cons :
    Hidden nodes (i :: address) ↔ ∃ node, nodes[i]? = some node ∧ node.HiddenBelow address := by
  constructor
  · rintro ⟨_ | ⟨j, above⟩, k, rest, inner, haddress, hinner, himport⟩
    · cases hinner
    · obtain ⟨rfl, rfl⟩ := List.cons.inj haddress
      obtain ⟨node, hnode, hinner⟩ := Option.bind_eq_some_iff.1 hinner
      exact ⟨node, hnode, above, k, rest, inner, rfl, hinner, himport⟩
  · rintro ⟨node, hnode, above, k, rest, inner, rfl, hinner, himport⟩
    exact ⟨i :: above, k, rest, inner, rfl, Option.bind_eq_some_iff.2 ⟨node, hnode, hinner⟩,
      himport⟩

end Node

/-! ## Visits -/

namespace Visit

/-- The place of a visit: a node is entered at its address, and left behind its last child. -/
def place (visit : Visit) : List Nat :=
  match visit.side with
  | .entering => visit.address
  | .leaving => visit.address ++ [visit.node.children.length]

/-- Document order: the first number that differs counts, and a node comes in front of what is in
it. -/
def Before (first second : Visit) : Prop := List.Lex (· < ·) first.place second.place

theorem place_below (i : Nat) (visit : Visit) : (visit.below i).place = i :: visit.place := by
  rcases visit with ⟨address, node, _ | _⟩ <;> rfl

/-- A node is entered first and left last. -/
theorem pairwise_around {node : Node} {inner : List Visit} (h : inner.Pairwise Before)
    (hinner : ∀ visit ∈ inner, ∃ i rest, visit.place = i :: rest ∧ i < node.children.length) :
    (around node inner).Pairwise Before := by
  refine List.pairwise_cons.2 ⟨fun visit hmem => ?_,
    List.pairwise_append.2 ⟨h, .cons (fun _ h => by cases h) .nil, ?_⟩⟩
  · rcases List.mem_append.1 hmem with hmem | hmem
    · obtain ⟨i, rest, hplace, -⟩ := hinner visit hmem
      rw [Before, hplace]
      exact .nil
    · obtain rfl := List.mem_singleton.1 hmem
      exact .nil
  · intro visit hmem last hlast
    obtain rfl := List.mem_singleton.1 hlast
    obtain ⟨i, rest, hplace, hi⟩ := hinner visit hmem
    rw [Before, hplace]
    exact .rel hi

/-- A node is visited at its own address, and what is in it at addresses that start at the node. -/
theorem mem_around {node : Node} {inner : List Visit} {visit : Visit}
    (h : visit ∈ inner ↔ node.import?.isSome = false ∧ ∃ i within child, visit = below i within ∧
      node.children[i]? = some child ∧ child.below? within.address = some within.node ∧
      ¬ child.HiddenBelow within.address) :
    visit ∈ around node inner ↔
      node.below? visit.address = some visit.node ∧ ¬ node.HiddenBelow visit.address := by
  rw [around, List.cons_append, List.mem_cons, List.mem_append, List.mem_singleton, h]
  obtain ⟨_ | ⟨i, address⟩, other, side⟩ := visit
  · constructor
    · rintro (hvisit | ⟨-, i, within, child, hvisit, -⟩ | hvisit)
      · cases hvisit
        exact ⟨rfl, node.not_hiddenBelow_nil⟩
      · cases hvisit
      · cases hvisit
        exact ⟨rfl, node.not_hiddenBelow_nil⟩
    · rintro ⟨hother, -⟩
      cases Option.some.inj hother
      cases side
      · exact .inl rfl
      · exact .inr (.inr rfl)
  · rw [Node.hiddenBelow_cons, not_or, Bool.not_eq_true, Node.below?]
    constructor
    · rintro (hvisit | ⟨himport, j, within, child, hvisit, hchild, hwithin, hhidden⟩ | hvisit)
      · cases hvisit
      · cases hvisit
        refine ⟨Option.bind_eq_some_iff.2 ⟨child, hchild, hwithin⟩, himport, ?_⟩
        rintro ⟨other, hother, hbelow⟩
        cases Option.some.inj (hchild.symm.trans hother)
        exact hhidden hbelow
      · cases hvisit
    · rintro ⟨hother, himport, hhidden⟩
      obtain ⟨child, hchild, hbelow⟩ := Option.bind_eq_some_iff.1 hother
      exact .inr (.inl ⟨himport, i, ⟨address, other, side⟩, child, rfl, hchild, hbelow,
        fun hidden => hhidden ⟨child, hchild, hidden⟩⟩)

end Visit

namespace Node

theorem exists_of_mem_visitsAll {visit : Visit} {i : Nat} {nodes : List Node}
    (h : visit ∈ visitsAll i nodes) :
    ∃ j rest, visit.place = (i + j) :: rest ∧ j < nodes.length := by
  induction nodes generalizing i with
  | nil =>
    rw [visitsAll] at h
    cases h
  | cons node nodes ih =>
    rw [visitsAll, List.mem_append, List.mem_map] at h
    rcases h with ⟨inner, -, rfl⟩ | h
    · exact ⟨0, inner.place, inner.place_below i, Nat.zero_lt_succ _⟩
    · obtain ⟨j, rest, hplace, hj⟩ := ih h
      exact ⟨j + 1, rest, by rw [hplace, Nat.add_right_comm, Nat.add_assoc], Nat.succ_lt_succ hj⟩

mutual

theorem pairwise_visits : (node : Node) → node.visits.Pairwise Visit.Before
  | leaf content span => by
    rw [visits]
    exact Visit.pairwise_around .nil fun _ h => by cases h
  | block head children span => by
    rw [visits]
    split
    · exact Visit.pairwise_around .nil fun _ h => by cases h
    · refine Visit.pairwise_around (pairwise_visitsAll 0 children) fun visit hmem => ?_
      obtain ⟨i, rest, hplace, hi⟩ := exists_of_mem_visitsAll hmem
      exact ⟨i, rest, by rw [hplace, Nat.zero_add], hi⟩

/-- **Visits come in document order.** -/
theorem pairwise_visitsAll (i : Nat) :
    (nodes : List Node) → (visitsAll i nodes).Pairwise Visit.Before
  | [] => by
    rw [visitsAll]
    exact .nil
  | node :: nodes => by
    rw [visitsAll]
    refine List.pairwise_append.2 ⟨?_, pairwise_visitsAll (i + 1) nodes,
      fun first hfirst second hsecond => ?_⟩
    · refine List.pairwise_map.2 ((pairwise_visits node).imp fun {first second} h => ?_)
      rw [Visit.Before, Visit.place_below, Visit.place_below]
      exact .cons h
    · obtain ⟨inner, -, rfl⟩ := List.mem_map.1 hfirst
      obtain ⟨j, rest, hplace, -⟩ := exists_of_mem_visitsAll hsecond
      rw [Visit.Before, Visit.place_below, hplace]
      exact .rel (by omega)

end

mutual

theorem mem_visits_iff (visit : Visit) : (node : Node) → (visit ∈ node.visits ↔
    node.below? visit.address = some visit.node ∧ ¬ node.HiddenBelow visit.address)
  | leaf content span => by
    rw [visits]
    refine Visit.mem_around ⟨fun h => absurd h List.not_mem_nil, ?_⟩
    rintro ⟨-, i, within, child, -, hchild, -⟩
    cases hchild
  | block head children span => by
    rw [visits]
    refine Visit.mem_around ?_
    split
    · rename_i himport
      refine ⟨fun h => absurd h List.not_mem_nil, fun h => ?_⟩
      rw [h.1] at himport
      cases himport
    · rename_i himport
      rw [mem_visitsAll_iff visit 0 children]
      simp only [Nat.zero_add, Bool.eq_false_iff.2 himport, true_and]
      rfl

/-- **The nodes that are visited** are those on the way to which there is no import. -/
theorem mem_visitsAll_iff (visit : Visit) (i : Nat) :
    (nodes : List Node) → (visit ∈ visitsAll i nodes ↔
      ∃ j within node, visit = Visit.below (i + j) within ∧ nodes[j]? = some node ∧
        node.below? within.address = some within.node ∧ ¬ node.HiddenBelow within.address)
  | [] => by
    rw [visitsAll]
    refine ⟨fun h => absurd h List.not_mem_nil, ?_⟩
    rintro ⟨j, within, node, -, hnode, -⟩
    cases hnode
  | node :: nodes => by
    rw [visitsAll, List.mem_append, List.mem_map, mem_visitsAll_iff visit (i + 1) nodes]
    constructor
    · rintro (⟨within, hmem, rfl⟩ | ⟨j, within, other, rfl, hother, hwithin⟩)
      · exact ⟨0, within, node, rfl, rfl, (mem_visits_iff within node).1 hmem⟩
      · exact ⟨j + 1, within, other, by rw [Nat.add_right_comm, Nat.add_assoc], hother, hwithin⟩
    · rintro ⟨_ | j, within, other, rfl, hother, hwithin⟩
      · cases Option.some.inj hother
        exact .inl ⟨within, (mem_visits_iff within node).2 hwithin, rfl⟩
      · exact .inr ⟨j, within, other, by rw [Nat.add_right_comm, Nat.add_assoc], hother, hwithin⟩

end

theorem mem_visitsAll_zero_iff {visit : Visit} {nodes : List Node} : visit ∈ visitsAll 0 nodes ↔
    at? nodes visit.address = some visit.node ∧ ¬ Hidden nodes visit.address := by
  rw [mem_visitsAll_iff]
  obtain ⟨_ | ⟨i, address⟩, inner, side⟩ := visit
  · constructor
    · rintro ⟨j, within, node, hvisit, -⟩
      cases hvisit
    · rintro ⟨h, -⟩
      cases h
  · rw [hidden_cons, at?]
    constructor
    · rintro ⟨j, within, node, hvisit, hnode, hwithin, hhidden⟩
      rw [Nat.zero_add] at hvisit
      cases hvisit
      refine ⟨Option.bind_eq_some_iff.2 ⟨node, hnode, hwithin⟩, ?_⟩
      rintro ⟨other, hother, hbelow⟩
      cases Option.some.inj (hnode.symm.trans hother)
      exact hhidden hbelow
    · rintro ⟨hinner, hhidden⟩
      obtain ⟨node, hnode, hbelow⟩ := Option.bind_eq_some_iff.1 hinner
      exact ⟨i, ⟨address, inner, side⟩, node, by rw [Nat.zero_add]; rfl, hnode, hbelow,
        fun hidden => hhidden ⟨node, hnode, hidden⟩⟩

end Node

/-! ## Stylesheets -/

namespace Compiler

/-- All addresses are visited exactly if no import has anything in its block. -/
theorem forall_not_hidden_iff {nodes : List Node} :
    (∀ address node, Node.at? nodes address = some node → ¬ Node.Hidden nodes address) ↔
      ∀ address node, Node.at? nodes address = some node → node.import?.isSome = true →
        node.children = [] := by
  constructor
  · intro h address node hnode himport
    rcases hchildren : node.children with _ | ⟨child, others⟩
    · rfl
    · have hne : address ≠ [] := by
        rintro rfl
        cases hnode
      have hchild : Node.at? nodes (address ++ [0]) = some child := by
        rw [Node.at?_append_cons nodes address 0 [] hne, hnode, Option.bind_some, hchildren]
        rfl
      exact absurd ⟨address, 0, [], node, rfl, hnode, himport⟩ (h _ child hchild)
  · rintro h address node hnode ⟨above, i, rest, inner, rfl, hinner, himport⟩
    have hne : above ≠ [] := by
      rintro rfl
      cases hinner
    rw [Node.at?_append_cons nodes above i rest hne, hinner, Option.bind_some,
      h above inner hinner himport] at hnode
    cases hnode

/-- **A stylesheet is compiled to what its visits write.** They come in document order, so that no
two of them are at the same place, and a node is entered and left exactly if it does not lie in the
block of an import. So no rule, declaration or at-rule is lost exactly if no import has anything in
its block. -/
theorem compile_writes_visits (c : Compiler) (hc : c.transforms = .standard) (source : Text)
    (compiled : Compiled) (h : (c.compile source).value = .ok compiled) :
    ∃ document, ∃ visits : List Visit, Document.parse source = .ok document ∧
      visits.Pairwise Visit.Before ∧
      (∀ visit, visit ∈ visits ↔ Node.at? document.nodes visit.address = some visit.node ∧
        ¬ Node.Hidden document.nodes visit.address) ∧
      Chunk.flatten compiled.chunks = visits.flatMap (Visit.symbols c) ∧
      ((∀ address node, Node.at? document.nodes address = some node →
          ∃ visit ∈ visits, visit.address = address) ↔
        ∀ address node, Node.at? document.nodes address = some node →
          node.import?.isSome = true → node.children = []) := by
  obtain ⟨document, hparse, hfailure, rfl⟩ := Package.exists_production_of_compile h
  have hmem (visit : Visit) : visit ∈ Node.visitsAll 0 document.nodes ↔
      Node.at? document.nodes visit.address = some visit.node ∧
      ¬ Node.Hidden document.nodes visit.address :=
    Node.mem_visitsAll_zero_iff
  refine ⟨document, Node.visitsAll 0 document.nodes, hparse, Node.pairwise_visitsAll 0 _,
    hmem, ?_, ?_⟩
  · rw [Production.flatten_chunks]
    exact puts_produceNodes hc .root 0 document.nodes
      (Document.wellFormed_of_parse hparse).1 hfailure
  · rw [← forall_not_hidden_iff]
    refine forall_congr' fun address => forall_congr' fun node => imp_congr_right fun hnode => ?_
    constructor
    · rintro ⟨visit, hvisit, rfl⟩
      exact ((hmem visit).1 hvisit).2
    · intro hhidden
      exact ⟨⟨address, node, .entering⟩, (hmem _).2 ⟨hnode, hhidden⟩, rfl⟩

/-- A compiler for the stylesheet `a` in a package that has every stylesheet. -/
def wellStocked : Compiler := ⟨.absolute [['a']], some, .standard⟩

/-- A source with rules and at-rules inside each other, and an import in a block. -/
def layered : Text := "/**/@m\x7b.x \x7ba :1rpx! important;@import 'b'\x7d\x7d@n  p".toList

/-- What it is compiled to. -/
def layeredChunks : List (Chunk Location) :=
  [.text "@m\x7b.x\x7ba :".toList, .pixel 1, .text " ! important;".toList,
    .nested (.absolute [['b']]), .text "\x7d\x7d@n p;".toList]

theorem compile_writes_visits_layered :
    ∃ compiled, (wellStocked.compile layered).value = .ok compiled ∧
      compiled.chunks = layeredChunks ∧ ∃ document, ∃ visits : List Visit,
      Document.parse layered = .ok document ∧ visits.Pairwise Visit.Before ∧
        Chunk.flatten layeredChunks = visits.flatMap (Visit.symbols wellStocked) := by
  obtain ⟨compiled, hcompiled⟩ :=
    Outcome.exists_of_isOk (x := (wellStocked.compile layered).value) (by decide +kernel)
  have hchunks : (wellStocked.compile layered).value.toOption.map Compiled.chunks =
      some layeredChunks := by
    decide +kernel
  rw [hcompiled] at hchunks
  have hchunks : compiled.chunks = layeredChunks := Option.some.inj hchunks
  obtain ⟨document, visits, hparse, horder, -, hflatten, -⟩ :=
    compile_writes_visits _ rfl _ _ hcompiled
  exact ⟨compiled, hcompiled, hchunks, document, visits, hparse, horder, hchunks ▸ hflatten⟩

/-- An import with a block, and a rule in that block. -/
def crowded : Text := "@import 'b'\x7b.x\x7b\x7d\x7d".toList

/-- The rule is in the tree, but all that is compiled is a reference. -/
theorem lost_block : ∃ document compiled, Document.parse crowded = .ok document ∧
    (wellStocked.compile crowded).value = .ok compiled ∧
    (Node.at? document.nodes [0, 0]).map Node.pieces =
      some [.opening (.rule ".x".toList), .closing] ∧
    compiled.chunks = [.nested (.absolute [['b']])] := by
  obtain ⟨document, hparse⟩ :=
    Outcome.exists_of_isOk (x := Document.parse crowded) (by decide +kernel)
  obtain ⟨compiled, hcompiled⟩ :=
    Outcome.exists_of_isOk (x := (wellStocked.compile crowded).value) (by decide +kernel)
  have hrule : ((Document.parse crowded).toOption.bind fun document =>
      (Node.at? document.nodes [0, 0]).map Node.pieces) =
        some [.opening (.rule ".x".toList), .closing] := by
    decide +kernel
  have hchunks : (wellStocked.compile crowded).value.toOption.map Compiled.chunks =
      some [.nested (.absolute [['b']])] := by
    decide +kernel
  rw [hparse] at hrule
  rw [hcompiled] at hchunks
  exact ⟨document, compiled, hparse, hcompiled, hrule, Option.some.inj hchunks⟩

end Compiler

end MiniSheet
