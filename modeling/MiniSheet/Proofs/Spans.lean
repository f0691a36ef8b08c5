import MiniSheet.Proofs.OwnTexts

/-!
# Spans

A span says where a node was read from. The text that it addresses is the text of the node: read on
its own it gives this node and nothing else, moved to the start. Only declarations come back
changed, since the semicolon that ends a declaration lies outside of its span (`Declaration.alone`).

The spans of nodes lie as the nodes do: in the span of the document or of the block around them, one
behind the other (`Document.spans_address_nodes`).
-/

namespace MiniSheet

open Text

namespace Document

variable {here : Position} {t source : Text} {node : Node} {nodes : List Node} {document : Document}
  {outer : Span}

/-- The node is what the text holds. -/
theorem Owns.parse {own : Text} (h : Owns here node own) : ∃ read,
    parse own = .ok ⟨[read], ⟨.start, Position.start.advance own⟩⟩ ∧
      read.moved (Position.shift here) = node.alone := by
  obtain ⟨nodes, hparse, hmoved⟩ := parse_of_holds h.holds
  rw [Node.movedAll_eq_map] at hmoved
  obtain ⟨read, rfl, hread⟩ := List.map_eq_singleton_iff.1 hmoved
  exact ⟨read, hparse, hread⟩

/-- Nodes stand behind the place where their text starts. -/
theorem Holds.le_start (h : Holds here t nodes) (hmem : node ∈ nodes) : here ≤ node.span.start := by
  obtain ⟨front, own, back, -, -, howns⟩ := h.exists_owns hmem
  rw [howns.span]
  exact Position.le_advance here front

/-- Nodes stand one behind the other. -/
theorem Holds.pairwise (h : Holds here t nodes) :
    nodes.Pairwise fun node next => node.span.stop ≤ next.span.start := by
  induction nodes generalizing here t with
  | nil => exact .nil
  | cons node nodes ih =>
    obtain ⟨front, own, gap, rest, hcut⟩ := h.exists_cut
    refine .cons (fun next hnext => ?_) (ih hcut.holds)
    calc node.span.stop
      _ = here.advance (front ++ own) := by rw [hcut.owns.span, Position.advance_append]
      _ ≤ here.advance (front ++ (own ++ gap)) := by
        refine Position.advance_le_advance here ?_
        rw [← List.append_assoc]
        exact List.prefix_append ..
      _ ≤ next.span.start := hcut.holds.le_start hnext

/-- The span of a node at some level of a document lies in the span around it, and addresses the
text of the node. -/
theorem Level.exists_slice (h : parse source = .ok document) (hlevel : document.Level outer nodes)
    (hmem : node ∈ nodes) :
    outer.start ≤ node.span.start ∧ node.span.stop ≤ outer.stop ∧
      Owns node.span.start node (node.span.slice source) := by
  obtain ⟨front, part, back, rfl, -, hholds, hstart, hstop⟩ := hlevel.exists_holds h
  obtain ⟨before, own, behind, rfl, -, howns⟩ := hholds.exists_owns hmem
  have hspan : node.span =
      ⟨Position.start.advance (front ++ before),
        Position.start.advance (front ++ before ++ own)⟩ := by
    rw [howns.span, Position.advance_append, Position.advance_append, Position.advance_append]
  have hslice : node.span.slice (front ++ (before ++ (own ++ behind) ++ back)) = own := by
    have htext : front ++ (before ++ (own ++ behind) ++ back) =
        front ++ before ++ (own ++ (behind ++ back)) := by simp
    rw [htext, hspan, Span.slice_append]
  refine ⟨?_, ?_, ?_⟩
  · rw [howns.span]
    exact hstart.trans (Position.le_advance ..)
  · rw [hspan]
    exact (Position.advance_le_advance _ ⟨behind, by simp⟩).trans hstop
  · rw [hslice, howns.span]
    exact howns

/-- **Spans are honest.** The span of a document is the whole source. At every level of the tree the
spans of nodes have something in them, lie in the span of what is around and do not run into each
other. And the part of the source that the span of a node addresses can be read on its own: it gives
this very node, moved to the start, but for the semicolon of a declaration and the blanks behind a
colon that nothing follows. -/
theorem spans_address_nodes (source : Text) (document : Document)
    (h : parse source = .ok document) :
    document.span = ⟨.start, Position.start.advance source⟩ ∧
      ∀ outer nodes, document.Level outer nodes →
        (nodes.Pairwise fun node next => node.span.stop ≤ next.span.start) ∧
          ∀ node ∈ nodes, node.span.start < node.span.stop ∧
            outer.start ≤ node.span.start ∧ node.span.stop ≤ outer.stop ∧
            ∃ read span, parse (node.span.slice source) = .ok ⟨[read], span⟩ ∧
              read.moved (Position.shift node.span.start) = node.alone := by
  refine ⟨(holds_of_parse h).2, fun outer nodes hlevel => ⟨?_, fun node hmem => ?_⟩⟩
  · obtain ⟨front, part, back, -, -, hholds, -⟩ := hlevel.exists_holds h
    exact hholds.pairwise
  · obtain ⟨hstart, hstop, howns⟩ := hlevel.exists_slice h hmem
    obtain ⟨read, hparse, hmoved⟩ := howns.parse
    refine ⟨?_, hstart, hstop, read, _, hparse, hmoved⟩
    conv_rhs => rw [howns.span]
    exact Position.lt_advance howns.ne_nil

/-- A block with a declaration in it that has no value, over two lines. -/
def vacant : Text := "@media x \x7b\n  a: ;b:c !important \x7d".toList

/-- The span of that declaration ends behind the colon. Read on its own, it has lost its semicolon
and the blank in front of that. -/
theorem spans_address_nodes_vacant : ∃ document outer nodes node, parse vacant = .ok document ∧
    document.Level outer nodes ∧ node ∈ nodes ∧ node.span = ⟨⟨2, 3⟩, ⟨2, 5⟩⟩ ∧
    node = .leaf (.declaration ⟨['a'], [':', ' '], [], none, true⟩) node.span ∧
    ∃ read span, parse ['a', ':'] = .ok ⟨[read], span⟩ ∧ read.moved (Position.shift ⟨2, 3⟩) =
      .leaf (.declaration ⟨['a'], [':'], [], none, false⟩) ⟨⟨2, 3⟩, ⟨2, 5⟩⟩ := by
  have htokens : (Token.readAll .start vacant).tokens =
      [.opening (.atRule "media".toList ['x']) ⟨1, 1⟩,
        .leaf (.declaration ⟨['a'], [':', ' '], [], none, true⟩) ⟨⟨2, 3⟩, ⟨2, 5⟩⟩,
        .leaf (.declaration ⟨['b'], [':'], ['c'], some "!important".toList, false⟩)
        ⟨⟨2, 7⟩, ⟨2, 21⟩⟩, .closing ⟨2, 22⟩] := by
    decide +kernel
  have hending : (Token.readAll .start vacant).ending = .ok ⟨2, 23⟩ := by decide +kernel
  have hparse : parse vacant = .ok ⟨[.block (.atRule "media".toList ['x'])
      [.leaf (.declaration ⟨['a'], [':', ' '], [], none, true⟩) ⟨⟨2, 3⟩, ⟨2, 5⟩⟩,
        .leaf (.declaration ⟨['b'], [':'], ['c'], some "!important".toList, false⟩)
          ⟨⟨2, 7⟩, ⟨2, 21⟩⟩]
      ⟨⟨1, 1⟩, ⟨2, 23⟩⟩], ⟨⟨1, 1⟩, ⟨2, 23⟩⟩⟩ := by
    rw [parse, htokens, hending]
    rfl
  refine ⟨_, _, _, _, hparse, .block .top List.mem_cons_self, List.mem_cons_self, rfl, rfl, ?_⟩
  obtain ⟨-, hspans⟩ := spans_address_nodes vacant _ hparse
  exact ((hspans _ _ (.block .top List.mem_cons_self)).2 _ List.mem_cons_self).2.2.2

end Document

end MiniSheet
