import MiniSheet.Proofs.Inlining
import MiniSheet.Proofs.OwnTexts

/-!
# The form of documents

Pieces that were read have a certain form (`Piece.WellFormed`), and a declaration without a
semicolon stands in front of a closing brace or at the end (`Piece.Orderly`). The pieces of each
level of a tree stand together in the tree (`Document.Level.exists_pieces`), so the same can be said
of nodes: all of them have the form of their kind, and a declaration without a semicolon is the last
of its siblings.

A marker is looked for from the end of a value, without regard to strings, comments and brackets.
Since none of these is open in front of a declaration (`Document.Level.exists_holds`), nor at its
end, its exclamation mark is never inside of one (`Document.Level.exists_marker`).
-/

namespace MiniSheet

open Text

/-- The form of nodes, apart from their children. There are five kinds. -/
inductive Node.WellFormed : Node → Prop where
  /-- a rule -/
  | rule {selector : Text} {children : List Node} {span : Span} (h : Rule.WellFormed selector) :
    WellFormed (.block (.rule selector) children span)
  /-- an at-rule with a block -/
  | atRule {name params : Text} {children : List Node} {span : Span}
    (h : AtRule.WellFormed name params) :
    WellFormed (.block (.atRule name params) children span)
  /-- an at-rule without a block -/
  | statement {name params : Text} {span : Span} (h : AtRule.WellFormed name params) :
    WellFormed (.leaf (.atRule name params) span)
  /-- a declaration -/
  | declaration {d : Declaration} {span : Span} (h : d.WellFormed) :
    WellFormed (.leaf (.declaration d) span)
  /-- a comment -/
  | comment {content : Text} {span : Span} : WellFormed (.leaf (.comment content) span)

theorem Node.wellFormed_of_pieces {node : Node} (h : ∀ piece ∈ node.pieces, piece.WellFormed) :
    node.WellFormed := by
  cases node with
  | leaf content span =>
    have hcontent : content.WellFormed := h (.leaf content) (by simp [pieces])
    cases content with
    | declaration d => exact .declaration hcontent
    | atRule name params => exact .statement hcontent
    | comment content => exact .comment
  | block head children span =>
    have hhead : head.WellFormed := h (.opening head) (by simp [pieces])
    cases head with
    | rule selector => exact .rule hhead
    | atRule name params => exact .atRule hhead

/-- In front of a marker nothing is open. -/
theorem Declaration.exists_front_of_marker {own marker : Text} {terminated : Bool} {d : Declaration}
    (hread : read? own terminated = some d) (hsealed : Sealed own) (htrim : trimEnd own = own)
    (hmarker : d.marker = some marker) : ∃ front, own = front ++ marker ∧ Sealed front := by
  obtain ⟨front, back, rest, rfl, -, -, -, -, -, -, hsplit, -⟩ := parts_of_read? hread
  have hrest : trimEnd rest = rest := by
    refine trimEnd_of_last fun c hc => ?_
    have hlast := last_trimEnd (t := d.property ++ (front ++ ':' :: (back ++ rest))) c
    rw [htrim] at hlast
    refine hlast ?_
    rw [← List.cons_append, ← List.append_assoc, ← List.append_assoc, List.getLast?_append, hc]
    rfl
  rw [hrest, hmarker] at hsplit
  rcases unmarked_or_marked rest with hunmarked | ⟨before, word, rfl, hword⟩
  · rw [splitMarker_of_unmarked hunmarked] at hsplit
    cases (Prod.mk.inj hsplit).2
  · rw [splitMarker_append hword] at hsplit
    obtain rfl := Option.some.inj (Prod.mk.inj hsplit).2
    have htext : d.property ++ (front ++ ':' :: (back ++ (before ++ '!' :: word))) =
        d.property ++ (front ++ ':' :: (back ++ before)) ++ '!' :: word := by simp
    rw [htext] at hsealed ⊢
    refine ⟨_, rfl, hsealed.of_append_plain fun c hc => ?_⟩
    rcases List.mem_cons.1 hc with rfl | hc
    · rfl
    · exact hword.isPlain hc

namespace Document

variable {source : Text} {document : Document} {outer : Span} {nodes : List Node}

/-- The pieces of a level stand together in the document. -/
theorem Level.exists_pieces (h : document.Level outer nodes) :
    ∃ front back, Node.piecesAll document.nodes = front ++ (Node.piecesAll nodes ++ back) := by
  induction h with
  | top => exact ⟨[], [], by simp⟩
  | @block _ _ head children _ _ hmem ih =>
    obtain ⟨front, back, hpieces⟩ := ih
    obtain ⟨before, behind, hnode⟩ := Node.piecesAll_of_mem hmem
    refine ⟨front ++ (before ++ [.opening head]), .closing :: (behind ++ back), ?_⟩
    rw [hpieces, hnode, Node.pieces]
    simp

/-- **Outside of strings, comments and brackets**: the exclamation mark of a marker, which stands at
the end of its declaration. -/
theorem Level.exists_marker (h : parse source = .ok document) (hlevel : document.Level outer nodes)
    {d : Declaration} {span : Span} {marker : Text} (hmem : Node.leaf (.declaration d) span ∈ nodes)
    (hmarker : d.marker = some marker) :
    ∃ front back, source = front ++ (marker ++ back) ∧
      Position.start.advance (front ++ marker) = span.stop ∧ Outside front ∧
      (Depth.start.after front).closers = [] := by
  obtain ⟨front, part, back, rfl, hfree, hholds, -⟩ := hlevel.exists_holds h
  obtain ⟨before, own, behind, rfl, hbefore, howns⟩ := hholds.exists_owns hmem
  obtain ⟨hsealed, htrim, hread⟩ := howns.declared d span rfl
  obtain ⟨inner, rfl, hinner⟩ := Declaration.exists_front_of_marker hread hsealed htrim hmarker
  obtain rfl := howns.span
  have hopen : Depth.start.after (front ++ before ++ inner) = Depth.start.after inner := by
    rw [Depth.after_append, Depth.after_append, hfree, hbefore]
  obtain ⟨hcode, hclosers⟩ := Bool.and_eq_true_iff.1 (Depth.isFree_after_of_sealed hinner)
  rw [← hopen] at hcode hclosers
  refine ⟨front ++ before ++ inner, behind ++ back, by simp, ?_, ?_, List.isEmpty_iff.1 hclosers⟩
  · simp only [Position.advance_append]
  · rw [Depth.zone_after] at hcode
    exact outside_iff.2 hcode

/-- **Documents are well-formed** at every level: all nodes have the form of their kind, a
declaration without a semicolon is the last one of its list, and the exclamation mark of a marker is
outside of all strings, comments and brackets of the source. -/
theorem wellFormed_at_every_level (source : Text) (document : Document)
    (h : parse source = .ok document) (outer : Span) (nodes : List Node)
    (hlevel : document.Level outer nodes) :
    (∀ node ∈ nodes, node.WellFormed) ∧
      (∀ front d span back, nodes = front ++ .leaf (.declaration d) span :: back →
        d.terminated = false → back = []) ∧
      ∀ d span marker, .leaf (.declaration d) span ∈ nodes → d.marker = some marker →
        ∃ front back, source = front ++ (marker ++ back) ∧
          Position.start.advance (front ++ marker) = span.stop ∧ Outside front ∧
          (Depth.start.after front).closers = [] := by
  obtain ⟨hform, horder⟩ := wellFormed_of_parse h
  obtain ⟨front, back, hpieces⟩ := hlevel.exists_pieces
  rw [hpieces] at hform horder
  refine ⟨fun node hmem => ?_, ?_,
    fun d span marker hmem hmarker => hlevel.exists_marker h hmem hmarker⟩
  · obtain ⟨before, behind, hnode⟩ := Node.piecesAll_of_mem hmem
    exact Node.wellFormed_of_pieces fun piece hpiece => hform piece (by simp [hnode, hpiece])
  · rintro before d span behind rfl hloose
    by_contra hne
    have horder' := horder.of_append
    rw [Node.piecesAll_append, List.append_assoc, Node.piecesAll, List.append_assoc] at horder'
    have hnot := Node.isLoose_of_orderly horder'.of_append hne
    rw [Node.isLoose, hloose] at hnot
    cases hnot

/-- Exclamation marks in a string, in brackets, in a comment, and one in front of a marker. -/
def emphatic : Text :=
  "p[q=\"!\"]\x7bs:t;r: url(! important) /* ! important */ ! Important\x7d".toList

/-- Only the last one belongs to a marker. Its declaration has no semicolon, and nothing stands
behind it. -/
theorem wellFormed_at_every_level_emphatic :
    ∃ document outer first d span, parse emphatic = .ok document ∧
    document.Level outer [first, .leaf (.declaration d) span] ∧ d.WellFormed ∧
    d.terminated = false ∧ d.marker = some "! Important".toList ∧
    ∃ front back, emphatic = front ++ ("! Important".toList ++ back) ∧
      Position.start.advance (front ++ "! Important".toList) = ⟨1, 63⟩ ∧ Outside front ∧
      (Depth.start.after front).closers = [] := by
  have htokens : (Token.readAll .start emphatic).tokens =
      [.opening (.rule "p[q=\"!\"]".toList) ⟨1, 1⟩,
        .leaf (.declaration ⟨['s'], [':'], ['t'], none, true⟩) ⟨⟨1, 10⟩, ⟨1, 13⟩⟩,
        .leaf (.declaration ⟨['r'], [':', ' '], "url(! important) /* ! important */".toList,
          some "! Important".toList, false⟩) ⟨⟨1, 14⟩, ⟨1, 63⟩⟩,
        .closing ⟨1, 63⟩] := by
    decide +kernel
  have hending : (Token.readAll .start emphatic).ending = .ok ⟨1, 64⟩ := by decide +kernel
  have hparse : parse emphatic = .ok ⟨[.block (.rule "p[q=\"!\"]".toList)
      [.leaf (.declaration ⟨['s'], [':'], ['t'], none, true⟩) ⟨⟨1, 10⟩, ⟨1, 13⟩⟩,
        .leaf (.declaration ⟨['r'], [':', ' '], "url(! important) /* ! important */".toList,
          some "! Important".toList, false⟩) ⟨⟨1, 14⟩, ⟨1, 63⟩⟩]
      ⟨⟨1, 1⟩, ⟨1, 64⟩⟩], ⟨⟨1, 1⟩, ⟨1, 64⟩⟩⟩ := by
    rw [parse, htokens, hending]
    rfl
  obtain ⟨hform, -, hmarked⟩ :=
    wellFormed_at_every_level emphatic _ hparse _ _ (.block .top List.mem_cons_self)
  cases hform _ (List.mem_cons_of_mem _ List.mem_cons_self) with
  | declaration hd =>
    exact ⟨_, _, _, _, _, hparse, .block .top List.mem_cons_self, hd, rfl, rfl,
      hmarked _ _ _ (List.mem_cons_of_mem _ List.mem_cons_self) rfl⟩

end Document

end MiniSheet
