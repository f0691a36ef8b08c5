import MiniSheet.Proofs.Output
import MiniSheet.Proofs.RenderAgreement

/-!
# The output means what the source meant

Compiling and rendering a stylesheet without imports gives a text that is a stylesheet again, with
the same tree: but for comments, which are gone, and for device-relative lengths, which are pixels
now (`Package.render_keeps_meaning`).

The two trees are compared piece by piece. The pieces of a source are well-formed and orderly; with
its lengths replaced a declaration stays well-formed, and leaving comments out never puts anything
behind a declaration without a semicolon. So the pieces of the output can be read back, and pieces
decide the tree.
-/

namespace MiniSheet

open Text

namespace Piece

variable {pixels : Float → Text} {piece piece' : Piece} {pieces : List Piece}

/-- What is rendered can be read back. -/
theorem legible_of_rewrite (hpixels : ∀ raw, (pixels raw).IsPixels) (hform : piece.WellFormed)
    (hregular : piece.isRegular = true) (h : piece.rewrite (Leaf.rendered pixels) = some piece') :
    piece'.Legible := by
  cases piece with
  | leaf content =>
    cases content with
    | declaration content =>
      obtain rfl := Option.some.inj h
      refine ⟨Declaration.WellFormed.rewrite hform hpixels, ?_, rfl⟩
      have hvalue : Rpx.rewrite pixels content.value = [] → content.value = [] :=
        Rpx.rewrite_eq_nil hpixels
      simp only [isRegular, Leaf.isRegular, Bool.or_eq_true, Bool.not_eq_true',
        List.isEmpty_eq_false_iff] at hregular ⊢
      exact hregular.imp_left fun hne => mt hvalue hne
    | atRule name params =>
      obtain rfl := Option.some.inj h
      exact ⟨hform, hregular, rfl⟩
    | comment content => cases h
  | opening head =>
    obtain rfl := Option.some.inj h
    exact ⟨hform, hregular, rfl⟩
  | closing =>
    obtain rfl := Option.some.inj h
    exact ⟨hform, hregular, rfl⟩

/-- Semicolons are kept. -/
theorem isOpenEnded_of_rewrite (h : piece.rewrite (Leaf.rendered pixels) = some piece') :
    piece'.isOpenEnded = piece.isOpenEnded := by
  cases piece with
  | leaf content =>
    cases content with
    | declaration content | atRule name params =>
      obtain rfl := Option.some.inj h
      rfl
    | comment content => cases h
  | opening head | closing =>
    obtain rfl := Option.some.inj h
    rfl

/-- Leaving out comments does not move anything behind a declaration without a semicolon. -/
theorem Orderly.rewrite (h : Orderly pieces) :
    Orderly (pieces.filterMap (Piece.rewrite (Leaf.rendered pixels))) := by
  induction pieces with
  | nil => exact h
  | cons piece pieces ih =>
    obtain ⟨hfirst, hrest⟩ := h
    rcases hpiece : piece.rewrite (Leaf.rendered pixels) with _ | piece'
    · rw [List.filterMap_cons_none hpiece]
      exact ih hrest
    · rw [List.filterMap_cons_some hpiece]
      refine ⟨fun hopen following hfollowing => ?_, ih hrest⟩
      rw [isOpenEnded_of_rewrite hpiece] at hopen
      cases pieces with
      | nil => cases hfollowing
      | cons next pieces =>
        -- a closing brace is never left out
        obtain rfl := hfirst hopen next rfl
        exact (Option.some.inj hfollowing).symm

end Piece

/-- The pieces of a source are well-formed and orderly. -/
theorem Document.wellFormed_of_parse {source : Text} {document : Document}
    (h : parse source = .ok document) :
    (∀ piece ∈ Node.piecesAll document.nodes, piece.WellFormed) ∧
      Piece.Orderly (Node.piecesAll document.nodes) := by
  obtain ⟨⟨stop, hstop⟩, hpieces⟩ := pieces_of_parse h
  rw [← hpieces]
  exact Token.wellFormed_of_readAll hstop

/-- **What is rendered is read back**: the same tree, but for comments and lengths. -/
theorem Document.parse_render {pixels : Float → Text} (hpixels : ∀ raw, (pixels raw).IsPixels)
    {source : Text} {document : Document} (h : parse source = .ok document)
    (hregular : ∀ piece ∈ Node.piecesAll document.nodes, piece.isRegular = true) :
    ∃ rendered, parse (Piece.render pixels (Node.piecesAll document.nodes)) = .ok rendered ∧
      Node.unplacedAll rendered.nodes =
        Node.unplacedAll (Node.rewriteAll (Leaf.rendered pixels) document.nodes) := by
  obtain ⟨hform, horder⟩ := wellFormed_of_parse h
  have hlegible : ∀ piece ∈ Node.piecesAll (Node.rewriteAll (Leaf.rendered pixels) document.nodes),
      piece.Legible := by
    intro piece hmem
    rw [Node.piecesAll_rewriteAll] at hmem
    obtain ⟨before, hbefore, hpiece⟩ := List.mem_filterMap.1 hmem
    exact Piece.legible_of_rewrite hpixels (hform before hbefore) (hregular before hbefore) hpiece
  have horder :
      Piece.Orderly (Node.piecesAll (Node.rewriteAll (Leaf.rendered pixels) document.nodes)) := by
    rw [Node.piecesAll_rewriteAll]
    exact horder.rewrite
  obtain ⟨tokens, stop, hread, hpieces⟩ := Token.readAll_write hlegible horder .start
  rw [Node.piecesAll_rewriteAll] at hread
  exact parse_of_pieces hread hpieces

namespace Package

variable {p : Package} {profile : Profile} {path : Text} {sheet : Sheet} {document : Document}

/-- A stylesheet without imports compiles to its pieces. -/
theorem compiledOf_of_parse (hstandard : p.transforms = .standard)
    (hparse : Document.parse (sheet.source.getD []) = .ok document)
    (hregular : ∀ piece ∈ Node.piecesAll document.nodes, piece.isRegular = true)
    (pixels : Float → Text) :
    (p.compiledOf sheet).imports = [] ∧
      (p.compiledOf sheet).chunks.flatMap (Chunk.write pixels) =
        Piece.render pixels (Node.piecesAll document.nodes) := by
  have hwrites : Production.Writes pixels (Piece.render pixels (Node.piecesAll document.nodes))
      ((p.compiler sheet).produce (sheet.source.getD [])) := by
    rw [Compiler.produce, hparse]
    exact Compiler.writes_produceNodes hstandard .root
      (Document.wellFormed_of_parse hparse).1 hregular
  have hcompiled : p.compiledOf sheet = ⟨((p.compiler sheet).produce (sheet.source.getD [])).chunks,
      ((p.compiler sheet).produce (sheet.source.getD [])).imports⟩ := by
    rw [compiledOf, compileSheet, Compiler.compile]
    dsimp only
    rw [hwrites.failure]
    rfl
  rw [hcompiled]
  exact ⟨hwrites.imports, by rw [Production.flatMap_write_chunks, hwrites.written]⟩

/-- A stylesheet without imports is rendered to its pieces. -/
theorem Consistent.render_compileAll (h : p.Consistent) (hstandard : p.transforms = .standard)
    (hsheet : p.get? path = some sheet)
    (hparse : Document.parse (sheet.source.getD []) = .ok document)
    (hregular : ∀ piece ∈ Node.piecesAll document.nodes, piece.isRegular = true) :
    (p.compileAll.value.1.render profile path).value =
      .ok (Piece.render (p.renderPixels profile) (Node.piecesAll document.nodes)) := by
  obtain ⟨himports, hchunks⟩ :=
    compiledOf_of_parse hstandard hparse hregular (p.renderPixels profile)
  have htargets : Chunk.targets (p.compiledOf sheet).chunks = [] := by
    rw [(h.faithful_compiledOf sheet).targets_eq, himports]
    rfl
  have hat : p.compileAll.value.1.at? (.ofText path) = some (p.recompiled sheet) := by
    rw [at?_compileAll]
    exact congrArg (Option.map p.recompiled) hsheet
  have hpixels : p.compileAll.value.1.renderPixels profile = p.renderPixels profile := rfl
  rw [value_render, renderAt, renderIn_of_not_mem_active hat List.not_mem_nil]
  change p.compileAll.value.1.renderChunks profile _ (p.compiledOf sheet).chunks = _
  rw [renderChunks_of_targets htargets, hpixels, hchunks]

/-- **The output means what the source meant.** Let a stylesheet be part of a package, whatever was
done with the package, and let its source be read, with no import in its tree, no selector that
starts like an at-rule or a comment, and no marked declaration without a value. Then it compiles and
renders for every device, the output can be read, and its tree is that of the source without the
comments and with rendered values, up to places. -/
theorem render_keeps_meaning (root : Text) (options : Options) (operations : List Operation)
    (profile : Profile) (path : Text) (sheet : Sheet) (document : Document)
    (hsheet : ((Package.empty root options .standard).performAll operations).get? path = some sheet)
    (hparse : Document.parse (sheet.source.getD []) = .ok document)
    (hregular : ∀ piece ∈ Node.piecesAll document.nodes, piece.isRegular = true) :
    let p := (Package.empty root options .standard).performAll operations
    ∃ css rendered, (p.compileAll.value.1.render profile path).value = .ok css ∧
      Document.parse css = .ok rendered ∧
      Node.unplacedAll rendered.nodes = Node.unplacedAll
        (Node.rewriteAll (Leaf.rendered (p.renderPixels profile)) document.nodes) := by
  intro p
  have hconsistent : p.Consistent :=
    consistent_performAll (Transforms.plain_of_stock (.inl rfl) rfl) root options operations
  have hstandard : p.transforms = .standard :=
    transforms_performAll .standard root options operations
  obtain ⟨rendered, hrendered, hnodes⟩ :=
    Document.parse_render (p.isPixels_renderPixels profile) hparse hregular
  exact ⟨_, rendered, hconsistent.render_compileAll hstandard hsheet hparse hregular,
    hrendered, hnodes⟩

/-- A source with comments between and inside statements, lengths in code and in a string, a marker
with a blank in it, and a declaration that only a brace ends. -/
def motley : Text :=
  "/*a*/@m (b) \x7b .c \x7bd: e(1rpx /*;*/ + 2px) ! important;/**/f :'3rpx' -.4rpx\x7d\x7d".toList

/-- A package with that source. -/
def motleyHistory : List Operation := [.insert ['a'] (some motley)]

/-- Its tree has eight pieces, two of them comments, and the output has the other six. -/
theorem render_keeps_meaning_motley :
    let p := (Package.empty ['/'] {} .standard).performAll motleyHistory
    ∃ document, Document.parse motley = .ok document ∧ (Node.piecesAll document.nodes).length = 8 ∧
      (∀ piece ∈ Node.piecesAll document.nodes, piece.isRegular = true) ∧
      ∃ css rendered, (p.compileAll.value.1.render (.ofMetrics {}) ['a']).value = .ok css ∧
        Document.parse css = .ok rendered ∧
        Node.unplacedAll rendered.nodes =
          Node.unplacedAll
            (Node.rewriteAll (Leaf.rendered (p.renderPixels (.ofMetrics {}))) document.nodes) := by
  intro p
  have hcheck : ((Document.parse motley).toOption.map fun document =>
      ((Node.piecesAll document.nodes).length,
        (Node.piecesAll document.nodes).all Piece.isRegular)) = some (8, true) := by
    decide +kernel
  obtain ⟨sheet, hsheet, hsource⟩ : ∃ sheet, p.get? ['a'] = some sheet ∧
      sheet.source = some motley := ⟨_, rfl, rfl⟩
  rcases hparse : Document.parse motley with error | document
  · rw [hparse] at hcheck
    cases hcheck
  · rw [hparse] at hcheck
    obtain ⟨hlength, hregular⟩ := Prod.mk.inj (Option.some.inj hcheck)
    have hregular := List.all_eq_true.1 hregular
    refine ⟨document, rfl, hlength, hregular, ?_⟩
    exact render_keeps_meaning ['/'] {} motleyHistory (.ofMetrics {}) ['a'] sheet document hsheet
      (by rw [hsource]; exact hparse) hregular

end Package

end MiniSheet
