import MiniSheet.Proofs.Classification
import MiniSheet.Proofs.RoundTrip
import MiniSheet.Proofs.SelfContained
import MiniSheet.Proofs.Splicing

/-!
# What inlining does to the text around it

An import is replaced by the text of the imported stylesheet, and nothing is put between that and
its neighbours. Mostly this does no harm: the output of a stylesheet is read as the outputs of its
nodes, one behind the other, where the output of an import is that of the imported stylesheet
(`Package.render_splices`).

It does harm where the imported text ends with a declaration without a semicolon and something is
written behind it, because the declaration then goes on with what follows (`Package.merged_render`).
So imports are required to end with a semicolon or a closing brace unless nothing is written behind
them (`Node.Spaced`).

The proof follows the tree. Every node writes a text that is read in the same way wherever it stands
(`Package.reads_renderNode`): statements and heads because they are sealed, imported texts because
they can be read, and blocks because what stands between their braces is made of such texts.
-/

namespace MiniSheet

open Text Token Outcome

/-! ## Imports and what follows them -/

theorem Piece.Orderly.of_append {front back : List Piece} (h : Orderly (front ++ back)) :
    Orderly back := by
  induction front with
  | nil => exact h
  | cons piece front ih => exact ih h.2

namespace Node

/-- Whether a node is a comment. -/
def isComment : Node → Bool
  | leaf (.comment _) _ => true
  | _ => false

/-- Whether a node is a declaration without a semicolon. -/
def isLoose : Node → Bool
  | leaf (.declaration content) _ => !content.terminated
  | _ => false

/-- Imports end properly if something is written behind them. -/
def Spaced (ends : ImportSite → Prop) (silent : Node → Prop) : List Node → Prop
  | [] => True
  | node :: nodes =>
    (∀ site ∈ node.import?, (∃ other ∈ nodes, ¬ silent other) → ends site) ∧
      Spaced ends silent nodes

mutual

/-- The same holds at every depth inside a node. The block of an import is never written. -/
def SpacedInside (ends : ImportSite → Prop) (silent : Node → Prop) : Node → Prop
  | leaf _ _ => True
  | block (.rule _) children _ => Spaced ends silent children ∧ SpacedInsideAll ends silent children
  | block (.atRule name _) children _ =>
    name = Compiler.importName ∨ Spaced ends silent children ∧ SpacedInsideAll ends silent children

/-- The same holds at every depth inside nodes. -/
def SpacedInsideAll (ends : ImportSite → Prop) (silent : Node → Prop) : List Node → Prop
  | [] => True
  | node :: nodes => node.SpacedInside ends silent ∧ SpacedInsideAll ends silent nodes

end

theorem spaced_of_ends {ends : ImportSite → Prop} {silent : Node → Prop} (h : ∀ site, ends site)
    (nodes : List Node) : Spaced ends silent nodes := by
  induction nodes with
  | nil => trivial
  | cons node nodes ih => exact ⟨fun site _ _ => h site, ih⟩

mutual

theorem spacedInside_of_ends {ends : ImportSite → Prop} {silent : Node → Prop}
    (h : ∀ site, ends site) :
    (node : Node) → node.SpacedInside ends silent
  | leaf _ _ => by rw [SpacedInside]; trivial
  | block (.rule _) children _ => by
    rw [SpacedInside]
    exact ⟨spaced_of_ends h children, spacedInsideAll_of_ends h children⟩
  | block (.atRule _ _) children _ => by
    rw [SpacedInside]
    exact .inr ⟨spaced_of_ends h children, spacedInsideAll_of_ends h children⟩

theorem spacedInsideAll_of_ends {ends : ImportSite → Prop} {silent : Node → Prop}
    (h : ∀ site, ends site) :
    (nodes : List Node) → SpacedInsideAll ends silent nodes
  | [] => by rw [SpacedInsideAll]; trivial
  | node :: nodes => by
    rw [SpacedInsideAll]
    exact ⟨spacedInside_of_ends h node, spacedInsideAll_of_ends h nodes⟩

end

/-- Nothing can run into what the node writes. -/
def Closes (ends : ImportSite → Prop) (node : Node) : Prop :=
  node.isLoose = false ∧ ∀ site ∈ node.import?, ends site

theorem mem_sites_of_import? {node : Node} {site : ImportSite} (h : node.import? = some site) :
    site ∈ node.sites := by
  rcases eq_of_import? h with rfl | ⟨children, rfl⟩
  · rw [sites, if_pos BEq.rfl]
    exact List.mem_cons_self
  · rw [sites, if_pos BEq.rfl]
    exact List.mem_cons_self

theorem piecesAll_leaves (leaves : List Leaf) (span : Span) :
    piecesAll (leaves.map (leaf · span)) = leaves.map Piece.leaf := by
  induction leaves with
  | nil => rw [List.map_nil, piecesAll, List.map_nil]
  | cons content leaves ih =>
    rw [List.map_cons, piecesAll, pieces, ih, List.map_cons, List.singleton_append]

theorem unplacedAll_eq_map (nodes : List Node) : unplacedAll nodes = nodes.map unplaced := by
  induction nodes with
  | nil => rw [unplacedAll, List.map_nil]
  | cons node nodes ih => rw [unplacedAll, ih, List.map_cons]

theorem unplacedAll_append (front back : List Node) :
    unplacedAll (front ++ back) = unplacedAll front ++ unplacedAll back := by
  simp only [unplacedAll_eq_map, List.map_append]

theorem isLoose_unplaced (node : Node) : node.unplaced.isLoose = node.isLoose := by
  cases node with
  | leaf content span => rw [unplaced]; cases content <;> rfl
  | block head children span => rw [unplaced]; rfl

theorem piecesAll_of_mem {node : Node} {nodes : List Node} (h : node ∈ nodes) :
    ∃ front back, piecesAll nodes = front ++ (node.pieces ++ back) := by
  obtain ⟨front, back, rfl⟩ := List.append_of_mem h
  exact ⟨piecesAll front, piecesAll back, by rw [piecesAll_append, piecesAll]⟩

theorem mem_sitesAll {node : Node} {nodes : List Node} {site : ImportSite} (h : node ∈ nodes)
    (hsite : site ∈ node.sites) : site ∈ sitesAll nodes := by
  induction nodes with
  | nil => cases h
  | cons first nodes ih =>
    rw [sitesAll]
    rcases List.mem_cons.1 h with rfl | h
    · exact List.mem_append_left _ hsite
    · exact List.mem_append_right _ (ih h)

/-- What stands behind a node is no closing brace. -/
theorem head_piecesAll {nodes : List Node} (hne : nodes ≠ []) (tail : List Piece) :
    ∃ piece, (piecesAll nodes ++ tail).head? = some piece ∧ piece ≠ .closing := by
  obtain ⟨node, nodes, rfl⟩ := List.exists_cons_of_ne_nil hne
  rw [piecesAll]
  cases node with
  | leaf content span =>
    rw [pieces]
    exact ⟨.leaf content, rfl, nofun⟩
  | block head children span =>
    rw [pieces]
    exact ⟨.opening head, rfl, nofun⟩

/-- A declaration without a semicolon has nothing behind it in its block. -/
theorem isLoose_of_orderly {node : Node} {nodes : List Node} {tail : List Piece}
    (h : Piece.Orderly (node.pieces ++ (piecesAll nodes ++ tail))) (hne : nodes ≠ []) :
    node.isLoose = false := by
  rcases node with (content | ⟨name, params⟩ | content) | ⟨head, children⟩
  · rw [pieces] at h
    rw [isLoose, Bool.not_eq_false']
    by_contra hopen
    obtain ⟨piece, hhead, hclosing⟩ := head_piecesAll hne tail
    have hnot : content.terminated = false := by simpa using hopen
    exact hclosing (h.1 (by simp [Piece.isOpenEnded, hnot]) piece hhead)
  · rfl
  · rfl
  · rfl

/-- So nodes that are read from a text, up to places, hold such a declaration at their end only. -/
theorem isLoose_of_unplaced {nodes front back : List Node} {node : Node}
    (h : Piece.Orderly (piecesAll nodes))
    (hsame : unplacedAll nodes = unplacedAll (front ++ node :: back)) (hne : back ≠ []) :
    node.isLoose = false := by
  rw [unplacedAll_eq_map, unplacedAll_eq_map, List.map_append, List.map_cons] at hsame
  obtain ⟨front', rest, rfl, -, hrest⟩ := List.map_eq_append_iff.1 hsame
  obtain ⟨node', back', rfl, hnode, hback⟩ := List.map_eq_cons_iff.1 hrest
  have hne' : back' ≠ [] := by
    rintro rfl
    exact hne (List.map_eq_nil_iff.1 hback.symm)
  have horder : Piece.Orderly (node'.pieces ++ (piecesAll back' ++ [])) := by
    rw [piecesAll_append, piecesAll] at h
    rw [List.append_nil]
    exact h.of_append
  rw [← isLoose_unplaced node, ← hnode, isLoose_unplaced]
  exact isLoose_of_orderly horder hne'

end Node

/-- What an import resolves to is among the edges. -/
theorem Compiler.Resolved.mem {c : Compiler} {sites : List ImportSite} {edges : List ImportEdge}
    (h : c.Resolved sites edges) {site : ImportSite} {edge : ImportEdge} (hsite : site ∈ sites)
    (hresolve : c.resolveImport site.params site.span = .ok edge) : edge ∈ edges := by
  induction h with
  | nil => cases hsite
  | cons hfirst _ ih =>
    rcases List.mem_cons.1 hsite with rfl | hsite
    · obtain rfl := Except.ok.inj (hresolve.symm.trans hfirst)
      exact List.mem_cons_self
    · exact List.mem_cons_of_mem _ (ih hsite)

/-! ## What nodes write -/

/-- A declaration starts like a statement. -/
theorem Declaration.WellFormed.begins_statement {d : Declaration} (h : d.WellFormed) :
    Begins d.statement := by
  obtain ⟨c, behind, hstatement, hfiller, hc⟩ := Token.exists_cons_statement h
  rw [hstatement]
  refine ⟨List.cons_ne_nil _ _, fun first hfirst => ?_, fun hcomment => ?_⟩
  · obtain rfl := Option.some.inj hfirst
    exact hfiller
  · obtain ⟨rfl, -⟩ := List.cons_prefix_cons.1 hcomment
    exact hc List.mem_cons_self

/-- The head of an at-rule leaves nothing open and starts like one. -/
theorem AtRule.WellFormed.sealed_head {name params : Text} (h : AtRule.WellFormed name params) :
    Sealed (Compiler.atRuleHead name params) ∧ Begins (Compiler.atRuleHead name params) := by
  constructor
  · rw [Compiler.atRuleHead]
    refine (sealed_append_iff (s := '@' :: name) fun c hc => .inl ?_).2 ?_
    · rcases List.mem_cons.1 hc with rfl | hc
      · rfl
      · exact isPlain_of_isNameChar (h.name c hc)
    · split
      · exact sealed_nil
      · exact (sealed_append_iff (s := [' ']) (by simp; decide)).2 h.params_sealed
  · refine ⟨List.cons_ne_nil _ _, fun first hfirst => ?_, fun hcomment => ?_⟩
    · obtain rfl := Option.some.inj hfirst
      decide
    · cases (List.cons_prefix_cons.1 hcomment).1

namespace Package

variable {p : Package} {profile : Profile} {c : Compiler} {context : Context} {t css : Text}

/-- With the standard transforms only imports refer to other stylesheets. -/
theorem faithful_of_standard (hc : c.transforms = .standard) :
    c.WalkInvariant fun _ production => production.Faithful fun _ => True :=
  Compiler.walkInvariant_faithful (hc ▸ Transforms.plain_of_stock (.inl rfl) rfl)
    fun _ _ _ => trivial

theorem renderProduction_of_writes {production : Production}
    (hfaithful : production.Faithful fun _ => True)
    (h : production.Writes (p.renderPixels profile) t) :
    p.renderProduction profile production = .ok t := by
  have htargets : Chunk.targets production.chunks = [] := by
    rw [hfaithful.compiled.targets_eq]
    exact congrArg _ h.imports
  rw [renderProduction, renderChunks_of_targets htargets,
    Production.flatMap_write_chunks, h.written]

theorem renderProduction_text (content : Text) :
    p.renderProduction profile (.text content) = .ok content :=
  renderProduction_of_writes (Production.faithful_text content) (Production.writes_text content)

/-- A block is rendered to its head and what stands between its braces. -/
theorem renderProduction_block {head inner : Production}
    (hfailure : (head ++ .text ['{'] ++ inner ++ .text ['}']).failure = none)
    (hhead : p.renderProduction profile head = .ok t)
    (h : p.renderProduction profile (head ++ .text ['{'] ++ inner ++ .text ['}']) = .ok css) :
    inner.failure = none ∧ ∃ body, p.renderProduction profile inner = .ok body ∧
      css = t ++ ['{'] ++ body ++ ['}'] := by
  have hfront := (Production.events_append hfailure).1
  have hopening := (Production.events_append hfront).1
  rw [renderProduction_append hfailure, renderProduction_append hfront,
    renderProduction_append hopening, hhead, renderProduction_text, renderProduction_text] at h
  obtain ⟨front, back, hfront', hback, rfl⟩ := join_eq_ok h
  obtain ⟨first, body, hfirst, hbody, rfl⟩ := join_eq_ok hfront'
  cases hfirst
  cases hback
  exact ⟨(Production.events_append hfront).2.1, body, hbody, rfl⟩

/-- An import that does not fail is rendered to the imported stylesheet. -/
theorem renderProduction_import (p : Package) (profile : Profile) {params : Text} {span : Span}
    (hfailure : (c.produceImport params span).failure = none) :
    ∃ edge, c.resolveImport params span = .ok edge ∧
      p.renderProduction profile (c.produceImport params span) =
        p.renderAt profile edge.target := by
  rw [Compiler.produceImport] at hfailure ⊢
  rcases hresolve : c.resolveImport params span with error | edge
  · rw [hresolve] at hfailure
    cases hfailure
  · refine ⟨edge, rfl, ?_⟩
    rw [renderProduction_eq]
    exact join_nil _

/-- The text that an import is replaced by. -/
def Inlined (p : Package) (profile : Profile) (c : Compiler) (site : ImportSite)
    (css : Text) : Prop :=
  ∃ edge, c.resolveImport site.params site.span = .ok edge ∧
    p.renderAt profile edge.target = .ok css

/-- The text that an import is replaced by can be read. -/
def Readable (p : Package) (profile : Profile) (c : Compiler) (site : ImportSite) : Prop :=
  ∀ css, p.Inlined profile c site css → ∃ document, Document.parse css = .ok document

/-- The text that an import is replaced by is empty or ends with a semicolon or a closing brace. -/
def Ends (p : Package) (profile : Profile) (c : Compiler) (site : ImportSite) : Prop :=
  ∀ css, p.Inlined profile c site css → css.Ended

/-- Nothing is written for a node: it is a comment, or the import of a stylesheet without output. -/
def Silent (p : Package) (profile : Profile) (c : Compiler) (node : Node) : Prop :=
  node.isComment = true ∨ ∃ site ∈ node.import?, p.Inlined profile c site []

/-- A node that is an import is rendered to the text that replaces it. -/
theorem renderProduction_eq_ok_iff_inlined {node : Node} {site : ImportSite}
    (hsite : node.import? = some site) (hfailure : (c.produceNode context node).failure = none) :
    p.renderProduction profile (c.produceNode context node) = .ok css ↔
      p.Inlined profile c site css := by
  rw [Compiler.produceNode_of_import? hsite] at hfailure ⊢
  obtain ⟨edge, hresolve, hrender⟩ := renderProduction_import p profile hfailure
  rw [hrender]
  refine ⟨fun h => ⟨edge, hresolve, h⟩, ?_⟩
  rintro ⟨other, hother, h⟩
  obtain rfl := Except.ok.inj (hresolve.symm.trans hother)
  exact h

/-! ### Leaves -/

/-- A declaration is rendered to a statement that leaves nothing open, and to its semicolon. -/
theorem renderProduction_declaration (hc : c.transforms = .standard) {content : Declaration}
    (hform : content.WellFormed) (span : Span)
    (h : p.renderProduction profile (c.produceNode context (.leaf (.declaration content) span)) =
      .ok css) :
    ∃ statement, Sealed statement ∧ Begins statement ∧
      css = statement ++ if content.terminated then [';'] else [] := by
  have hfaithful :=
    (faithful_of_standard hc).produceNode context (.leaf (.declaration content) span)
  rw [Compiler.produceNode] at h hfaithful
  have hwrites :
      Production.Writes (p.renderPixels profile) _ (c.produceDeclaration context content) :=
    Compiler.writes_produceDeclaration hc context hform
  have hrendered := hform.rewrite (p.isPixels_renderPixels profile)
  refine ⟨_, hrendered.sealed_statement, hrendered.begins_statement, ?_⟩
  rw [← Except.ok.inj ((renderProduction_of_writes hfaithful hwrites).symm.trans h)]
  exact List.append_nil _

/-! ### Blocks -/

/-- The tokens of a forest. -/
def IsForest (tokens : List Token) : Prop := ∃ nodes, tokens.map piece = Node.piecesAll nodes

theorem IsForest.append {front back : List Token} (hfront : IsForest front)
    (hback : IsForest back) : IsForest (front ++ back) := by
  obtain ⟨nodes, hnodes⟩ := hfront
  obtain ⟨nodes', hnodes'⟩ := hback
  exact ⟨nodes ++ nodes', by rw [List.map_append, hnodes, hnodes', Node.piecesAll_append]⟩

theorem isForest_nil : IsForest [] := ⟨[], by rw [Node.piecesAll]; rfl⟩

theorem isForest_leaf {token : Token} {content : Leaf} (h : token.piece = .leaf content) :
    IsForest [token] := by
  refine ⟨[.leaf content ⟨.start, .start⟩], ?_⟩
  rw [List.map_singleton, h, Node.piecesAll_singleton, Node.pieces]

/-- Comments, a head, a forest and a closing brace are a forest again. -/
theorem isForest_block {head body brace : List Token} (hhead : IsHead head) (hbody : IsForest body)
    (hbrace : brace.map piece = [.closing]) : IsForest (head ++ body ++ brace) := by
  obtain ⟨comments, opening, hhead⟩ := hhead
  obtain ⟨nodes, hbody⟩ := hbody
  refine ⟨comments.map (.leaf · ⟨.start, .start⟩) ++ [.block opening nodes ⟨.start, .start⟩], ?_⟩
  rw [Node.piecesAll_append, Node.piecesAll_leaves, Node.piecesAll_singleton, Node.pieces,
    List.map_append, List.map_append, hhead, hbody, hbrace]
  simp

/-- A block is read on its own if what stands between its braces is, in front of a closing brace. -/
theorem reads_block {head body : Text} (hhead : Sealed head) (hbody : Reads Fenced IsForest body) :
    Reads Anything IsForest (head ++ ['{'] ++ body ++ ['}']) := by
  have hopened : Reads Fenced
      (fun tokens => ∃ front back, tokens = front ++ back ∧ IsHead front ∧ IsForest back)
      (head ++ ['{'] ++ body) :=
    (reads_head hhead).append hbody (fun _ _ => trivial)
      fun front back hfront hback => ⟨front, back, rfl, hfront, hback⟩
  refine hopened.append reads_brace (fun rest _ c hc => (Option.some.inj hc).symm) ?_
  rintro _ brace ⟨front, back, rfl, hfront, hback⟩ hbrace
  exact isForest_block hfront hback hbrace

/-! ### Nodes -/

/-- A comment writes nothing. -/
theorem produceNode_of_comment {node : Node} (h : node.isComment = true) :
    c.produceNode context node = .empty := by
  rcases node with ⟨content | ⟨name, params⟩ | content, span⟩ | ⟨head, children, span⟩
  · cases h
  · cases h
  · rw [Compiler.produceNode]
  · cases h

theorem renderProduction_empty : p.renderProduction profile .empty = .ok [] :=
  renderProduction_of_writes Production.faithful_empty Production.writes_empty

theorem renderProduction_of_silent {nodes : List Node} (h : ∀ node ∈ nodes, p.Silent profile c node)
    (hfailure : (c.produceNodes context nodes).failure = none) :
    p.renderProduction profile (c.produceNodes context nodes) = .ok [] := by
  induction nodes with
  | nil => rw [Compiler.produceNodes, renderProduction_empty]
  | cons node nodes ih =>
    rw [Compiler.produceNodes] at hfailure ⊢
    obtain ⟨hfirst, hrest, -⟩ := Production.events_append hfailure
    have hnode : p.renderProduction profile (c.produceNode context node) = .ok [] := by
      rcases h node List.mem_cons_self with hcomment | ⟨site, hsite, hinlined⟩
      · rw [produceNode_of_comment hcomment, renderProduction_empty]
      · exact (renderProduction_eq_ok_iff_inlined hsite hfirst).2 hinlined
    rw [renderProduction_append hfailure, hnode,
      ih (fun other hmem => h other (List.mem_cons_of_mem _ hmem)) hrest, join_nil]

/-- Where something is written behind a node, nothing can run into what the node writes. -/
theorem closes_or_eq_nil {node : Node} {nodes : List Node} {tail : List Piece}
    {ends : ImportSite → Prop}
    (horder : Piece.Orderly (node.pieces ++ (Node.piecesAll nodes ++ tail)))
    (hspaced : Node.Spaced ends (p.Silent profile c) (node :: nodes))
    (hfailure : (c.produceNodes context nodes).failure = none)
    (h : p.renderProduction profile (c.produceNodes context nodes) = .ok css) :
    node.Closes ends ∨ css = [] := by
  by_cases hother : ∃ other ∈ nodes, ¬ p.Silent profile c other
  · have hne : nodes ≠ [] := by
      rintro rfl
      obtain ⟨other, hmem, -⟩ := hother
      cases hmem
    exact .inl ⟨Node.isLoose_of_orderly horder hne, fun site hsite => hspaced.1 site hsite hother⟩
  · have hsilent : ∀ node ∈ nodes, p.Silent profile c node := by
      intro node hmem
      by_contra hsilent
      exact hother ⟨node, hmem, hsilent⟩
    rw [renderProduction_of_silent hsilent hfailure] at h
    exact .inr (Except.ok.inj h).symm

/-- A text that replaces an import is read on its own, unless something runs into it. -/
theorem reads_import {node : Node} {site : ImportSite} (hsite : node.import? = some site)
    (hreadable : ∀ site ∈ node.sites, p.Readable profile c site)
    (hfailure : (c.produceNode context node).failure = none)
    (h : p.renderProduction profile (c.produceNode context node) = .ok css) :
    Reads (fun rest => node.Closes (p.Ends profile c) ∨ Fenced rest) IsForest css := by
  have hinlined := (renderProduction_eq_ok_iff_inlined hsite hfailure).1 h
  obtain ⟨document, hparse⟩ := hreadable site (Node.mem_sites_of_import? hsite) css hinlined
  have hreads :=
    reads_of_parse (A := fun rest => node.Closes (p.Ends profile c) ∨ Fenced rest) hparse
    fun rest hrest => hrest.imp_left fun hcloses => hcloses.2 site hsite css hinlined
  exact hreads.mono (fun _ => id) fun tokens htokens => ⟨document.nodes, htokens⟩

mutual

/-- **What a node writes is read on its own**, unless something runs into it. -/
theorem reads_renderNode (hc : c.transforms = .standard) :
    (node : Node) → ∀ (context : Context) (tail : List Piece) (css : Text),
    (∀ piece ∈ node.pieces, piece.WellFormed) → Piece.Orderly (node.pieces ++ tail) →
    node.SpacedInside (p.Ends profile c) (p.Silent profile c) →
    (∀ site ∈ node.sites, p.Readable profile c site) → (c.produceNode context node).failure = none →
    p.renderProduction profile (c.produceNode context node) = .ok css →
    Reads (fun rest => node.Closes (p.Ends profile c) ∨ Fenced rest) IsForest css
  | .leaf (.comment content) span, context, tail, css, _, _, _, _, _, h => by
    rw [Compiler.produceNode, renderProduction_empty] at h
    obtain rfl := Except.ok.inj h
    exact reads_nil.mono (fun _ _ => trivial) fun tokens htokens => htokens ▸ isForest_nil
  | .leaf (.declaration content) span, context, tail, css, hform, _, _, _, _, h => by
    rw [Node.pieces] at hform
    obtain ⟨statement, hsealed, hbegins, rfl⟩ :=
      renderProduction_declaration hc (hform _ List.mem_cons_self : content.WellFormed) span h
    have hleaf (tokens : List Token) (htokens : ∃ token, tokens = [token] ∧
        ∃ content, token.piece = .leaf content) :
        IsForest tokens := by
      obtain ⟨token, rfl, content, hpiece⟩ := htokens
      exact isForest_leaf hpiece
    rcases hterminated : content.terminated with _ | _
    · refine (reads_statement hsealed hbegins .loose).mono (fun rest hrest => hrest.resolve_left
        fun hcloses => ?_) hleaf
      have hloose := hcloses.1
      rw [Node.isLoose, hterminated] at hloose
      cases hloose
    · exact (reads_statement hsealed hbegins .semicolon).mono (fun _ _ => trivial) hleaf
  | .leaf (.atRule name params) span, context, tail, css, hform, _, _, hreadable, hfailure, h => by
    by_cases himport : (name == Compiler.importName) = true
    · have hsite : (Node.leaf (.atRule name params) span).import? = some ⟨params, span⟩ := by
        rw [Node.import?, if_pos himport]
      exact reads_import hsite hreadable hfailure h
    · rw [Node.pieces] at hform
      have hform : AtRule.WellFormed name params := hform _ List.mem_cons_self
      rw [Compiler.produceNode, if_neg himport, renderProduction_text] at h
      obtain rfl := Except.ok.inj h
      refine (reads_statement hform.sealed_head.1 hform.sealed_head.2 .semicolon).mono
        (fun _ _ => trivial) ?_
      rintro tokens ⟨token, rfl, content, hpiece⟩
      exact isForest_leaf hpiece
  | .block (.rule selector) children span, context, tail, css, hform, horder, hspaced, hreadable,
      hfailure, h => by
    rw [Node.pieces] at hform horder
    rw [Node.SpacedInside] at hspaced
    rw [Node.sites] at hreadable
    rw [Compiler.produceNode] at hfailure h
    have hselector : Rule.WellFormed selector :=
      hform (.opening (.rule selector)) List.mem_cons_self
    have hhead : p.renderProduction profile (c.produceSelector context selector) = .ok selector :=
      renderProduction_of_writes ((faithful_of_standard hc).selector context selector)
        (Compiler.writes_produceSelector hc context hselector.trimmed)
    obtain ⟨hinner, body, hbody, rfl⟩ := renderProduction_block hfailure hhead h
    refine (reads_block hselector.sealed
      (reads_renderNodes hc children context ([.closing] ++ tail) body ?_ ?_ hspaced.1 hspaced.2
        hreadable hinner hbody)).mono (fun _ _ => trivial) fun _ => id
    · exact fun piece hmem => hform piece (List.mem_cons_of_mem _ (List.mem_append_left _ hmem))
    · rw [List.cons_append, List.cons_append, List.append_assoc] at horder
      exact horder.2
  | .block (.atRule name params) children span, context, tail, css, hform, horder, hspaced,
      hreadable, hfailure, h => by
    by_cases himport : (name == Compiler.importName) = true
    · have hsite : (Node.block (.atRule name params) children span).import? =
          some ⟨params, span⟩ := by
        rw [Node.import?, if_pos himport]
      exact reads_import hsite hreadable hfailure h
    · rw [Node.pieces] at hform horder
      rw [Node.SpacedInside] at hspaced
      rw [Node.sites, if_neg himport] at hreadable
      rw [Compiler.produceNode, if_neg himport] at hfailure h
      have hatRule : AtRule.WellFormed name params :=
        hform (.opening (.atRule name params)) List.mem_cons_self
      have hspaced := hspaced.resolve_left fun hname => himport (beq_iff_eq.2 hname)
      have hhead :
          p.renderProduction profile (.text (Compiler.atRuleHead name params) ++
            .note .trace ("COMPILE: entering @" ++ String.ofList name ++ " as `" ++
              String.ofList (Context.inside name).name ++ "`")) =
          .ok (Compiler.atRuleHead name params) :=
        renderProduction_of_writes
          ((Production.faithful_text _).append (Production.faithful_note _ _))
          (Production.writes_text_note _ _ _)
      obtain ⟨hinner, body, hbody, rfl⟩ := renderProduction_block hfailure hhead h
      refine (reads_block hatRule.sealed_head.1
        (reads_renderNodes hc children (Context.inside name) ([.closing] ++ tail) body ?_ ?_
          hspaced.1 hspaced.2 hreadable hinner hbody)).mono (fun _ _ => trivial) fun _ => id
      · exact fun piece hmem => hform piece (List.mem_cons_of_mem _ (List.mem_append_left _ hmem))
      · rw [List.cons_append, List.cons_append, List.append_assoc] at horder
        exact horder.2

/-- What nodes write is read on its own in front of a closing brace. -/
theorem reads_renderNodes (hc : c.transforms = .standard) :
    (nodes : List Node) → ∀ (context : Context) (tail : List Piece) (css : Text),
    (∀ piece ∈ Node.piecesAll nodes, piece.WellFormed) →
    Piece.Orderly (Node.piecesAll nodes ++ tail) →
    Node.Spaced (p.Ends profile c) (p.Silent profile c) nodes →
    Node.SpacedInsideAll (p.Ends profile c) (p.Silent profile c) nodes →
    (∀ site ∈ Node.sitesAll nodes, p.Readable profile c site) →
    (c.produceNodes context nodes).failure = none →
    p.renderProduction profile (c.produceNodes context nodes) = .ok css → Reads Fenced IsForest css
  | [], context, tail, css, _, _, _, _, _, _, h => by
    rw [Compiler.produceNodes, renderProduction_empty] at h
    obtain rfl := Except.ok.inj h
    exact reads_nil.mono (fun _ _ => trivial) fun tokens htokens => htokens ▸ isForest_nil
  | node :: nodes, context, tail, css, hform, horder, hspaced, hinside, hreadable, hfailure, h => by
    rw [Node.piecesAll] at hform horder
    rw [Node.SpacedInsideAll] at hinside
    rw [Node.sitesAll] at hreadable
    rw [Compiler.produceNodes] at hfailure h
    rw [List.append_assoc] at horder
    obtain ⟨hfirst, hrest, -⟩ := Production.events_append hfailure
    rw [renderProduction_append hfailure] at h
    obtain ⟨front, back, hfront, hback, rfl⟩ := join_eq_ok h
    have hnode := reads_renderNode hc node context _ front
      (fun piece hmem => hform piece (List.mem_append_left _ hmem)) horder hinside.1
      (fun site hmem => hreadable site (List.mem_append_left _ hmem)) hfirst hfront
    have hnodes := reads_renderNodes hc nodes context tail back
      (fun piece hmem => hform piece (List.mem_append_right _ hmem)) horder.of_append
        hspaced.2 hinside.2
      (fun site hmem => hreadable site (List.mem_append_right _ hmem)) hrest hback
    refine hnode.append hnodes (fun after hafter => ?_) fun _ _ => IsForest.append
    rcases closes_or_eq_nil horder hspaced hrest hback with hcloses | rfl
    · exact .inl hcloses
    · exact .inr hafter

end

/-! ## The parts of the output -/

/-- The text that a node of a stylesheet contributes to the output: for an import the output of the
imported stylesheet, and for any other node the rendered output of the node on its own. -/
def Contributes (p : Package) (profile : Profile) (c : Compiler) (node : Node)
    (css : Text) : Prop :=
  match node.import? with
  | some site => p.Inlined profile c site css
  | none => p.renderProduction profile (c.produceNode .root node) = .ok css

/-- The nodes that the contribution of a node is read as on its own. -/
def Part (p : Package) (profile : Profile) (c : Compiler) (node : Node) (part : List Node) : Prop :=
  ∃ css document, p.Contributes profile c node css ∧ Document.parse css = .ok document ∧
    document.nodes = part

/-- What a node contributes is what it is rendered to. -/
theorem contributes_iff {node : Node} (hfailure : (c.produceNode .root node).failure = none) :
    p.Contributes profile c node css ↔
      p.renderProduction profile (c.produceNode .root node) = .ok css := by
  rw [Contributes]
  split
  · rename_i site hsite
    exact (renderProduction_eq_ok_iff_inlined hsite hfailure).symm
  · exact Iff.rfl

/-- The number of nodes that a node contributes, if references do not lead on too far. -/
def partSize? (p : Package) (profile : Profile) (depth : Nat) (c : Compiler) (node : Node) :
    Option Nat :=
  (Chunk.fill? (p.renderPixels profile) (p.renderWithin profile depth)
    (c.produceNode .root node).chunks).bind fun css =>
    (Document.parse css).toOption.map fun document => document.nodes.length

theorem Part.length_eq {node : Node} {part : List Node} {depth size : Nat}
    (h : p.Part profile c node part) (hfailure : (c.produceNode .root node).failure = none)
    (hsize : p.partSize? profile depth c node = some size) : part.length = size := by
  obtain ⟨css, document, hcontributes, hparse, rfl⟩ := h
  obtain ⟨css', hfill, hlength⟩ := Option.bind_eq_some_iff.1 hsize
  obtain rfl :=
    eq_of_fill? (fun _ _ _ _ => eq_of_renderWithin)
      ((contributes_iff hfailure).1 hcontributes) hfill
  rw [hparse] at hlength
  exact Option.some.inj hlength

theorem failure_of_mem {nodes : List Node} (h : (c.produceNodes context nodes).failure = none)
    {node : Node} (hmem : node ∈ nodes) : (c.produceNode context node).failure = none := by
  induction nodes with
  | nil => cases hmem
  | cons first nodes ih =>
    rw [Compiler.produceNodes] at h
    obtain ⟨hfirst, hrest, -⟩ := Production.events_append h
    rcases List.mem_cons.1 hmem with rfl | hmem
    · exact hfirst
    · exact ih hrest hmem

/-- The output of a block ends with its closing brace. -/
theorem ended_of_block {head : Head} {children : List Node} {span : Span}
    (himport : (Node.block head children span).import? = none)
    (hfailure : (c.produceNode context (.block head children span)).failure = none)
    (h : p.renderProduction profile (c.produceNode context (.block head children span)) = .ok css) :
    css.Ended := by
  have hlast {inner : Production} (hfailure : (inner ++ Production.text ['}']).failure = none)
      (h : p.renderProduction profile (inner ++ .text ['}']) = .ok css) : css.Ended := by
    rw [renderProduction_append hfailure, renderProduction_text] at h
    obtain ⟨front, back, -, hback, rfl⟩ := join_eq_ok h
    obtain rfl := Except.ok.inj hback
    intro c hc
    rw [List.getLast?_concat] at hc
    exact .inr (Option.some.inj hc).symm
  cases head with
  | rule selector =>
    rw [Compiler.produceNode] at hfailure h
    exact hlast hfailure h
  | atRule name params =>
    rw [Compiler.produceNode, if_neg (Node.import?_block_eq_none_iff.1 himport)] at hfailure h
    exact hlast hfailure h

/-- What a node at the top level writes is read on its own, unless something runs into it. It does
not matter what happens inside a block that can be read on its own anyway. -/
theorem reads_contribution (hc : c.transforms = .standard) {node : Node} {tail : List Piece}
    (hform : ∀ piece ∈ node.pieces, piece.WellFormed) (horder : Piece.Orderly (node.pieces ++ tail))
    (hreadable : ∀ site ∈ node.sites, p.Readable profile c site)
    (hinside : node.import? = none → node.SpacedInside (p.Ends profile c) (p.Silent profile c) ∨
      ∃ css document, p.renderProduction profile (c.produceNode .root node) = .ok css ∧
        Document.parse css = .ok document)
    (hfailure : (c.produceNode .root node).failure = none)
    (h : p.renderProduction profile (c.produceNode .root node) = .ok css) :
    Reads (fun rest => node.Closes (p.Ends profile c) ∨ Fenced rest) IsForest css := by
  rcases hsite : node.import? with _ | site
  · rcases hinside hsite with hspaced | ⟨css', document, h', hparse⟩
    · exact reads_renderNode hc node .root tail css hform horder hspaced hreadable hfailure h
    · obtain rfl := Except.ok.inj (h.symm.trans h')
      cases node with
      | leaf content span =>
        exact reads_renderNode hc _ .root tail css hform horder (by rw [Node.SpacedInside]; trivial)
          hreadable hfailure h
      | block head children span =>
        have hended := ended_of_block hsite hfailure h
        exact (reads_of_parse (A := Anything) hparse fun _ _ => .inl hended).mono
          (fun _ _ => trivial)
          fun _ htokens => ⟨_, htokens⟩
  · exact reads_import hsite hreadable hfailure h

/-- **The output falls into the parts** that the nodes contribute. -/
theorem exists_parts_of_reads (nodes : List Node) (here : Position) (css : Text) (stop : Position)
    (horder : Piece.Orderly (Node.piecesAll nodes))
    (hspaced : Node.Spaced (p.Ends profile c) (p.Silent profile c) nodes)
    (hreads : ∀ node ∈ nodes, ∀ css, (c.produceNode .root node).failure = none →
      p.renderProduction profile (c.produceNode .root node) = .ok css →
      Reads (fun rest => node.Closes (p.Ends profile c) ∨ Fenced rest) IsForest css)
    (hfailure : (c.produceNodes .root nodes).failure = none)
    (h : p.renderProduction profile (c.produceNodes .root nodes) = .ok css)
    (hstop : (readAll here css).ending = .ok stop) :
    ∃ parts forest,
      List.Forall₂ (p.Part profile c) (nodes.filter fun node => !node.isComment) parts ∧
      (readAll here css).tokens.map piece = Node.piecesAll forest ∧
      Node.unplacedAll forest = Node.unplacedAll parts.flatten := by
  induction nodes generalizing here css with
  | nil =>
    rw [Compiler.produceNodes, renderProduction_empty] at h
    obtain rfl := Except.ok.inj h
    refine ⟨[], [], .nil, ?_, rfl⟩
    rw [readAll_nil, Node.piecesAll]
    rfl
  | cons node nodes ih =>
    rw [Compiler.produceNodes] at hfailure h
    rw [Node.piecesAll] at horder
    obtain ⟨hfirst, hrest, -⟩ := Production.events_append hfailure
    rw [renderProduction_append hfailure] at h
    obtain ⟨front, back, hfront, hback, rfl⟩ := join_eq_ok h
    have hseam : node.Closes (p.Ends profile c) ∨ Fenced back := by
      have horder' : Piece.Orderly (node.pieces ++ (Node.piecesAll nodes ++ [])) := by
        rwa [List.append_nil]
      rcases closes_or_eq_nil horder' hspaced hrest hback with hcloses | rfl
      · exact .inl hcloses
      · exact .inr fenced_nil
    have hrec := fun here => ih here back horder.of_append hspaced.2
      (fun other hmem => hreads other (List.mem_cons_of_mem _ hmem)) hrest hback
    by_cases hcomment : node.isComment = true
    · rw [produceNode_of_comment hcomment, renderProduction_empty] at hfront
      obtain rfl := Except.ok.inj hfront
      rw [List.filter_cons_of_neg (by simpa using hcomment)]
      exact hrec here hstop
    rcases hreads node List.mem_cons_self front hfirst hfront here with
      hbreaks | ⟨tokens, ⟨part, hpart⟩, hcontinues⟩
    · -- the whole output could not be read
      obtain ⟨e, herror⟩ := hbreaks back hseam
      rw [hstop] at herror
      cases herror
    · have hwhole := hcontinues back hseam
      rw [hwhole] at hstop ⊢
      obtain ⟨parts, forest, hparts, hforest, hunplaced⟩ := hrec _ hstop
      obtain ⟨document, hparse, hnodes⟩ := parse_of_continues hcontinues (.inr fenced_nil) hpart
      rw [List.filter_cons_of_pos (by simpa using hcomment)]
      refine ⟨document.nodes :: parts, part ++ forest, .cons ?_ hparts, ?_, ?_⟩
      · exact ⟨front, document, (contributes_iff hfirst).2 hfront, hparse, rfl⟩
      · rw [List.map_append, hpart, hforest, Node.piecesAll_append]
      · rw [List.flatten_cons, Node.unplacedAll_append, Node.unplacedAll_append, hnodes, hunplaced]

/-! ## Processed packages -/

/-- A source that compiles is compiled to what its nodes produce. -/
theorem exists_production_of_compile {source : Text} {compiled : Compiled}
    (h : (c.compile source).value = .ok compiled) :
    ∃ document, Document.parse source = .ok document ∧
      (c.produceNodes .root document.nodes).failure = none ∧
      compiled =
        ⟨(c.produceNodes .root document.nodes).chunks,
          (c.produceNodes .root document.nodes).imports⟩ := by
  rw [Compiler.compile] at h
  dsimp only at h
  split at h
  · cases h
  · rename_i hfailure
    obtain rfl := Except.ok.inj h
    rw [Compiler.produce] at hfailure ⊢
    rcases hparse : Document.parse source with error | document
    · rw [hparse] at hfailure
      cases hfailure
    · rw [hparse] at hfailure
      exact ⟨document, rfl, hfailure, rfl⟩

/-- In a package that was processed without a failure every stylesheet is what it compiles to. -/
theorem compile_of_process (h : p.process.value.2 = none) {sheet : Sheet}
    (hsheet : sheet ∈ p.process.value.1.sheets) :
    ((p.process.value.1.compiler sheet).compile (sheet.source.getD [])).value =
      .ok sheet.compiled := by
  obtain ⟨herrors, hafter⟩ := process_eq_none h
  have hsame := p.sameSurroundings_revise p.location_classified
  rw [hafter] at hsheet ⊢
  obtain ⟨before, hbefore, rfl⟩ := List.mem_map.1 hsheet
  rw [compiler, hsame.lookup_eq, hsame.transforms]
  exact (compileSheet_of_no_failures herrors hbefore : (p.compileSheet before).value =
    .ok (p.compiledOf before))

/-- In such a package every stylesheet renders. -/
theorem Consistent.renderAt_of_process (hconsistent : p.Consistent) (h : p.process.value.2 = none)
    (profile : Profile) {sheet : Sheet} (hsheet : sheet ∈ p.process.value.1.sheets) :
    ∃ css, p.process.value.1.renderAt profile sheet.location = .ok css := by
  have hafter := historyInvariant_consistent.process hconsistent
  have hchecked : p.compileAll.value.1.resolveGraph.value.2 = none := by
    rcases p.process_cases with ⟨-, hprocess⟩ | ⟨-, hprocess⟩
    · rw [hprocess] at h
      cases h
    · rw [hprocess] at h
      exact Option.map_eq_none_iff.1 h
  -- marking stylesheets makes no difference to the check
  have hfootings : p.compileAll.value.1.sheets.map footing =
      p.process.value.1.sheets.map footing := by
    rw [(process_eq_none h).2, sheets_compileAll, Package.revise, List.map_map, List.map_map]
    rfl
  have halike := resolvesAlike_of_footings (.of_eq hfootings)
  exact (hafter.resolveGraph_eq_none_iff profile).1 (halike.passes.1 hchecked) sheet hsheet

/-- So its output is that of its nodes. -/
theorem Consistent.exists_production_of_process (hconsistent : p.Consistent)
    (h : p.process.value.2 = none) (profile : Profile) {path : Text} {sheet : Sheet}
    (hsheet : p.process.value.1.get? path = some sheet) :
    let c := p.process.value.1.compiler sheet
    ∃ document css, Document.parse (sheet.source.getD []) = .ok document ∧
      (c.produceNodes .root document.nodes).failure = none ∧
      sheet.compiled.imports = (c.produceNodes .root document.nodes).imports ∧
      (p.process.value.1.render profile path).value = .ok css ∧
      p.process.value.1.renderProduction profile (c.produceNodes .root document.nodes) =
        .ok css := by
  intro c
  have hmem : sheet ∈ p.process.value.1.sheets := mem_of_at? hsheet
  obtain ⟨document, hparse, hfailure, hcompiled⟩ :=
    exists_production_of_compile (compile_of_process h hmem)
  obtain ⟨css, hcss⟩ := hconsistent.renderAt_of_process h profile hmem
  have hat := (historyInvariant_consistent.process hconsistent).at?_of_mem hmem
  rw [renderAt, renderIn_of_not_mem_active hat List.not_mem_nil] at hcss
  refine ⟨document, css, hparse, hfailure, by rw [hcompiled], ?_, ?_⟩
  · rw [value_render, renderAt, renderIn_of_not_mem_active hsheet List.not_mem_nil, hcss]
  · rw [hcompiled] at hcss
    exact renderChunks_congr (fun _ _ _ => renderAt_of_renderIn) hcss

/-- Imports of a stylesheet end properly if something is written behind them. Inside other nodes
this is not required if the output of the node can be read as it is. -/
structure Seamless (p : Package) (profile : Profile) (c : Compiler) (nodes : List Node) : Prop where
  /-- at the top level -/
  spaced : Node.Spaced (p.Ends profile c) (p.Silent profile c) nodes
  /-- inside other nodes -/
  inside : ∀ node ∈ nodes, node.import? = none →
    node.SpacedInside (p.Ends profile c) (p.Silent profile c) ∨
    ∃ css document, p.renderProduction profile (c.produceNode .root node) = .ok css ∧
      Document.parse css = .ok document

/-- There are no seams if all imports end properly. -/
theorem seamless_of_ends (h : ∀ site, p.Ends profile c site) (nodes : List Node) :
    p.Seamless profile c nodes :=
  ⟨Node.spaced_of_ends h nodes, fun node _ _ => .inl (node.spacedInside_of_ends h)⟩

/-- Where this is so, the output is read as the parts that the nodes contribute. -/
theorem Seamless.exists_parts {source : Text} {document rendered : Document}
    (h : p.Seamless profile c document.nodes) (hc : c.transforms = .standard)
    (hparse : Document.parse source = .ok document)
    (hreadable : ∀ site ∈ Node.sitesAll document.nodes, p.Readable profile c site)
    (hfailure : (c.produceNodes .root document.nodes).failure = none)
    (hrender : p.renderProduction profile (c.produceNodes .root document.nodes) = .ok css)
    (hrendered : Document.parse css = .ok rendered) :
    ∃ parts,
      List.Forall₂ (p.Part profile c) (document.nodes.filter fun node => !node.isComment) parts ∧
        Node.unplacedAll rendered.nodes = Node.unplacedAll parts.flatten := by
  obtain ⟨⟨stop, hstop⟩, -⟩ := Document.pieces_of_parse hrendered
  obtain ⟨hform, horder⟩ := Document.wellFormed_of_parse hparse
  have hreads : ∀ node ∈ document.nodes, ∀ css, (c.produceNode .root node).failure = none →
      p.renderProduction profile (c.produceNode .root node) = .ok css →
      Reads (fun rest => node.Closes (p.Ends profile c) ∨ Fenced rest) IsForest css := by
    intro node hnode css hfailure hnodeRender
    obtain ⟨front, back, hpieces⟩ := Node.piecesAll_of_mem hnode
    rw [hpieces] at hform horder
    exact reads_contribution hc (fun piece hmem => hform piece (by simp [hmem])) horder.of_append
      (fun site hsite => hreadable site (Node.mem_sitesAll hnode hsite)) (h.inside node hnode)
        hfailure hnodeRender
  obtain ⟨parts, forest, hparts, hforest, hunplaced⟩ :=
    exists_parts_of_reads document.nodes .start css stop horder h.spaced hreads hfailure
      hrender hstop
  have hread : readAll .start css = ⟨(readAll .start css).tokens, .ok stop⟩ := by rw [← hstop]
  obtain ⟨document', hdocument', hnodes⟩ := Document.parse_of_pieces hread hforest
  obtain rfl := Except.ok.inj (hrendered.symm.trans hdocument')
  exact ⟨parts, hparts, hnodes.trans hunplaced⟩

/-- **Inlining an import leaves the text around it alone**, unless the text runs into what follows.
Let a package be processed without a failure, whatever was done with it before, and let the output
of one of its stylesheets and those of all its imports be readable.

If no import can run into what is written behind it, then the output of the stylesheet is read, up
to places, as the nodes of the stylesheet without its comments, one after the other: an import as
the output of the imported stylesheet is read, and any other node as its own output is read.

It is not read so if a part that ends with a declaration without a semicolon has something behind
it. -/
theorem render_splices (root : Text) (options : Options) (operations : List Operation)
    (profile : Profile) (path : Text) (sheet : Sheet)
    (haccepted : ((Package.empty root options .standard).performAll operations).process.value.2 =
      none) :
    let p := ((Package.empty root options .standard).performAll operations).process.value.1
    p.get? path = some sheet →
    (∀ css, (p.render profile path).value = .ok css →
      ∃ document, Document.parse css = .ok document) →
    (∀ edge ∈ sheet.compiled.imports, ∀ css, p.renderAt profile edge.target = .ok css →
      ∃ document, Document.parse css = .ok document) →
    ∃ document css rendered, Document.parse (sheet.source.getD []) = .ok document ∧
      (p.render profile path).value = .ok css ∧ Document.parse css = .ok rendered ∧
      let nodes := document.nodes.filter fun node => !node.isComment
      (p.Seamless profile (p.compiler sheet) document.nodes → ∃ parts,
        List.Forall₂ (p.Part profile (p.compiler sheet)) nodes parts ∧
          Node.unplacedAll rendered.nodes = Node.unplacedAll parts.flatten) ∧
      ∀ front part back,
        List.Forall₂ (p.Part profile (p.compiler sheet)) nodes (front ++ part :: back) →
          (∃ node ∈ part.getLast?, node.isLoose = true) → back.flatten ≠ [] →
          Node.unplacedAll rendered.nodes ≠ Node.unplacedAll (front ++ part :: back).flatten := by
  intro p hsheet hreadable himports
  have hconsistent : ((Package.empty root options .standard).performAll operations).Consistent :=
    consistent_performAll (Transforms.plain_of_stock (.inl rfl) rfl) root options operations
  have hstandard : p.transforms = .standard :=
    (historyInvariant_transforms .standard).process
      (transforms_performAll .standard root options operations)
  obtain ⟨document, css, hparse, hfailure, hedges, hrender, hproduction⟩ :=
    hconsistent.exists_production_of_process haccepted profile hsheet
  obtain ⟨rendered, hrendered⟩ := hreadable css hrender
  have hsites : ∀ site ∈ Node.sitesAll document.nodes,
      p.Readable profile (p.compiler sheet) site := by
    rintro site hsite css ⟨edge, hresolve, hedge⟩
    have hresolved :=
      (Compiler.walkInvariant_resolves (p.compiler sheet)).produceNodes .root
        document.nodes hfailure
    exact himports edge (hedges ▸ hresolved.mem hsite hresolve) css hedge
  refine ⟨document, css, rendered, hparse, hrender, hrendered, fun hseamless => ?_, ?_⟩
  · exact hseamless.exists_parts hstandard hparse hsites hfailure hproduction hrendered
  · rintro front part back - ⟨node, hlast, hloose⟩ hback hsame
    obtain ⟨part, rfl⟩ := List.getLast?_eq_some_iff.1 hlast
    rw [List.flatten_append, List.flatten_cons, List.append_assoc, ← List.append_assoc,
      List.singleton_append] at hsame
    rw [Node.isLoose_of_unplaced (Document.wellFormed_of_parse hrendered).2 hsame hback] at hloose
    cases hloose

/-- A stylesheet with imports between other nodes, also inside a block. All outputs end properly. -/
def framed : List Operation :=
  [.insert ['a']
    (some "@import \"b\";/**/.x\x7b@import \"b\";y:z\x7d@import \"c\";.w\x7b\x7d".toList),
    .insert ['b'] (some ".v\x7b\x7d".toList), .insert ['c'] (some "@import \"b\";e:f;".toList)]

/-- What it is rendered to. -/
def framedOutput : Text := ".v\x7b\x7d.x\x7b.v\x7b\x7dy:z\x7d.v\x7b\x7de:f;.w\x7b\x7d".toList

theorem process_framed :
    ((Package.empty ['/'] {} .standard).performAll framed).process.value.2 = none := by
  refine process_eq_none_of_rank (by decide +kernel)
    (fun location =>
      if location == .absolute [['a']] then 2 else if location == .absolute [['c']] then 1 else 0)
    ?_
  decide +kernel

/-- The output falls into four parts: an imported node, a block, two imported nodes and another
block. -/
theorem render_splices_framed :
    let p := ((Package.empty ['/'] {} .standard).performAll framed).process.value.1
    ∃ sheet document rendered parts, p.get? ['a'] = some sheet ∧
      Document.parse (sheet.source.getD []) = .ok document ∧
      (p.render (.ofMetrics {}) ['a']).value = .ok framedOutput ∧
      Document.parse framedOutput = .ok rendered ∧
      List.Forall₂ (p.Part (.ofMetrics {}) (p.compiler sheet))
      (document.nodes.filter fun node => !node.isComment) parts ∧
        Node.unplacedAll rendered.nodes = Node.unplacedAll parts.flatten := by
  intro p
  have hafter : p = _ := (process_eq_none process_framed).2
  have hgood {location : Location} {css : Text}
      (h : p.renderAt (.ofMetrics {}) location = .ok css) :
      ((Document.parse css).isOk && decide css.Ended) = true := by
    have hall : (p.sheets.all fun sheet => (Chunk.fill? (p.renderPixels (.ofMetrics {}))
        (p.renderWithin (.ofMetrics {}) 3) sheet.compiled.chunks).any
          fun css => (Document.parse css).isOk && decide css.Ended) = true := by
      rw [hafter]
      decide +kernel
    exact forall_renderAt hall h
  have hreadable {location : Location} {css : Text}
      (h : p.renderAt (.ofMetrics {}) location = .ok css) :
      ∃ document, Document.parse css = .ok document :=
        exists_of_isOk (Bool.and_eq_true_iff.1 (hgood h)).1
  obtain ⟨sheet, hsheet⟩ : ∃ sheet, p.get? ['a'] = some sheet := by
    refine Option.isSome_iff_exists.1 ?_
    rw [hafter]
    decide +kernel
  obtain ⟨document, css, rendered, hparse, hrender, hrendered, hsplices, -⟩ :=
    render_splices ['/'] {} framed (.ofMetrics {}) ['a'] sheet process_framed hsheet
      (fun css h => hreadable (value_render .. ▸ h)) fun edge _ css h => hreadable h
  obtain ⟨parts, hparts, hnodes⟩ := hsplices <| seamless_of_ends (fun site css hinlined => by
    obtain ⟨edge, -, h⟩ := hinlined
    exact of_decide_eq_true (Bool.and_eq_true_iff.1 (hgood h)).2) document.nodes
  have hwithin : p.renderWithin (.ofMetrics {}) 3 (.ofText ['a']) = some framedOutput := by
    rw [hafter]
    decide +kernel
  obtain rfl := eq_of_renderWithin (value_render .. ▸ hrender) hwithin
  exact ⟨sheet, document, rendered, parts, hsheet, hparse, hrender, hrendered, hparts, hnodes⟩

/-- A stylesheet that imports a declaration without a semicolon in front of a rule. -/
def merging : List Operation :=
  [.insert ['a'] (some "@import \"b\";.x\x7b\x7d".toList), .insert ['b'] (some "c:d".toList)]

theorem process_merging :
    ((Package.empty ['/'] {} .standard).performAll merging).process.value.2 = none := by
  refine process_eq_none_of_rank (by decide +kernel)
    (fun location => if location == .absolute [['a']] then 1 else 0) ?_
  decide +kernel

/-- The output can be read and so can that of the import, but the declaration becomes part of the
selector: there is one rule where there should be a declaration and a rule. -/
theorem merged_render :
    let p := ((Package.empty ['/'] {} .standard).performAll merging).process.value.1
    ((Package.empty ['/'] {} .standard).performAll merging).process.value.2 = none ∧
      ∃ sheet document rendered, p.get? ['a'] = some sheet ∧
        Document.parse (sheet.source.getD []) = .ok document ∧
        (p.render (.ofMetrics {}) ['a']).value = .ok "c:d.x\x7b\x7d".toList ∧
        Document.parse "c:d.x\x7b\x7d".toList = .ok rendered ∧
        (∀ edge ∈ sheet.compiled.imports, ∀ css, p.renderAt (.ofMetrics {}) edge.target = .ok css →
          ∃ document, Document.parse css = .ok document) ∧
        ¬ ∃ parts, List.Forall₂ (p.Part (.ofMetrics {}) (p.compiler sheet))
            (document.nodes.filter fun node => !node.isComment) parts ∧
          Node.unplacedAll rendered.nodes = Node.unplacedAll parts.flatten := by
  intro p
  have hafter : p = _ := (process_eq_none process_merging).2
  have hconsistent : ((Package.empty ['/'] {} .standard).performAll merging).Consistent :=
    consistent_performAll (Transforms.plain_of_stock (.inl rfl) rfl) ['/'] {} merging
  obtain ⟨sheet, hsheet⟩ : ∃ sheet, p.get? ['a'] = some sheet := by
    refine Option.isSome_iff_exists.1 ?_
    rw [hafter]
    decide +kernel
  obtain ⟨document, css, hparse, hfailure, -, hrender, -⟩ :=
    hconsistent.exists_production_of_process process_merging (.ofMetrics {}) hsheet
  have hwithin : p.renderWithin (.ofMetrics {}) 2 (.ofText ['a']) =
      some "c:d.x\x7b\x7d".toList := by
    rw [hafter]
    decide +kernel
  obtain rfl := eq_of_renderWithin (value_render .. ▸ hrender) hwithin
  obtain ⟨rendered, hrendered⟩ : ∃ rendered, Document.parse "c:d.x\x7b\x7d".toList = .ok rendered :=
    exists_of_isOk (by decide +kernel)
  refine ⟨process_merging, sheet, document, rendered, hsheet, hparse, hrender, hrendered,
    fun edge _ css h => ?_, ?_⟩
  · have hall : (p.sheets.all fun sheet => (Chunk.fill? (p.renderPixels (.ofMetrics {}))
        (p.renderWithin (.ofMetrics {}) 2) sheet.compiled.chunks).any
          fun css => (Document.parse css).isOk) = true := by
      rw [hafter]
      decide +kernel
    exact exists_of_isOk (forall_renderAt hall h)
  · rintro ⟨parts, hparts, hsame⟩
    have hsizes :
        ((p.get? ['a']).bind fun sheet =>
          (Document.parse (sheet.source.getD [])).toOption.map fun document =>
            (document.nodes.filter fun node => !node.isComment).map
              (p.partSize? (.ofMetrics {}) 2 (p.compiler sheet))) = some [some 1, some 1] := by
      rw [hafter]
      decide +kernel
    rw [hsheet, Option.bind_some, hparse] at hsizes
    obtain ⟨first, rest, hnodes, hfirst, hrest⟩ := List.map_eq_cons_iff.1 (Option.some.inj hsizes)
    obtain ⟨second, rest, rfl, hsecond, hnil⟩ := List.map_eq_cons_iff.1 hrest
    obtain rfl := List.map_eq_nil_iff.1 hnil
    rw [hnodes] at hparts
    obtain _ | ⟨hpart, _ | ⟨hpart', _ | _⟩⟩ := hparts
    have hmem {node : Node} (h : node ∈ [first, second]) : node ∈ document.nodes :=
      List.mem_of_mem_filter (hnodes ▸ h)
    have hlength := hpart.length_eq (failure_of_mem hfailure (hmem (by simp))) hfirst
    have hlength' := hpart'.length_eq (failure_of_mem hfailure (hmem (by simp))) hsecond
    have hone :
        ((Document.parse "c:d.x\x7b\x7d".toList).toOption.map
          fun rendered => rendered.nodes.length) = some 1 := by
      decide +kernel
    rw [hrendered] at hone
    have hone : rendered.nodes.length = 1 := Option.some.inj hone
    have htwo := congrArg List.length hsame
    rw [Node.unplacedAll_eq_map, Node.unplacedAll_eq_map, List.length_map, List.length_map,
      hone] at htwo
    simp [hlength, hlength'] at htwo

end Package

end MiniSheet
