import MiniSheet.Proofs.Lengths
import MiniSheet.Proofs.RenderOutcome
import MiniSheet.Proofs.Visits

/-!
# What is written

Once the device is known, lengths are texts too, and all that is written is one text. The
accumulator may put texts together and leave out empty ones, but it keeps that text
(`Production.flatMap_write_chunks`), and rendering writes it, as long as there are no references
(`Package.renderChunks_of_targets`).

With the standard transforms a tree without imports never fails to compile. What its visits write
are its pieces, with the lengths of values replaced and without comments
(`Compiler.writes_produceNodes`).
-/

namespace MiniSheet

variable {ρ : Type}

/-! ## Chunks -/

/-- The text of a chunk, given the texts of lengths. References are left out. -/
def Chunk.write (pixels : Float → Text) : Chunk ρ → Text
  | text content => content
  | pixel raw => pixels raw
  | suffix _ => []
  | nested _ => []

/-- The text of a symbol. -/
def Symbol.write (pixels : Float → Text) : Symbol ρ → Text
  | char c => [c]
  | pixel raw => pixels raw
  | suffix _ => []
  | nested _ => []

theorem Symbol.flatMap_write_char (pixels : Float → Text) (t : Text) :
    (t.map (char (ρ := ρ))).flatMap (write pixels) = t := by
  simp [List.flatMap_map, write]

/-- The text of chunks can be told from their symbols. -/
theorem Chunk.flatMap_write (pixels : Float → Text) (chunks : List (Chunk ρ)) :
    chunks.flatMap (write pixels) = (flatten chunks).flatMap (Symbol.write pixels) := by
  have hchunk (chunk : Chunk ρ) : chunk.symbols.flatMap (Symbol.write pixels) =
      chunk.write pixels := by
    cases chunk with
    | text content => exact Symbol.flatMap_write_char pixels content
    | pixel raw | suffix raw | nested target => simp [symbols, Symbol.write, write]
  rw [flatten, List.flatMap_assoc]
  exact congrArg (List.flatMap · chunks) (funext fun chunk => (hchunk chunk).symm)

/-- Rendering chunks without references writes their texts. -/
theorem Package.renderChunks_of_targets {p : Package} {profile : Profile} {active : List Location}
    {chunks : List (Chunk Location)} (h : Chunk.targets chunks = []) :
    p.renderChunks profile active chunks =
      .ok (chunks.flatMap (Chunk.write (p.renderPixels profile))) := by
  induction chunks with
  | nil => exact renderChunks_nil
  | cons chunk chunks ih =>
    have hrest : Chunk.targets chunks = [] := by
      cases chunk with
      | nested target => cases h
      | text content | pixel raw | suffix raw => exact h
    rw [renderChunks_cons, ih hrest, List.flatMap_cons]
    cases chunk with
    | nested target => cases h
    | text content | pixel raw | suffix raw => rfl

/-! ## Productions -/

namespace Production

variable {pixels : Float → Text} {sites sites' : List ImportSite} {first second p : Production}

/-- The text that a production writes. -/
def written (pixels : Float → Text) (p : Production) : Text :=
  p.symbols.flatMap (Symbol.write pixels)

/-- The chunks of a production have its text. -/
theorem flatMap_write_chunks (p : Production) :
    p.chunks.flatMap (Chunk.write pixels) = p.written pixels := by
  rw [Chunk.flatMap_write, flatten_chunks]
  rfl

/-- The text is written, nothing is imported and nothing fails. -/
structure Writes (pixels : Float → Text) (t : Text) (p : Production) : Prop where
  /-- nothing fails -/
  failure : p.failure = none
  /-- nothing is imported -/
  imports : p.imports = []
  /-- the text is written -/
  written : p.written pixels = t

theorem writes_empty : Writes pixels [] empty := ⟨rfl, rfl, rfl⟩

theorem writes_text (content : Text) : Writes pixels content (text content) := by
  refine ⟨rfl, rfl, ?_⟩
  rw [Production.written, puts_text content rfl, Symbol.flatMap_write_char]

/-- What goes with no import site neither fails nor imports anything. -/
def Quiet (sites : List ImportSite) (p : Production) : Prop :=
  sites = [] → p.failure = none ∧ p.imports = []

theorem Quiet.append (hfirst : Quiet sites first) (hsecond : Quiet sites' second) :
    Quiet (sites ++ sites') (first ++ second) := by
  intro h
  obtain ⟨hsites, hsites'⟩ := List.append_eq_nil_iff.1 h
  obtain ⟨hfailure, himports⟩ := hfirst hsites
  obtain ⟨hfailure', himports'⟩ := hsecond hsites'
  have hnone : (first ++ second).failure = none := by
    change (first.append second).failure = none
    rw [Production.append, hfailure]
    exact hfailure'
  refine ⟨hnone, ?_⟩
  rw [imports, (events_append hnone).2.2, List.filterMap_append]
  exact List.append_eq_nil_iff.2 ⟨himports, himports'⟩

theorem quiet_emissions (list : List (Emission Location)) : Quiet sites (emissions list) :=
  fun _ => ⟨rfl, imports_emissions list⟩

/-- What a quiet production puts down is what it writes. -/
theorem Quiet.writes {s : List (Symbol Location)} (h : Quiet [] p) (hputs : Puts s p) :
    Writes pixels (s.flatMap (Symbol.write pixels)) p := by
  obtain ⟨hfailure, himports⟩ := h rfl
  exact ⟨hfailure, himports, by rw [Production.written, hputs hfailure]⟩

/-- Something that is recorded adds nothing to a text. -/
theorem writes_text_note (content : Text) (level : Level) (message : String) :
    Writes pixels content (text content ++ note level message) := by
  have hquiet : Quiet [] (text content ++ note level message) := fun _ => ⟨rfl, rfl⟩
  have hwrites : Writes pixels _ _ :=
    hquiet.writes ((puts_text content).append (puts_note level message))
  rwa [List.append_nil, Symbol.flatMap_write_char] at hwrites

end Production

/-! ## Nodes -/

/-- A leaf as it is rendered, given the texts of lengths. Comments are left out. -/
def Leaf.rendered (pixels : Float → Text) : Leaf → Option Leaf
  | declaration content =>
    some (declaration { content with value := Rpx.rewrite pixels content.value })
  | atRule name params => some (atRule name params)
  | comment _ => none

/-- The text of pieces as they are rendered. -/
def Piece.render (pixels : Float → Text) (pieces : List Piece) : Text :=
  (pieces.filterMap (Piece.rewrite (Leaf.rendered pixels))).flatMap Piece.write

theorem Piece.render_append (pixels : Float → Text) (front back : List Piece) :
    render pixels (front ++ back) = render pixels front ++ render pixels back := by
  rw [render, List.filterMap_append, List.flatMap_append, render, render]

theorem Piece.render_block (pixels : Float → Text) (head : Head) (pieces : List Piece) :
    render pixels (opening head :: pieces ++ [closing]) =
      head.write ++ '{' :: render pixels pieces ++ ['}'] := by
  simp [render, Piece.rewrite, Piece.write]

namespace Compiler

open Production

variable {c : Compiler} {pixels : Float → Text}

/-- With the standard transforms nothing but an import fails. -/
theorem walkInvariant_quiet (hc : c.transforms = .standard) : c.WalkInvariant Quiet where
  empty _ := ⟨rfl, rfl⟩
  append := Quiet.append
  text _ _ := ⟨rfl, rfl⟩
  note _ _ _ := ⟨rfl, rfl⟩
  imported _ _ h := by cases h
  selector context selector := by
    rw [produceSelector, hc]
    exact quiet_emissions _
  value context declaration := by
    have hatoms : Quiet [] (emissions ((Rpx.atoms declaration.value).map Rpx.Atom.emission)) :=
      quiet_emissions _
    rw [produceValue, hc]
    refine hatoms.append fun _ => ?_
    split <;> exact ⟨rfl, rfl⟩

/-- What is written for a declaration is the declaration, with other texts for the lengths of its
value. -/
theorem flatMap_write_symbols (content : Declaration) :
    content.symbols.flatMap (Symbol.write pixels) =
      Piece.render pixels [.leaf (.declaration content)] := by
  have hvalue : ((Rpx.atoms content.value).map Rpx.Atom.symbol).flatMap (Symbol.write pixels) =
      Rpx.rewrite pixels content.value := by
    rw [List.flatMap_map, Rpx.rewrite]
    refine congrArg (List.flatMap · _) (funext fun atom => ?_)
    cases atom <;> rfl
  rw [Declaration.symbols, List.flatMap_append, List.flatMap_append, hvalue,
    Symbol.flatMap_write_char, Symbol.flatMap_write_char]
  simp [Piece.render, Piece.rewrite, Leaf.rendered, Piece.write, Leaf.write, Declaration.statement]

theorem writes_produceDeclaration (hc : c.transforms = .standard) (context : Context)
    {content : Declaration} (h : content.WellFormed) :
    Writes pixels (Piece.render pixels [.leaf (.declaration content)])
      (c.produceDeclaration context content) := by
  have hquiet : Quiet [] (c.produceDeclaration context content) :=
    (walkInvariant_quiet hc).produceNode context (.leaf (.declaration content) ⟨.start, .start⟩)
  rw [← flatMap_write_symbols]
  exact hquiet.writes (puts_produceDeclaration hc context h)

theorem writes_produceSelector (hc : c.transforms = .standard) (context : Context) {selector : Text}
    (h : selector.Trimmed) : Writes pixels selector (c.produceSelector context selector) := by
  have hquiet : Quiet [] (c.produceSelector context selector) :=
    (walkInvariant_quiet hc).selector context selector
  have hwrites : Writes pixels _ _ := hquiet.writes (puts_produceSelector hc context h)
  rwa [Symbol.flatMap_write_char] at hwrites

theorem flatMap_write_block (head : Text) (inner : List (Symbol Location)) :
    ((head ++ ['{']).map Symbol.char ++ inner ++ [Symbol.char '}']).flatMap (Symbol.write pixels) =
      head ++ '{' :: inner.flatMap (Symbol.write pixels) ++ ['}'] := by
  rw [List.flatMap_append, List.flatMap_append, Symbol.flatMap_write_char, List.flatMap_singleton,
    List.append_assoc head]
  rfl

theorem ne_importName_of_isRegular {name : Text} (h : (name != importName) = true) :
    ¬ (name == importName) = true := by
  simpa using h

mutual

/-- A node without imports: there is no import site in it, and its visits write its pieces. -/
theorem flatMap_write_visits (c : Compiler) (pixels : Float → Text) :
    (node : Node) → (∀ piece ∈ node.pieces, piece.isRegular = true) → node.sites = [] ∧
      (node.visits.flatMap (Visit.symbols c)).flatMap (Symbol.write pixels) =
        Piece.render pixels node.pieces
  | .leaf (.comment _) _, _ => by
    rw [Node.sites, flatMap_visits_leaf rfl, Node.pieces]
    exact ⟨rfl, rfl⟩
  | .leaf (.declaration content) _, _ => by
    rw [Node.sites, flatMap_visits_leaf rfl, Node.pieces]
    exact ⟨rfl, flatMap_write_symbols content⟩
  | .leaf (.atRule name params) span, h => by
    rw [Node.pieces] at h
    have himport := ne_importName_of_isRegular (h _ List.mem_cons_self)
    have hnone : (Node.leaf (.atRule name params) span).import? = none :=
      Node.import?_leaf_eq_none_iff.2 himport
    rw [Node.sites, if_neg himport, flatMap_visits_leaf hnone, Node.pieces]
    exact ⟨rfl, (Symbol.flatMap_write_char _ _).trans (List.append_nil _).symm⟩
  | .block (.rule selector) children span, h => by
    rw [Node.pieces] at h
    obtain ⟨hsites, htext⟩ := flatMap_write_visitsAll c pixels 0 children
      fun piece hmem => h piece (List.mem_cons_of_mem _ (List.mem_append_left _ hmem))
    rw [Node.sites, flatMap_visits_block rfl, Node.pieces, Piece.render_block, ← htext]
    exact ⟨hsites, flatMap_write_block _ _⟩
  | .block (.atRule name params) children span, h => by
    rw [Node.pieces] at h
    have himport :=
      ne_importName_of_isRegular (h (.opening (.atRule name params)) List.mem_cons_self)
    obtain ⟨hsites, htext⟩ := flatMap_write_visitsAll c pixels 0 children
      fun piece hmem => h piece (List.mem_cons_of_mem _ (List.mem_append_left _ hmem))
    have hnone : (Node.block (.atRule name params) children span).import? = none :=
      Node.import?_block_eq_none_iff.2 himport
    rw [Node.sites, if_neg himport, flatMap_visits_block hnone, Node.pieces,
      Piece.render_block, ← htext]
    exact ⟨hsites, flatMap_write_block _ _⟩

/-- The same for nodes, one behind the other. -/
theorem flatMap_write_visitsAll (c : Compiler) (pixels : Float → Text) (i : Nat) :
    (nodes : List Node) → (∀ piece ∈ Node.piecesAll nodes, piece.isRegular = true) →
    Node.sitesAll nodes = [] ∧
      ((Node.visitsAll i nodes).flatMap (Visit.symbols c)).flatMap (Symbol.write pixels) =
        Piece.render pixels (Node.piecesAll nodes)
  | [], _ => by
    rw [Node.sitesAll, Node.visitsAll, Node.piecesAll]
    exact ⟨rfl, rfl⟩
  | node :: nodes, h => by
    rw [Node.piecesAll] at h
    obtain ⟨hsites, htext⟩ := flatMap_write_visits c pixels node
      fun piece hmem => h piece (List.mem_append_left _ hmem)
    obtain ⟨hsites', htext'⟩ := flatMap_write_visitsAll c pixels (i + 1) nodes
      fun piece hmem => h piece (List.mem_append_right _ hmem)
    rw [Node.sitesAll, hsites, hsites', Node.visitsAll, Node.piecesAll, List.flatMap_append,
      Visit.flatMap_map_below, List.flatMap_append, htext, htext', Piece.render_append]
    exact ⟨rfl, rfl⟩

end

/-- **Nodes without imports write their pieces**, with the lengths of values replaced and without
comments. -/
theorem writes_produceNodes (hc : c.transforms = .standard) (context : Context) {nodes : List Node}
    (hform : ∀ piece ∈ Node.piecesAll nodes, piece.WellFormed)
    (hregular : ∀ piece ∈ Node.piecesAll nodes, piece.isRegular = true) :
    Writes pixels (Piece.render pixels (Node.piecesAll nodes)) (c.produceNodes context nodes) := by
  obtain ⟨hsites, htext⟩ := flatMap_write_visitsAll c pixels 0 nodes hregular
  have hquiet := (walkInvariant_quiet hc).produceNodes context nodes
  rw [hsites] at hquiet
  rw [← htext]
  exact hquiet.writes (puts_produceNodes hc context 0 nodes hform)

end Compiler

end MiniSheet
