import MiniSheet.Proofs.Outcome
import MiniSheet.Proofs.Texts
import MiniSheet.Source.Document

/-!
# Reading loses nothing

The tree of a stylesheet can be written back as raw text: every node as the texts it keeps, with the
delimiters of comments, at-rules and blocks around them (`Node.rawAll`). Layout is gone from that
text, and so are the semicolons, which the tree does not keep. But nothing else is: up to blanks and
semicolons it is the source (`Document.parse_loses_nothing`). So no character of a stylesheet is
dropped, read twice or moved.

The proof goes by the two stages of reading:

* each **token** takes a piece from the source and keeps all of it, up to layout
  (`Token.bare_next`), so all tokens together make up the source (`Token.bare_readAll`);
* the **tree** is built from the tokens without any loss at all: what is put aside for an open block
  is written in front of what comes later, so one more token is one more piece of text
  (`Document.Builder.raw_step`), and a block is closed by writing a brace.
-/

namespace MiniSheet

/-! ## Up to layout -/

namespace Text

/-- A character that is not mere layout: no blank and no semicolon. -/
def isBare (c : Char) : Bool := !isBlank c && c != ';'

/-- What is left of a text without its layout. -/
def bare (t : Text) : Text := t.filter isBare

@[simp] theorem bare_nil : bare [] = [] := rfl

@[simp] theorem bare_append (s t : Text) : bare (s ++ t) = bare s ++ bare t := List.filter_append ..

@[simp] theorem bare_semicolon (t : Text) : bare (';' :: t) = bare t := rfl

theorem bare_cons {c : Char} (h : isBare c = true) (t : Text) : bare (c :: t) = c :: bare t :=
  List.filter_cons_of_pos h

theorem isBare_eq_false_of_isBlank {c : Char} (h : isBlank c = true) : isBare c = false := by
  simp [isBare, h]

theorem isBare_eq_false_of_isGap {c : Char} (h : isGap c = true) : isBare c = false :=
  isBare_eq_false_of_isBlank (isBlank_of_isGap h)

theorem bare_eq_nil {t : Text} (h : ∀ c ∈ t, isBare c = false) : bare t = [] :=
  List.filter_eq_nil_iff.2 fun c hc => Bool.eq_false_iff.1 (h c hc)

/-- Skipping layout loses nothing. -/
theorem bare_dropWhile {p : Char → Bool} (hp : ∀ {c}, p c = true → isBare c = false) (t : Text) :
    bare (t.dropWhile p) = bare t := by
  have hskip : bare (t.takeWhile p) = [] :=
    bare_eq_nil fun c hc => hp (List.all_eq_true.1 List.all_takeWhile c hc)
  calc
    bare (t.dropWhile p) = bare (t.takeWhile p) ++ bare (t.dropWhile p) := by
      rw [hskip, List.nil_append]
    _ = bare t := by rw [← bare_append, List.takeWhile_append_dropWhile]

@[simp] theorem bare_trimStart (t : Text) : bare (trimStart t) = bare t :=
  bare_dropWhile isBare_eq_false_of_isBlank t

@[simp] theorem bare_trimEnd (t : Text) : bare (trimEnd t) = bare t := by
  obtain ⟨back, ht, hback⟩ := exists_trimEnd_append t
  have hskip : bare back = [] := bare_eq_nil fun c hc => isBare_eq_false_of_isBlank (hback c hc)
  calc
    bare (trimEnd t) = bare (trimEnd t) ++ bare back := by rw [hskip, List.append_nil]
    _ = bare t := by rw [← bare_append, ← ht]

@[simp] theorem bare_trim (t : Text) : bare (trim t) = bare t := by
  rw [trim, bare_trimEnd, bare_trimStart]

end Text

open Text

/-! ## Raw text -/

/-- A declaration as raw text. -/
def Declaration.raw (d : Declaration) : Text :=
  d.property ++ d.separator ++ d.value ++ d.marker.getD []

/-- A statement without a block as raw text. -/
def Leaf.raw : Leaf → Text
  | declaration content => content.raw
  | atRule name params => '@' :: name ++ params
  | comment content => '/' :: '*' :: content ++ ['*', '/']

/-- The head of a block as raw text. -/
def Head.raw : Head → Text
  | rule selector => selector
  | atRule name params => '@' :: name ++ params

namespace Node

mutual

/-- A node as raw text. -/
def raw : Node → Text
  | leaf content _ => content.raw
  | block head children _ => head.raw ++ '{' :: rawAll children ++ ['}']

/-- Nodes as raw text, one behind the other. -/
def rawAll : List Node → Text
  | [] => []
  | node :: nodes => node.raw ++ rawAll nodes

end

@[simp] theorem rawAll_nil : rawAll [] = [] := by rw [rawAll]

@[simp] theorem rawAll_append (front back : List Node) :
    rawAll (front ++ back) = rawAll front ++ rawAll back := by
  induction front with
  | nil => rw [rawAll_nil, List.nil_append, List.nil_append]
  | cons node front ih => rw [List.cons_append, rawAll, rawAll, ih, List.append_assoc]

theorem rawAll_reverse_cons (node : Node) (nodes : List Node) :
    rawAll (node :: nodes).reverse = rawAll nodes.reverse ++ node.raw := by
  rw [List.reverse_cons, rawAll_append, rawAll, rawAll_nil, List.append_nil]

end Node

/-- A token as raw text. -/
def Token.raw : Token → Text
  | leaf content _ => content.raw
  | opening head _ => head.raw ++ ['{']
  | closing _ => ['}']

/-- What a step has in hand: a token as raw text and the source behind it. -/
def Token.Step.raw : Step → Text
  | done _ => []
  | token content _ rest => content.raw ++ rest

/-! ## Tokens -/

namespace Declaration

/-- Splitting off the importance marker loses nothing but blanks. -/
theorem bare_of_splitMarker {text value : Text} {marker : Option Text}
    (h : splitMarker text = (value, marker)) : bare text = bare value ++ bare (marker.getD []) := by
  -- without a marker the value is the whole text
  have hwhole : (text, none) = (value, marker) →
      bare text = bare value ++ bare (marker.getD []) := by
    intro h
    obtain ⟨rfl, rfl⟩ := Prod.mk.inj h
    exact (List.append_nil _).symm
  rw [splitMarker] at h
  split at h
  · rename_i front word hsplit
    split at h
    · obtain ⟨rfl, rfl⟩ := Prod.mk.inj h
      rw [eq_of_splitLast? hsplit, bare_append, bare_trimEnd, Option.getD_some]
    · exact hwhole h
  · exact hwhole h

/-- The parts that a statement is cut into when it is read as a declaration. -/
theorem parts_of_read? {statement : Text} {terminated : Bool} {d : Declaration}
    (h : read? statement terminated = some d) :
    ∃ front back rest, statement = d.property ++ (front ++ ':' :: (back ++ rest)) ∧
      d.property ≠ [] ∧ (∀ c ∈ d.property, isPropertyChar c = true) ∧
      d.separator = front ++ ':' :: back ∧ (∀ c ∈ front, isGap c = true) ∧
      (∀ c ∈ back, isGap c = true) ∧ (∀ c ∈ rest.head?, isGap c = false) ∧
      splitMarker (trimEnd rest) = (d.value, d.marker) ∧ d.terminated = terminated := by
  rw [read?] at h
  dsimp only at h
  split at h
  · rename_i c property rest hproperty hrest
    obtain rfl := Option.some.inj h
    refine ⟨(statement.dropWhile isPropertyChar).takeWhile isGap, rest.takeWhile isGap,
      rest.dropWhile isGap, ?_, List.cons_ne_nil _ _, ?_, rfl, fun _ => List.mem_takeWhile_imp,
      fun _ => List.mem_takeWhile_imp, head_dropWhile, rfl, rfl⟩
    · rw [List.takeWhile_append_dropWhile, ← hrest, List.takeWhile_append_dropWhile, ← hproperty,
        List.takeWhile_append_dropWhile]
    · intro other hother
      rw [← hproperty] at hother
      exact List.mem_takeWhile_imp hother
  · cases h

/-- A declaration keeps its whole statement. -/
theorem bare_raw_of_read? {statement : Text} {terminated : Bool} {d : Declaration}
    (h : read? statement terminated = some d) : bare d.raw = bare statement := by
  obtain ⟨front, back, rest, rfl, -, -, hseparator, -, -, -, hsplit, -⟩ := parts_of_read? h
  have hrest : bare rest = bare d.value ++ bare (d.marker.getD []) := by
    rw [← bare_of_splitMarker hsplit, bare_trimEnd]
  -- property and separator are kept as written
  rw [raw, hseparator, ← List.cons_append, ← List.append_assoc front]
  simp only [bare_append, hrest, List.append_assoc]

end Declaration

namespace Token

variable {start : Position} {t : Text} {step : Step} {token : Token}

theorem bare_readComment (h : readComment start t = .ok step) :
    bare ('/' :: '*' :: t) = bare step.raw := by
  rw [readComment] at h
  split at h
  · cases h
  · rename_i content r hclose
    cases h
    rw [closeComment?_append hclose]
    simp (disch := decide) [Step.raw, raw, Leaf.raw, bare_cons]

theorem bare_readAtRule (h : readAtRule start t = .ok step) :
    bare ('@' :: t) = bare step.raw := by
  rw [readAtRule] at h
  split at h
  · cases h
  · obtain ⟨⟨params, r⟩, hscan, h⟩ := Outcome.bind_eq_ok h
    have ht : bare t = bare (t.takeWhile isNameChar) ++ (bare params ++ bare r) := by
      rw [← bare_append, ← (Scanner.scan_append hscan).1, ← bare_append,
        List.takeWhile_append_dropWhile]
    rw [bare_cons (by decide), ht]
    dsimp only at h
    -- the brace that opens a block belongs to the token, a semicolon is layout, and all else is
    -- left
    split at h
    · cases h
      simp (disch := decide) [Step.raw, raw, Head.raw, bare_cons]
    · cases h
      simp (disch := decide) [Step.raw, raw, Leaf.raw, bare_cons]
    · cases h
      simp (disch := decide) [Step.raw, raw, Leaf.raw, bare_cons]

/-- A statement without a block keeps all its text. -/
theorem bare_readDeclaration {statement : Text} {terminated : Bool}
    (h : readDeclaration start statement terminated = .ok token) :
    bare token.raw = bare statement := by
  rw [readDeclaration] at h
  split at h
  · rename_i content hread
    obtain rfl := Except.ok.inj h
    exact Declaration.bare_raw_of_read? hread
  · cases h

theorem bare_readStatement (h : readStatement start t = .ok step) :
    bare t = bare step.raw := by
  obtain ⟨⟨statement, r⟩, hscan, h⟩ := Outcome.bind_eq_ok h
  rw [(Scanner.scan_append hscan).1, bare_append]
  dsimp only at h
  split at h
  · split at h
    · cases h
    · cases h
      simp (disch := decide) [Step.raw, raw, Head.raw, bare_cons]
  · obtain ⟨declaration, hread, h⟩ := Outcome.bind_eq_ok h
    cases h
    rw [Step.raw, bare_append, bare_readDeclaration hread, bare_semicolon]
  · obtain ⟨declaration, hread, h⟩ := Outcome.bind_eq_ok h
    cases h
    rw [Step.raw, bare_append, bare_readDeclaration hread]

theorem isBare_eq_false_of_isFiller {c : Char} (h : isFiller c = true) : isBare c = false := by
  rcases Bool.or_eq_true_iff.1 h with hgap | hsemicolon
  · exact isBare_eq_false_of_isGap hgap
  · rw [beq_iff_eq.1 hsemicolon]
    rfl

/-- **A token keeps what it takes** from the source, up to layout. -/
theorem bare_next (h : next start t = .ok step) : bare t = bare step.raw := by
  -- what is skipped in front of a token is layout
  rw [← bare_dropWhile isBare_eq_false_of_isFiller t]
  rw [next] at h
  split at h
  · rename_i hr
    cases h
    rw [hr]
    rfl
  · rename_i r hr
    cases h
    rw [hr]
    rfl
  · rename_i r hr
    rw [hr]
    exact bare_readComment h
  · rename_i r hr
    rw [hr]
    exact bare_readAtRule h
  · exact bare_readStatement h

/-- All tokens of a source together keep all of it. -/
theorem bare_readAll {stop : Position} (h : (readAll start t).ending = .ok stop) :
    bare ((readAll start t).tokens.flatMap raw) = bare t := by
  induction start, t using readAll.induct with
  | case1 start t error hnext =>
    rw [readAll_of_error hnext] at h
    cases h
  | case2 start t stop hnext =>
    rw [readAll_of_done hnext, bare_next hnext]
    rfl
  | case3 start t token here rest hnext ih =>
    rw [readAll_of_token hnext] at h ⊢
    rw [List.flatMap_cons, bare_append, ih h, bare_next hnext, Step.raw, bare_append]

end Token

/-! ## The tree -/

namespace Document

/-- What was put aside for an open block as raw text, up to its opening brace. -/
def Frame.raw (frame : Frame) : Text := Node.rawAll frame.before.reverse ++ frame.head.raw ++ ['{']

namespace Builder

/-- A tree under construction as raw text: the open blocks from the outermost on, then the nodes of
the innermost one. -/
def raw (b : Builder) : Text := b.frames.reverse.flatMap Frame.raw ++ Node.rawAll b.nodes.reverse

variable {b b' : Builder} {token : Token} {tokens : List Token} {nodes : List Node}

/-- One more token is one more piece of raw text. -/
theorem raw_step (h : b.step token = .ok b') : b'.raw = b.raw ++ token.raw := by
  cases token with
  | leaf content span =>
    obtain rfl := Except.ok.inj h
    rw [raw, raw, Node.rawAll_reverse_cons, Node.raw, Token.raw, List.append_assoc]
  | opening head start =>
    obtain rfl := Except.ok.inj h
    simp [raw, Frame.raw, Token.raw]
  | closing place =>
    rw [step] at h
    split at h
    · cases h
    · -- what the frame put aside, its head and the nodes of the block are now one node
      rename_i frame frames hframes
      obtain rfl := Except.ok.inj h
      rw [raw, raw, hframes, Node.rawAll_reverse_cons, Node.raw]
      simp [Frame.raw, Token.raw]

/-- The tree holds the raw text of all tokens, in order. -/
theorem raw_foldlM (h : tokens.foldlM step b = .ok b') :
    b'.raw = b.raw ++ tokens.flatMap Token.raw := by
  induction tokens generalizing b with
  | nil =>
    obtain rfl := Except.ok.inj h
    exact (List.append_nil _).symm
  | cons token tokens ih =>
    rw [List.foldlM_cons] at h
    obtain ⟨between, hstep, hrest⟩ := Outcome.bind_eq_ok h
    rw [ih hrest, raw_step hstep, List.append_assoc, List.flatMap_cons]

theorem raw_finish (h : b.finish = .ok nodes) : Node.rawAll nodes = b.raw := by
  rw [finish] at h
  split at h
  · rename_i hframes
    obtain rfl := Except.ok.inj h
    rw [raw, hframes]
    rfl
  · cases h

end Builder

/-- **Reading loses nothing.** A stylesheet that was read, written back as raw text, is its source
up to blanks and semicolons. -/
theorem parse_loses_nothing {source : Text} {document : Document}
    (h : parse source = .ok document) : bare (Node.rawAll document.nodes) = bare source := by
  obtain ⟨builder, hbuilder, h⟩ := Outcome.bind_eq_ok h
  obtain ⟨stop, hstop, h⟩ := Outcome.bind_eq_ok h
  obtain ⟨nodes, hnodes, h⟩ := Outcome.bind_eq_ok h
  obtain rfl := Except.ok.inj h
  calc
    bare (Node.rawAll nodes) = bare builder.raw := by rw [Builder.raw_finish hnodes]
    _ = bare ((Token.readAll .start source).tokens.flatMap Token.raw) := by
      rw [Builder.raw_foldlM hbuilder]
      rfl
    _ = bare source := Token.bare_readAll hstop

/-- A stylesheet with stray semicolons, semicolons in brackets, strings and comments, an importance
marker with a blank in it, and statements that only a brace or the end of the source ends. -/
def patchwork : Text := ";;@m (;) \x7b a[b=';'] \x7bc :d! IMPORTANT;;e:f\x7d/* ; */\x7d @i x".toList

/-- All of it can be read, and all of it is kept. -/
theorem parse_loses_nothing_patchwork :
    ∃ document, parse patchwork = .ok document ∧
      bare (Node.rawAll document.nodes) =
        "@m()\x7ba[b='']\x7bc:d!IMPORTANTe:f\x7d/**/\x7d@ix".toList := by
  have hok : (parse patchwork).isOk = true := by decide +kernel
  have hbare : bare patchwork = "@m()\x7ba[b='']\x7bc:d!IMPORTANTe:f\x7d/**/\x7d@ix".toList := by
    decide +kernel
  rcases hparse : parse patchwork with error | document
  · rw [hparse] at hok
    cases hok
  · exact ⟨document, rfl, (parse_loses_nothing hparse).trans hbare⟩

end Document

end MiniSheet
