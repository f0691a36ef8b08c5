import MiniSheet.Proofs.Forests
import MiniSheet.Proofs.Places
import MiniSheet.Proofs.SelfContained
import MiniSheet.Proofs.Shielded

/-!
# The texts of nodes

Every node of a source has a text of its own. A leaf stands on its own (`Token.Stands`): comments
and at-rules take all of the text up to the next token, and declarations all but their ending and
the blanks in front of that, so that they are read with less in them (`Declaration.alone`). A block
reaches from its head to its closing brace.

A text that holds nodes can therefore be cut at the first of them (`Document.Cut`): there is
something to skip in front of the node, then its own text (`Document.Owns`), what ends it, and a
text that holds the other nodes. Nothing is ever open where a node starts, be it a string, a comment
or a bracket (`Token.after_of_next`). So each node has its text (`Document.Holds.exists_owns`), and
as the children of a block stand between its braces, this goes on through all levels of a document
(`Document.Level.exists_holds`).
-/

namespace MiniSheet

open Text

/-! ## Leaves on their own -/

namespace Declaration

variable {d : Declaration} {statement : Text} {terminated : Bool}

/-- The declaration as it reads without its semicolon and the blanks in front of that. If it has
neither a value nor a marker, these are the blanks behind the colon. -/
def alone (d : Declaration) : Declaration :=
  { d with
    separator := if d.value.isEmpty && d.marker.isNone then trimEnd d.separator else d.separator
    terminated := false }

/-- A marker or a value is left of every text that is not empty. -/
theorem splitMarker_eq_nil {t : Text} (h : splitMarker t = ([], none)) : t = [] := by
  rcases unmarked_or_marked t with hunmarked | ⟨front, word, rfl, hword⟩
  · rw [splitMarker_of_unmarked hunmarked] at h
    exact (Prod.mk.inj h).1
  · rw [splitMarker_append hword] at h
    cases (Prod.mk.inj h).2

/-- Without the blanks behind it a declaration can still be read. -/
theorem read?_trimEnd (h : read? statement terminated = some d) :
    read? (trimEnd statement) false = some d.alone := by
  obtain ⟨front, back, rest, rfl, hne, hproperty, hseparator, hfront, hback, hrest, hsplit, -⟩ :=
    parts_of_read? h
  have hcolon {s : Text} : ∀ c ∈ (s ++ [':']).getLast?, isBlank c = false := by simp; decide
  obtain ⟨blanks, hblanks, hblank⟩ := exists_trimEnd_append rest
  by_cases hempty : trimEnd rest = []
  · -- there is nothing but blanks behind the colon
    rw [hempty, List.nil_append] at hblanks
    rw [hempty] at hsplit
    obtain ⟨hvalue, hmarker⟩ := Prod.mk.inj hsplit
    have hback' : ∀ c ∈ back, isBlank c = true := fun c hc => isBlank_of_isGap (hback c hc)
    have hbehind : ∀ c ∈ back ++ rest, isBlank c = true := by
      intro c hc
      rcases List.mem_append.1 hc with hc | hc
      · exact hback' c hc
      · exact hblank c (hblanks ▸ hc)
    have hstatement : trimEnd (d.property ++ (front ++ ':' :: (back ++ rest))) =
        d.property ++ (front ++ ':' :: ([] ++ [])) := by
      have htext : d.property ++ (front ++ ':' :: (back ++ rest)) =
          (d.property ++ front ++ [':']) ++ (back ++ rest) := by
        simp
      rw [htext, trimEnd_append_blank hbehind, trimEnd_of_last hcolon]
      simp
    have htrim : trimEnd (front ++ ':' :: back) = front ++ [':'] := by
      rw [← List.singleton_append, ← List.append_assoc, trimEnd_append_blank hback',
        trimEnd_of_last hcolon]
    have halone : d.alone = ⟨d.property, front ++ [':'], [], none, false⟩ := by
      rw [alone, hseparator, ← hvalue, ← hmarker, htrim]
      rfl
    rw [hstatement, read?_parts hne hproperty hfront (by simp) (by simp), halone]
    rfl
  · -- the value or the marker stands at the end
    have hstatement : trimEnd (d.property ++ (front ++ ':' :: (back ++ rest))) =
        d.property ++ (front ++ ':' :: (back ++ trimEnd rest)) := by
      have htext : d.property ++ (front ++ ':' :: (back ++ rest)) =
          (d.property ++ (front ++ ':' :: back) ++ trimEnd rest) ++ blanks := by
        rw [List.append_assoc, ← hblanks]
        simp
      have hlast : ∀ c ∈ (d.property ++ (front ++ ':' :: back) ++ trimEnd rest).getLast?,
          isBlank c = false := by
        intro c hc
        obtain ⟨last, hlast⟩ := Option.isSome_iff_exists.1 (List.getLast?_isSome.2 hempty)
        rw [List.getLast?_append, hlast] at hc
        exact last_trimEnd c (hlast.trans hc)
      rw [htext, trimEnd_append_blank hblank, trimEnd_of_last hlast]
      simp
    have hkept : (d.value.isEmpty && d.marker.isNone) = false := by
      rw [Bool.eq_false_iff]
      intro hnone
      obtain ⟨hvalue, hmarker⟩ := Bool.and_eq_true_iff.1 hnone
      rw [List.isEmpty_iff.1 hvalue, Option.isNone_iff_eq_none.1 hmarker] at hsplit
      exact hempty (splitMarker_eq_nil hsplit)
    rw [hstatement, read?_parts hne hproperty hfront hback (head_trimEnd hrest),
      trimEnd_of_last last_trimEnd, hsplit, alone, hkept, ← hseparator]
    rfl

end Declaration

/-- The leaf as it reads on its own: declarations lose their semicolon. -/
def Leaf.alone : Leaf → Leaf
  | .declaration content => .declaration content.alone
  | content => content

/-- The node as it reads on its own. -/
def Node.alone : Node → Node
  | .leaf content span => .leaf content.alone span
  | node => node

namespace Token

variable {here there : Position} {t taken rest : Text} {content : Leaf} {span : Span}
  {token : Token}

/-- What is neither a brace nor a comment is an at-rule or a statement. -/
theorem next_of_begins (hbegins : Begins t) (hclosing : ¬ ['}'] <+: t) (here : Position) :
    (∃ behind, t = '@' :: behind ∧ next here t = readAtRule here behind) ∨
      (∀ c ∈ t.head?, c ≠ '@') ∧ next here t = readStatement here t := by
  obtain ⟨c, behind, rfl⟩ := List.exists_cons_of_ne_nil hbegins.ne_nil
  by_cases hat : c = '@'
  · subst hat
    exact .inl ⟨behind, rfl, next_atRule⟩
  · have hbrace : c ≠ '}' := by
      rintro rfl
      exact hclosing ⟨behind, rfl⟩
    have hcomment (rest : Text) : c :: behind ≠ '/' :: '*' :: rest :=
      fun heq => hbegins.comment ⟨rest, heq.symm⟩
    refine .inr ⟨fun first hfirst => ?_, next_statement (hbegins.filler c rfl) hbrace hat hcomment⟩
    obtain rfl := Option.some.inj hfirst
    exact hat

/-- What is known of a leaf and the text it was read from. -/
structure Stands (here : Position) (content : Leaf) (span : Span) (own : Text) : Prop where
  /-- the span is that of the text -/
  place : span = ⟨here, here.advance own⟩
  /-- there is something in it -/
  ne_nil : own ≠ []
  /-- the leaf is read from the text on its own -/
  alone : next here own = .ok (.token (.leaf content.alone span) span.stop [])
  /-- a declaration leaves nothing open, and is found in the text as such -/
  declared : ∀ d, content = .declaration d →
    Sealed own ∧ trimEnd own = own ∧ Declaration.read? own false = some d.alone

/-- Comments and at-rules take all of the text up to the next token. -/
theorem Taken.stands (h : Taken here t (.leaf content span) there rest taken)
    (hspan : span = ⟨here, there⟩) (hcontent : ∀ d, content ≠ .declaration d) :
    Stands here content span taken where
  place := by rw [hspan, h.place]
  ne_nil := h.ne_nil
  alone := by
    have hsame : content.alone = content := by
      cases content with
      | declaration d => exact absurd rfl (hcontent d)
      | atRule | comment => rfl
    have hagain := h.again [] fun _ => .inl fenced_nil
    rw [List.append_nil] at hagain
    rw [hagain, hsame, hspan]
  declared d hd := absurd hd (hcontent d)

theorem whole_of_readComment (h : readComment here t =
    .ok (.token (.leaf content span) there rest)) :
    span = ⟨here, there⟩ ∧ ∀ d, content ≠ .declaration d := by
  rw [readComment] at h
  split at h
  · cases h
  · cases h
    exact ⟨rfl, fun d hd => by cases hd⟩

theorem whole_of_readAtRule (h : readAtRule here t = .ok (.token (.leaf content span) there rest)) :
    span = ⟨here, there⟩ ∧ ∀ d, content ≠ .declaration d := by
  rw [readAtRule] at h
  split at h
  · cases h
  · obtain ⟨⟨params, behind⟩, -, h⟩ := Outcome.bind_eq_ok h
    dsimp only at h
    split at h
    all_goals cases h
    all_goals exact ⟨rfl, fun d hd => by cases hd⟩

theorem exists_of_readDeclaration {statement : Text} {terminated : Bool}
    (h : readDeclaration here statement terminated = .ok (.leaf content span)) :
    ∃ d, content = .declaration d ∧ Declaration.read? statement terminated = some d ∧
      span = ⟨here, here.advance (trimEnd statement)⟩ := by
  rw [readDeclaration] at h
  split at h
  · rename_i d hread
    obtain ⟨rfl, rfl⟩ := Token.leaf.inj (Except.ok.inj h)
    exact ⟨d, rfl, hread, rfl⟩
  · cases h

/-- A statement that opens no block is a declaration. -/
theorem exists_of_readStatement (h : readStatement here t =
    .ok (.token (.leaf content span) there rest)) :
    ∃ statement ending d terminated, t = statement ++ (ending ++ rest) ∧ Sealed statement ∧
      content = .declaration d ∧ Declaration.read? statement terminated = some d ∧
      span = ⟨here, here.advance (trimEnd statement)⟩ := by
  obtain ⟨⟨statement, behind⟩, hscan, h⟩ := Outcome.bind_eq_ok h
  have hsealed := (sealed_of_scan hscan).1
  have htext := (Scanner.scan_append hscan).1
  dsimp only at h
  split at h
  · split at h <;> cases h
  · obtain ⟨token, hdeclaration, h⟩ := Outcome.bind_eq_ok h
    cases h
    obtain ⟨d, hd⟩ := exists_of_readDeclaration hdeclaration
    exact ⟨statement, [';'], d, true, htext, hsealed, hd⟩
  · obtain ⟨token, hdeclaration, h⟩ := Outcome.bind_eq_ok h
    cases h
    obtain ⟨d, hd⟩ := exists_of_readDeclaration hdeclaration
    exact ⟨statement, [], d, false, htext, hsealed, hd⟩

/-- A declaration without the blanks behind it is read on its own. -/
theorem stands_declaration {statement : Text} {d : Declaration} {terminated : Bool}
    (hbegins : Begins (statement ++ rest)) (hat : ∀ c ∈ (statement ++ rest).head?, c ≠ '@')
    (hsealed : Sealed statement) (hread : Declaration.read? statement terminated = some d) :
    Stands here (.declaration d) ⟨here, here.advance (trimEnd statement)⟩ (trimEnd statement) := by
  have hread' := Declaration.read?_trimEnd hread
  have hne : trimEnd statement ≠ [] := List.ne_nil_of_length_pos (length_pos_of_read? hread')
  obtain ⟨blanks, hblanks, -⟩ := exists_trimEnd_append statement
  have htext : statement ++ rest = trimEnd statement ++ (blanks ++ rest) := by
    rw [← List.append_assoc, ← hblanks]
  rw [htext] at hbegins hat
  have hclosing : ¬ ['}'] <+: trimEnd statement := by
    rintro ⟨behind, hbrace⟩
    cases (hbrace ▸ hsealed.trimEnd).isTerminator_head
  refine ⟨rfl, hne, ?_, fun d' hd => ?_⟩
  · rcases next_of_begins (hbegins.of_append hne) hclosing here with ⟨behind, hcons, -⟩ | ⟨-, hnext⟩
    · exact absurd rfl (hat '@' (by rw [hcons]; rfl))
    · have hscan := hsealed.trimEnd.scan here [] (by simp)
      rw [List.append_nil] at hscan
      rw [hnext, readStatement_of_end hscan fenced_nil, readDeclaration, hread',
        trimEnd_of_last last_trimEnd]
      rfl
  · obtain rfl := Leaf.declaration.inj hd
    exact ⟨hsealed.trimEnd, trimEnd_of_last last_trimEnd, hread'⟩

/-- **Every leaf has a text of its own.** -/
theorem exists_stands (hhead : ∀ c ∈ t.head?, isFiller c = false)
    (h : next here t = .ok (.token (.leaf content span) there rest)) :
    ∃ own gap, t = own ++ (gap ++ rest) ∧ Stands here content span own := by
  obtain ⟨taken, htaken⟩ := taken_of_next h
  have hwhole : (span = ⟨here, there⟩ ∧ ∀ d, content ≠ .declaration d) →
      ∃ own gap, t = own ++ (gap ++ rest) ∧ Stands here content span own := by
    rintro ⟨hspan, hcontent⟩
    exact ⟨taken, [], htaken.text, htaken.stands hspan hcontent⟩
  rcases cases_of_head hhead with rfl | ⟨after, rfl⟩ | ⟨after, rfl⟩ | ⟨hbegins, hclosing⟩
  · cases h
  · rw [next_closing] at h
    cases h
  · rw [next_comment] at h
    exact hwhole (whole_of_readComment h)
  · rcases next_of_begins hbegins hclosing here with ⟨behind, rfl, hnext⟩ | ⟨hat, hnext⟩
    · rw [hnext] at h
      exact hwhole (whole_of_readAtRule h)
    · rw [hnext] at h
      obtain ⟨statement, ending, d, terminated, rfl, hsealed, rfl, hread, rfl⟩ :=
        exists_of_readStatement h
      obtain ⟨blanks, hblanks, -⟩ := exists_trimEnd_append statement
      refine ⟨trimEnd statement, blanks ++ ending, ?_, stands_declaration hbegins hat hsealed hread⟩
      rw [List.append_assoc, ← List.append_assoc _ blanks, ← hblanks]

theorem start_of_next {head : Head} {start : Position} (hhead : ∀ c ∈ t.head?, isFiller c = false)
    (h : next here t = .ok (.token (.opening head start) there rest)) : start = here := by
  rcases cases_of_head hhead with rfl | ⟨after, rfl⟩ | ⟨after, rfl⟩ | ⟨hbegins, hclosing⟩
  · cases h
  · rw [next_closing] at h
    cases h
  · rw [next_comment, readComment] at h
    split at h <;> cases h
  · rcases next_of_begins hbegins hclosing here with ⟨behind, rfl, hnext⟩ | ⟨-, hnext⟩
    · rw [hnext, readAtRule] at h
      split at h
      · cases h
      · obtain ⟨⟨params, after⟩, -, h⟩ := Outcome.bind_eq_ok h
        dsimp only at h
        split at h
        all_goals cases h
        rfl
    · rw [hnext] at h
      obtain ⟨⟨statement, after⟩, -, h⟩ := Outcome.bind_eq_ok h
      dsimp only at h
      split at h
      · split at h <;> cases h
        rfl
      all_goals
        obtain ⟨token, hdeclaration, h⟩ := Outcome.bind_eq_ok h
        cases h
        obtain ⟨content, hpiece⟩ := readDeclaration_makes hdeclaration
        cases hpiece

end Token

/-! ## Depth between tokens -/

namespace Depth

variable {d : Depth} {c : Char} {t : Text}

/-- Nothing stays open behind what ends a statement. -/
theorem step_of_isTerminator (hfree : d.isFree = true) (hc : Scanner.isTerminator c = true) :
    d.step c = start := by
  obtain ⟨zone, closers⟩ := d
  obtain ⟨hcode, hclosers⟩ := Bool.and_eq_true_iff.1 hfree
  obtain rfl := List.isEmpty_iff.1 hclosers
  simp only [Scanner.isTerminator, Bool.or_eq_true, beq_iff_eq] at hc
  rcases hc with (rfl | rfl) | rfl <;> cases zone <;> first | rfl | cases hcode

theorem after_fillers (h : ∀ c ∈ t, Token.isFiller c = true) : start.after t = start := by
  induction t with
  | nil => rfl
  | cons c t ih =>
    have hstep : start.step c = start := by
      rcases Bool.or_eq_true_iff.1 (h c List.mem_cons_self) with hgap | hsemicolon
      · exact step_of_isPlain proper_start rfl (isPlain_of_isGap hgap)
      · rw [beq_iff_eq.1 hsemicolon]
        rfl
    rw [after_cons, hstep]
    exact ih fun other hmem => h other (List.mem_cons_of_mem _ hmem)

theorem after_comment {content rest : Text} (h : Token.closeComment? t = some (content, rest)) :
    start.after ('/' :: '*' :: (content ++ ['*', '/'])) = start :=
  after_of_run (d := ⟨.comment, []⟩)
    (run_of_closeComment? (.inl rfl) (Token.closeComment?_again h []))

end Depth

namespace Token

variable {here there stop : Position} {t taken rest : Text} {token : Token} {tokens : List Token}

/-- **Nothing stays open behind a token**, unless a closing brace or the end of the source has to
end it. -/
theorem after_of_next (h : next here t = .ok (.token token there rest))
    (htext : t = taken ++ rest) :
    Depth.start.after taken = .start ∨
      (∃ content span, token = .leaf content span) ∧ (Depth.start.after taken).isFree = true ∧
      Fenced rest := by
  obtain ⟨fillers, behind, rfl, hfillers, hbehind⟩ := exists_fillers t
  rw [next_append_fillers hfillers] at h
  obtain ⟨bare, hbare⟩ := taken_of_next h
  obtain rfl : taken = fillers ++ bare := by
    refine List.append_cancel_right (htext.symm.trans ?_)
    rw [hbare.text, List.append_assoc]
  rw [Depth.after_append, Depth.after_fillers hfillers]
  rcases cases_of_head hbehind with rfl | ⟨after, rfl⟩ | ⟨after, rfl⟩ | ⟨hbegins, hclosing⟩
  · cases h
  · rw [next_closing] at h
    cases h
    obtain rfl : bare = ['}'] := List.append_cancel_right (hbare.text.symm.trans rfl)
    exact .inl rfl
  · rw [next_comment, readComment] at h
    split at h
    · cases h
    · rename_i content back hclose
      cases h
      have hcomment : '/' :: '*' :: after = '/' :: '*' :: (content ++ ['*', '/']) ++ rest := by
        rw [closeComment?_append hclose]
        simp
      obtain rfl := List.append_cancel_right (hbare.text.symm.trans hcomment)
      exact .inl (Depth.after_comment hclose)
  · obtain ⟨s, ending, back, rfl, hsealed, hstart, hadmits⟩ :=
      exists_sealed_of_next hbegins hclosing h
    obtain ⟨result, hmakes, hread⟩ := next_of_sealed hsealed hstart (here.advance fillers) ending
    rw [hread back hadmits] at h
    obtain ⟨token, hresult, hstep⟩ := Outcome.map_eq_ok h
    cases hstep
    have hstatement := hbare.text
    rw [← List.append_assoc] at hstatement
    obtain rfl := List.append_cancel_right hstatement
    have hfree := Depth.isFree_after_of_sealed hsealed
    rw [Depth.after_append]
    cases ending with
    | block | semicolon => exact .inl (Depth.step_of_isTerminator hfree rfl)
    | loose =>
      obtain ⟨content, hpiece⟩ := hmakes token hresult
      refine .inr ⟨?_, hfree, hadmits⟩
      cases token with
      | leaf content span => exact ⟨content, span, rfl⟩
      | opening | closing => cases hpiece

/-- Nothing is open at the end of a source. -/
theorem isFree_after_of_readAll (h : readAll here t = ⟨tokens, .ok stop⟩) {d : Depth}
    (hd : d = .start ∨ d.isFree = true ∧ Fenced t) : (d.after t).isFree = true := by
  induction here, t using readAll.induct generalizing tokens d with
  | case1 here t error hnext =>
    rw [readAll_of_error hnext] at h
    cases h
  | case2 here t stop hnext =>
    obtain ⟨hfillers, -⟩ := fillers_of_done hnext
    rcases hd with rfl | ⟨hfree, hfenced⟩
    · rw [Depth.after_fillers hfillers]
      rfl
    · cases t with
      | nil => exact hfree
      | cons c t =>
        obtain rfl := hfenced c rfl
        cases hfillers '}' List.mem_cons_self
  | case3 here t token there rest hnext ih =>
    rw [readAll_of_token hnext] at h
    obtain ⟨-, hending⟩ := Reading.mk.inj h
    have hrest : readAll there rest = ⟨(readAll there rest).tokens, .ok stop⟩ := by rw [← hending]
    obtain ⟨taken, htaken⟩ := taken_of_next hnext
    rcases hd with rfl | ⟨hfree, hfenced⟩
    · rw [htaken.text, Depth.after_append]
      exact ih hrest ((after_of_next hnext htaken.text).imp_right And.right)
    · -- a token in front of which something is open but for a brace is that brace
      cases t with
      | nil => cases hnext
      | cons c t =>
        obtain rfl := hfenced c rfl
        rw [next_closing] at hnext
        cases hnext
        rw [Depth.after_cons, Depth.step_of_isTerminator hfree rfl]
        exact ih hrest (.inl rfl)

theorem next_of_readAll (h : readAll here t = ⟨token :: tokens, .ok stop⟩) :
    ∃ front behind there rest, t = front ++ behind ∧ Depth.start.after front = .start ∧
      (∀ c ∈ behind.head?, isFiller c = false) ∧
      next (here.advance front) behind = .ok (.token token there rest) ∧
      readAll there rest = ⟨tokens, .ok stop⟩ := by
  obtain ⟨fillers, behind, rfl, hfillers, hbehind⟩ := exists_fillers t
  rw [readAll_append_fillers hfillers] at h
  refine ⟨fillers, behind, ?_⟩
  rcases hnext : next (here.advance fillers) behind with error | stop | ⟨first, there, rest⟩
  · rw [readAll_of_error hnext] at h
    cases h
  · rw [readAll_of_done hnext] at h
    cases h
  · rw [readAll_of_token hnext] at h
    obtain ⟨htokens, hending⟩ := Reading.mk.inj h
    obtain ⟨rfl, rfl⟩ := List.cons.inj htokens
    exact ⟨there, rest, rfl, Depth.after_fillers hfillers, hbehind, rfl, by rw [← hending]⟩

end Token

/-! ## Nodes on their own -/

namespace Document

/-- What is known of a node and the text it was read from. -/
structure Owns (here : Position) (node : Node) (own : Text) : Prop where
  /-- the span is that of the text -/
  span : node.span = ⟨here, here.advance own⟩
  /-- there is something in it -/
  ne_nil : own ≠ []
  /-- it is made of the node alone -/
  holds : Holds here own [node.alone]
  /-- the children of a block stand between its braces -/
  inside : ∀ head children span, node = .block head children span →
    ∃ opening inner, own = opening ++ (inner ++ ['}']) ∧ Depth.start.after opening = .start ∧
      Holds (here.advance opening) inner children
  /-- a declaration leaves nothing open, and is found in the text as such -/
  declared : ∀ d span, node = .leaf (.declaration d) span →
    Sealed own ∧ trimEnd own = own ∧ Declaration.read? own false = some d.alone

/-- A text cut at its first node. -/
structure Cut (here : Position) (t : Text) (node : Node) (nodes : List Node)
    (front own gap rest : Text) : Prop where
  /-- the node stands between two other texts, and with it what ends it -/
  text : t = front ++ (own ++ (gap ++ rest))
  /-- nothing is open in front of the node -/
  free : Depth.start.after front = .start
  /-- the node has a text of its own -/
  owns : Owns (here.advance front) node own
  /-- the other nodes stand behind it -/
  holds : Holds (here.advance (front ++ (own ++ gap))) rest nodes
  /-- nothing is open there, unless nothing stands there -/
  again : Depth.start.after (own ++ gap) = .start ∨ nodes = []

variable {here : Position} {t source : Text} {node : Node} {nodes children : List Node}
  {content : Leaf} {head : Head}
  {span : Span} {document : Document}

theorem Holds.eq_nil (h : Holds here t nodes) (ht : Fenced t) : nodes = [] := by
  obtain ⟨tokens, hread, hbuilds⟩ := h
  cases t with
  | nil =>
    rw [Token.readAll_nil] at hread
    obtain ⟨rfl, -⟩ := Token.Reading.mk.inj hread
    cases hbuilds
    rfl
  | cons c t =>
    obtain rfl := ht c rfl
    rw [Token.readAll_of_token Token.next_closing] at hread
    obtain ⟨rfl, -⟩ := Token.Reading.mk.inj hread
    cases hbuilds

theorem Holds.cut_leaf (h : Holds here t (.leaf content span :: nodes)) :
    ∃ front own gap rest, Cut here t (.leaf content span) nodes front own gap rest := by
  obtain ⟨_, hread, hbuilds⟩ := h
  cases hbuilds with
  | @leaf _ _ tokens _ hrest =>
    obtain ⟨front, behind, there, rest, rfl, hfree, hhead, hnext, hread⟩ :=
      Token.next_of_readAll hread
    obtain ⟨own, gap, htext, hstands⟩ := Token.exists_stands hhead hnext
    obtain ⟨taken, htaken⟩ := Token.taken_of_next hnext
    rw [← List.append_assoc] at htext
    obtain rfl := List.append_cancel_right (htaken.text.symm.trans htext)
    have hholds : Holds (here.advance (front ++ (own ++ gap))) rest nodes := by
      rw [Token.stop_of_readAll hread, htaken.place, ← Position.advance_append] at hread
      exact ⟨tokens, hread, hrest⟩
    refine ⟨front, own, gap, rest, ?_, hfree, ?_, hholds, ?_⟩
    · rw [htext, List.append_assoc]
    · refine ⟨hstands.place, hstands.ne_nil, ⟨[.leaf content.alone span], ?_, .leaf .nil⟩, nofun,
        fun d span heq => ?_⟩
      · rw [Token.readAll_of_token hstands.alone, Token.readAll_nil, hstands.place]
      · exact hstands.declared d (Node.leaf.inj heq).1
    · exact (Token.after_of_next hnext htext).imp_right fun hloose => hholds.eq_nil hloose.2.2

theorem Holds.cut_block (h : Holds here t (.block head children span :: nodes)) :
    ∃ front own gap rest, Cut here t (.block head children span) nodes front own gap rest := by
  obtain ⟨_, hwhole, hbuilds⟩ := h
  cases hbuilds with
  | @block _ start place inner tokens _ _ hinner hrest =>
    obtain ⟨front, behind, there, rest, rfl, hfree, hhead, hnext, hread⟩ :=
      Token.next_of_readAll hwhole
    obtain rfl := Token.start_of_next hhead hnext
    obtain ⟨opening, hopening⟩ := Token.taken_of_next hnext
    -- the block goes up to the closing brace that is read behind its children
    obtain ⟨inside, back, rfl, hinside, hback, hending⟩ :=
      Token.readAll_of_closing (congrArg Token.Reading.tokens hread)
    have hbehind : Token.readAll (place.step '}') back =
        ⟨tokens, .ok ((place.step '}').advance back)⟩ := by
      rw [hread] at hending
      have hends : Token.readAll (place.step '}') back =
          ⟨tokens, .ok (here.advance (front ++ behind))⟩ := by
        rw [← hback]
        exact congrArg (Token.Reading.mk _) hending
      rw [hends, Token.stop_of_readAll hends]
    have hplace := Token.stop_of_readAll hinside
    have hthere := hopening.place
    have hstop : place.step '}' = (here.advance front).advance (opening ++ (inside ++ ['}'])) := by
      rw [Position.advance_append, Position.advance_append, ← hthere, ← hplace]
      rfl
    have hopen : Depth.start.after opening = .start := by
      rcases Token.after_of_next hnext hopening.text with hopen | ⟨⟨content, span, hleaf⟩, -⟩
      · exact hopen
      · cases hleaf
    have hclosed : Depth.start.after (opening ++ (inside ++ ['}'])) = .start := by
      rw [Depth.after_append, hopen, Depth.after_append]
      exact Depth.step_of_isTerminator (Token.isFree_after_of_readAll hinside (.inl rfl)) rfl
    refine ⟨front, opening ++ (inside ++ ['}']), [], back, ?_, hfree, ?_, ?_, .inl ?_⟩
    · rw [hopening.text]
      simp
    · refine ⟨?_, ?_, ⟨_, ?_, .block hinner .nil⟩, fun _ _ _ heq => ?_, nofun⟩
      · rw [← hstop]
        rfl
      · simp
      · have hagain := hopening.again (inside ++ ['}']) fun hfenced => .inl ?_
        · rw [Token.readAll_of_token hagain, Token.readAll_append_brace hinside,
            Token.readAll_nil, hstop]
        · cases inside with
          | nil => exact fun c hc => (Option.some.inj hc).symm
          | cons c inside => exact hfenced
      · obtain ⟨rfl, rfl, rfl⟩ := Node.block.inj heq
        refine ⟨opening, inside, rfl, hopen, inner, ?_, hinner⟩
        rw [← hthere, hinside, hplace]
    · refine ⟨tokens, ?_, hrest⟩
      rw [List.append_nil, Position.advance_append, ← hstop, hbehind]
    · rw [List.append_nil]
      exact hclosed

theorem Holds.exists_cut (h : Holds here t (node :: nodes)) :
    ∃ front own gap rest, Cut here t node nodes front own gap rest := by
  cases node with
  | leaf content span => exact h.cut_leaf
  | block head children span => exact h.cut_block

/-- **Every node has a text of its own**, and nothing is open in front of it. -/
theorem Holds.exists_owns (h : Holds here t nodes) (hmem : node ∈ nodes) : ∃ front own back,
    t = front ++ (own ++ back) ∧ Depth.start.after front = .start ∧
      Owns (here.advance front) node own := by
  induction nodes generalizing here t with
  | nil => cases hmem
  | cons first nodes ih =>
    obtain ⟨front, own, gap, rest, hcut⟩ := h.exists_cut
    rcases List.mem_cons.1 hmem with rfl | hmem
    · exact ⟨front, own, gap ++ rest, hcut.text, hcut.free, hcut.owns⟩
    · obtain ⟨between, own', back, hrest, hfree, howns⟩ := ih hcut.holds hmem
      refine ⟨front ++ (own ++ gap) ++ between, own', back, ?_, ?_, ?_⟩
      · rw [hcut.text, hrest]
        simp
      · rw [Depth.after_append, Depth.after_append, hcut.free,
          hcut.again.resolve_right (List.ne_nil_of_mem hmem), hfree]
      · rwa [Position.advance_append]

/-! ## All levels of a document -/

/-- The lists of nodes in a document, at all depths, each with the span of what it stands in. -/
inductive Level (document : Document) : Span → List Node → Prop where
  /-- the nodes of the document -/
  | top : Level document document.span document.nodes
  /-- the children of a block -/
  | block {outer span : Span} {head : Head} {children nodes : List Node}
    (h : Level document outer nodes)
    (hmem : Node.block head children span ∈ nodes) : Level document span children

variable {outer : Span}

/-- **At every level the source holds the nodes** somewhere within the span, and nothing is open in
front of them. -/
theorem Level.exists_holds (h : parse source = .ok document) (hlevel : document.Level outer nodes) :
    ∃ front part back, source = front ++ (part ++ back) ∧ Depth.start.after front = .start ∧
      Holds (Position.start.advance front) part nodes ∧ outer.start ≤ Position.start.advance front ∧
      Position.start.advance (front ++ part) ≤ outer.stop := by
  induction hlevel with
  | top =>
    obtain ⟨hholds, hspan⟩ := holds_of_parse h
    rw [hspan]
    exact ⟨[], source, [], by simp, rfl, hholds, le_rfl, le_rfl⟩
  | block hlevel hmem ih =>
    obtain ⟨front, part, back, rfl, hfree, hholds, -⟩ := ih
    obtain ⟨before, own, behind, rfl, hbefore, howns⟩ := hholds.exists_owns hmem
    obtain ⟨opening, inner, rfl, hopening, hinner⟩ := howns.inside _ _ _ rfl
    obtain rfl := howns.span
    have hplace : Position.start.advance (front ++ before ++ opening) =
        ((Position.start.advance front).advance before).advance opening := by
      rw [Position.advance_append, Position.advance_append]
    refine ⟨front ++ before ++ opening, inner, '}' :: (behind ++ back), by simp, ?_, ?_, ?_, ?_⟩
    · rw [Depth.after_append, Depth.after_append, hfree, hbefore, hopening]
    · rwa [hplace]
    · rw [hplace]
      exact Position.le_advance ..
    · rw [Position.advance_append _ _ inner, hplace, ← Position.advance_append]
      refine Position.advance_le_advance _ ?_
      rw [← List.append_assoc]
      exact List.prefix_append ..

end Document

end MiniSheet
