import MiniSheet.Output.Production
import MiniSheet.Proofs.Declarations
import MiniSheet.Proofs.Pieces

/-!
# Pieces that can be read back

Pieces are written one behind the other, without any layout but what they need (`Piece.write`). What
was written is read as the same pieces again (`Token.readAll_write`), provided that

* the pieces have the form of pieces that were read (`Piece.WellFormed`);
* none of them would be taken for something else (`Piece.isRegular`): a selector that starts like an
  at-rule or a comment, or a marker that nothing stands in front of;
* a declaration without a semicolon stands in front of a closing brace or at the end
  (`Piece.Orderly`).

The first and the last hold of all pieces of a source (`Token.wellFormed_of_readAll`).
-/

namespace MiniSheet

open Text

/-! ## Form -/

/-- The form of at-rules. -/
structure AtRule.WellFormed (name params : Text) : Prop where
  /-- there is a name -/
  name_ne_nil : name ≠ []
  /-- it is made of the characters of names -/
  name : ∀ c ∈ name, isNameChar c = true
  /-- no blanks stand around the parameters -/
  params_trimmed : Trimmed params
  /-- the parameters leave nothing open -/
  params_sealed : Sealed params

/-- The form of rules. -/
structure Rule.WellFormed (selector : Text) : Prop where
  /-- there is a selector -/
  ne_nil : selector ≠ []
  /-- no blanks stand around it -/
  trimmed : Trimmed selector
  /-- it leaves nothing open -/
  sealed : Sealed selector

/-- The form of leaves. -/
def Leaf.WellFormed : Leaf → Prop
  | declaration content => content.WellFormed
  | atRule name params => AtRule.WellFormed name params
  | comment _ => True

/-- The form of heads. -/
def Head.WellFormed : Head → Prop
  | rule selector => Rule.WellFormed selector
  | atRule name params => AtRule.WellFormed name params

/-- Whether a leaf imports nothing and, if it is marked, has a value. -/
def Leaf.isRegular : Leaf → Bool
  | declaration content => !content.value.isEmpty || content.marker.isNone
  | atRule name _ => name != Compiler.importName
  | comment _ => true

/-- Whether a head imports nothing and does not look like something else. -/
def Head.isRegular : Head → Bool
  | rule selector => !(['@'].isPrefixOf selector) && !(['/', '*'].isPrefixOf selector)
  | atRule name _ => name != Compiler.importName

/-- Whether a leaf is a comment. -/
def Leaf.isComment : Leaf → Bool
  | comment _ => true
  | _ => false

namespace Piece

/-- The form of pieces. -/
def WellFormed : Piece → Prop
  | leaf content => content.WellFormed
  | opening head => head.WellFormed
  | closing => True

/-- Whether a piece imports nothing and does not look like something else once it is written. -/
def isRegular : Piece → Bool
  | leaf content => content.isRegular
  | opening head => head.isRegular
  | closing => true

/-- Whether a piece is a comment. -/
def isComment : Piece → Bool
  | leaf content => content.isComment
  | _ => false

/-- Whether a piece is a declaration without a semicolon. -/
def isOpenEnded : Piece → Bool
  | leaf (.declaration content) => !content.terminated
  | _ => false

/-- Declarations without a semicolon are the last ones in their block. -/
def Orderly : List Piece → Prop
  | [] => True
  | piece :: pieces =>
    (piece.isOpenEnded = true → ∀ next ∈ pieces.head?, next = closing) ∧ Orderly pieces

/-- A piece that can be read back. -/
structure Legible (piece : Piece) : Prop where
  /-- it has the form of pieces that were read -/
  wellFormed : piece.WellFormed
  /-- it does not look like something else -/
  regular : piece.isRegular = true
  /-- it is written at all -/
  written : piece.isComment = false

end Piece

/-! ## Writing -/

/-- Write a leaf. Comments are left out. -/
def Leaf.write : Leaf → Text
  | declaration content => content.statement ++ if content.terminated then [';'] else []
  | atRule name params => Compiler.atRuleHead name params ++ [';']
  | comment _ => []

/-- Write a head. -/
def Head.write : Head → Text
  | rule selector => selector
  | atRule name params => Compiler.atRuleHead name params

/-- Write a piece. -/
def Piece.write : Piece → Text
  | leaf content => content.write
  | opening head => head.write ++ ['{']
  | closing => ['}']

/-! ## Reading -/

namespace Token

variable {start here stop : Position} {t rest statement : Text} {step : Step} {token : Token}

theorem isFiller_of_isBlank {c : Char} (h : isBlank c = false) (hc : c ≠ ';') :
    isFiller c = false := by
  have hgap : isGap c = false := by
    rcases hgap : isGap c with _ | _
    · rfl
    · rw [isBlank_of_isGap hgap] at h
      cases h
  simp [isFiller, hgap, hc]

@[simp] theorem next_nil : next here [] = .ok (.done here) := rfl

theorem next_closing :
    next here ('}' :: rest) = .ok (.token (.closing here) (here.step '}') rest) := by
  rw [next, takeWhile_of_head (by simp; decide), dropWhile_of_head (by simp; decide)]
  rfl

theorem next_atRule : next here ('@' :: rest) = readAtRule here rest := by
  rw [next, takeWhile_of_head (by simp; decide), dropWhile_of_head (by simp; decide)]
  rfl

/-- What starts like nothing else is a statement. -/
theorem next_statement {c : Char} (hfiller : isFiller c = false) (hclosing : c ≠ '}')
    (hat : c ≠ '@') (hcomment : ∀ rest, c :: t ≠ '/' :: '*' :: rest) :
    next here (c :: t) = readStatement here (c :: t) := by
  rw [next, takeWhile_of_head (by simpa using hfiller), dropWhile_of_head (by simpa using hfiller)]
  split
  · rename_i heq
    cases heq
  · rename_i heq
    exact absurd (List.cons.inj heq).1 hclosing
  · rename_i heq
    exact absurd heq (hcomment _)
  · rename_i heq
    exact absurd (List.cons.inj heq).1 hat
  · rfl

/-! ### What was read -/

/-- A scan finds a sealed text, and a terminator behind it. -/
theorem sealed_of_scan (h : (Scanner.start here).scan t = .ok (statement, rest)) :
    Sealed statement ∧ ∀ c ∈ rest.head?, Scanner.isTerminator c = true := by
  obtain ⟨-, hsealed, hrest⟩ := Scanner.scan_eq_ok_iff.1 h
  exact ⟨hsealed, hrest⟩

/-- What reading says of a step: the token is well-formed, and if it is a declaration without a
semicolon, it was ended by a closing brace or the end of the source. -/
def Step.WellFormed : Step → Prop
  | .done _ => True
  | .token content _ rest =>
    content.piece.WellFormed ∧ (content.piece.isOpenEnded = true → ∀ c ∈ rest.head?, c = '}')

theorem wellFormed_readComment (h : readComment start t = .ok step) : step.WellFormed := by
  rw [readComment] at h
  split at h
  · cases h
  · obtain rfl := Except.ok.inj h
    exact ⟨trivial, fun hopen => by cases hopen⟩

theorem wellFormed_readAtRule (h : readAtRule start t = .ok step) : step.WellFormed := by
  rw [readAtRule] at h
  split at h
  · cases h
  · rename_i hname
    obtain ⟨⟨params, r⟩, hscan, h⟩ := Outcome.bind_eq_ok h
    have hform : AtRule.WellFormed (t.takeWhile isNameChar) (trim params) :=
      ⟨by simpa using hname, fun _ => List.mem_takeWhile_imp, trimmed_trim params,
        (sealed_of_scan hscan).1.trim⟩
    dsimp only at h
    split at h
    all_goals
      obtain rfl := Except.ok.inj h
      exact ⟨hform, fun hopen => by cases hopen⟩

theorem wellFormed_readDeclaration {terminated : Bool} (hsealed : Sealed statement)
    (h : readDeclaration start statement terminated = .ok token) :
    token.piece.WellFormed ∧ token.piece.isOpenEnded = !terminated := by
  rw [readDeclaration] at h
  split at h
  · rename_i content hread
    obtain rfl := Except.ok.inj h
    obtain ⟨-, -, -, -, -, -, -, -, -, -, -, hterminated⟩ := Declaration.parts_of_read? hread
    exact ⟨Declaration.wellFormed_of_read? hread hsealed, by rw [← hterminated]; rfl⟩
  · cases h

theorem wellFormed_readStatement (h : readStatement start t = .ok step) : step.WellFormed := by
  obtain ⟨⟨statement, r⟩, hscan, h⟩ := Outcome.bind_eq_ok h
  obtain ⟨hsealed, hterminator⟩ := sealed_of_scan hscan
  dsimp only at h
  split at h
  · split at h
    · cases h
    · rename_i hselector
      obtain rfl := Except.ok.inj h
      exact ⟨⟨by simpa using hselector, trimmed_trim statement, hsealed.trim⟩,
        fun hopen => by cases hopen⟩
  · obtain ⟨token, hread, h⟩ := Outcome.bind_eq_ok h
    obtain rfl := Except.ok.inj h
    obtain ⟨hform, hopen⟩ := wellFormed_readDeclaration hsealed hread
    exact ⟨hform, fun hended => by rw [hopen] at hended; cases hended⟩
  · rename_i hopening hsemicolon
    obtain ⟨token, hread, h⟩ := Outcome.bind_eq_ok h
    obtain rfl := Except.ok.inj h
    refine ⟨(wellFormed_readDeclaration hsealed hread).1, fun _ c hc => ?_⟩
    -- of the terminators only the closing brace is left
    obtain ⟨behind, rfl⟩ := List.head?_eq_some_iff.1 hc
    have hc := hterminator c rfl
    simp only [Scanner.isTerminator, Bool.or_eq_true, beq_iff_eq] at hc
    rcases hc with (hc | hc) | hc
    · exact absurd (congrArg (· :: behind) hc) (hopening behind)
    · exact absurd (congrArg (· :: behind) hc) (hsemicolon behind)
    · exact hc

theorem wellFormed_next (h : next start t = .ok step) : step.WellFormed := by
  rw [next] at h
  split at h
  · obtain rfl := Except.ok.inj h
    trivial
  · obtain rfl := Except.ok.inj h
    exact ⟨trivial, fun hopen => by cases hopen⟩
  · exact wellFormed_readComment h
  · exact wellFormed_readAtRule h
  · exact wellFormed_readStatement h

/-- What is read next from a text that starts with a closing brace, if anything, is that brace. -/
theorem piece_of_head (h : next start t = .ok (.token token here rest))
    (ht : ∀ c ∈ t.head?, c = '}') : token.piece = .closing := by
  cases t with
  | nil => cases h
  | cons c t =>
    obtain rfl := ht c rfl
    rw [next_closing] at h
    cases h
    rfl

/-- **The pieces of a source are well-formed and orderly.** -/
theorem wellFormed_of_readAll (h : (readAll start t).ending = .ok stop) :
    (∀ piece ∈ (readAll start t).tokens.map Token.piece, piece.WellFormed) ∧
      Piece.Orderly ((readAll start t).tokens.map Token.piece) := by
  induction start, t using readAll.induct with
  | case1 start t error hnext =>
    rw [readAll_of_error hnext] at h
    cases h
  | case2 start t stop hnext =>
    rw [readAll_of_done hnext]
    exact ⟨fun piece hmem => absurd hmem List.not_mem_nil, trivial⟩
  | case3 start t token here rest hnext ih =>
    rw [readAll_of_token hnext] at h ⊢
    obtain ⟨hform, hopen⟩ := wellFormed_next hnext
    obtain ⟨hforms, horder⟩ := ih h
    refine ⟨fun piece hmem => ?_, fun hended => ?_, horder⟩
    · rcases List.mem_cons.1 hmem with rfl | hmem
      · exact hform
      · exact hforms piece hmem
    · intro following hfollowing
      -- what follows was read from behind the declaration
      rcases hrest : next here rest with error | _ | ⟨other, there, behind⟩
      · rw [readAll_of_error hrest] at hfollowing
        cases hfollowing
      · rw [readAll_of_done hrest] at hfollowing
        cases hfollowing
      · rw [readAll_of_token hrest] at hfollowing
        obtain rfl := Option.some.inj hfollowing
        exact piece_of_head hrest (hopen hended)

/-! ### What is read back -/

theorem readStatement_of_opening (h : (Scanner.start here).scan t = .ok (statement, '{' :: rest))
    (hform : Rule.WellFormed statement) : readStatement here t =
      .ok (.token (.opening (.rule statement) here) ((here.advance statement).step '{') rest) := by
  rw [readStatement, h]
  change (if (trim statement).isEmpty then Except.error _ else
    Except.ok
      (Step.token (.opening (.rule (trim statement)) here)
        ((here.advance statement).step '{') rest)) = _
  rw [hform.trimmed.trim_eq, if_neg (by simpa using hform.ne_nil)]

theorem readStatement_of_semicolon (h : (Scanner.start here).scan t =
    .ok (statement, ';' :: rest)) :
    readStatement here t = (readDeclaration here statement true).map fun token =>
      .token token ((here.advance statement).step ';') rest := by
  rw [readStatement, h]
  rcases hread : readDeclaration here statement true with error | token
  · simp [bind, Except.bind, hread, Except.map]
  · simp [bind, Except.bind, hread, Except.map]

theorem readStatement_of_end (h : (Scanner.start here).scan t = .ok (statement, rest))
    (hrest : ∀ c ∈ rest.head?, c = '}') :
    readStatement here t = (readDeclaration here statement false).map fun token =>
      .token token (here.advance statement) rest := by
  rw [readStatement, h]
  cases rest with
  | nil =>
    cases hread : readDeclaration here statement false <;>
      simp [bind, Except.bind, hread, Except.map]
  | cons c rest =>
    obtain rfl := hrest c rfl
    cases hread : readDeclaration here statement false <;>
      simp [bind, Except.bind, hread, Except.map]

/-- A declaration is read back if a semicolon ends it, or else a closing brace or the end of the
source. -/
theorem readStatement_declaration {content : Declaration} (h : content.WellFormed)
    (hvalue : content.value = [] → content.marker = none)
    (hrest : content.terminated = false → ∀ c ∈ rest.head?, c = '}') : ∃ span there,
    readStatement here ((Leaf.declaration content).write ++ rest) =
      .ok (.token (.leaf (.declaration content) span) there rest) := by
  have hread : ∃ span, readDeclaration here content.statement content.terminated =
      .ok (.leaf (.declaration content) span) := by
    rw [readDeclaration, h.read?_statement hvalue]
    exact ⟨_, rfl⟩
  obtain ⟨span, hread⟩ := hread
  rw [Leaf.write]
  rcases hterminated : content.terminated with _ | _
  · have hend := hrest hterminated
    have hscan := h.sealed_statement.scan here rest fun c hc => by rw [hend c hc]; rfl
    rw [hterminated] at hread
    rw [if_neg Bool.false_ne_true, List.append_nil, readStatement_of_end hscan hend, hread]
    exact ⟨span, _, rfl⟩
  · have hscan := h.sealed_statement.scan here (';' :: rest) (by simp [Scanner.isTerminator])
    rw [hterminated] at hread
    rw [if_pos rfl, List.append_assoc, List.singleton_append,
      readStatement_of_semicolon hscan, hread]
    exact ⟨span, _, rfl⟩

/-- What is read of an at-rule: its name, and its parameters up to blanks. -/
theorem scan_atRule {name params : Text} (h : AtRule.WellFormed name params) (rest : Text)
    (hrest : ∀ c ∈ rest.head?, Scanner.isTerminator c = true) :
    ∃ behind, Compiler.atRuleHead name params ++ rest = '@' :: (name ++ behind) ∧
      (∀ c ∈ behind.head?, isNameChar c = false) ∧
      ∃ text, trim text = params ∧ ∀ here, (Scanner.start here).scan behind = .ok (text, rest) := by
  by_cases hempty : params = []
  · subst hempty
    refine ⟨rest, by simp [Compiler.atRuleHead], fun c hc => ?_, [], rfl,
      fun here => sealed_nil.scan here rest hrest⟩
    have hc := hrest c hc
    simp only [Scanner.isTerminator, Bool.or_eq_true, beq_iff_eq] at hc
    rcases hc with (rfl | rfl) | rfl <;> decide +kernel
  · have hsealed : Sealed (' ' :: params) :=
      (sealed_append_iff (s := [' ']) (by simp; decide)).2 h.params_sealed
    refine ⟨' ' :: params ++ rest, by simp [Compiler.atRuleHead, hempty], by simp; decide +kernel,
      ' ' :: params, ?_, fun here => hsealed.scan here rest hrest⟩
    rw [trim_cons_blank (by decide), h.params_trimmed.trim_eq]

/-- An at-rule is read back, with or without a block. -/
theorem next_atRuleHead {name params : Text} (h : AtRule.WellFormed name params) (here : Position)
    (rest : Text) :
    (∃ there, next here (Compiler.atRuleHead name params ++ '{' :: rest) =
      .ok (.token (.opening (.atRule name params) here) there rest)) ∧
    ∃ span there, next here (Compiler.atRuleHead name params ++ ';' :: rest) =
      .ok (.token (.leaf (.atRule name params) span) there rest) := by
  have hname : ¬ name.isEmpty = true := by simpa using h.name_ne_nil
  constructor
  · obtain ⟨behind, htext, hhead, text, htrim, hscan⟩ :=
      scan_atRule h ('{' :: rest) (by simp [Scanner.isTerminator])
    rw [htext, next_atRule, readAtRule, takeWhile_append_of_head h.name hhead,
      dropWhile_append_of_head h.name hhead, if_neg hname]
    dsimp only
    rw [hscan, ← htrim]
    exact ⟨_, rfl⟩
  · obtain ⟨behind, htext, hhead, text, htrim, hscan⟩ :=
      scan_atRule h (';' :: rest) (by simp [Scanner.isTerminator])
    rw [htext, next_atRule, readAtRule, takeWhile_append_of_head h.name hhead,
      dropWhile_append_of_head h.name hhead, if_neg hname]
    dsimp only
    rw [hscan, ← htrim]
    exact ⟨_, _, rfl⟩

/-- A well-formed selector that does not look like something else starts a statement. -/
theorem next_rule {selector : Text} (h : Rule.WellFormed selector)
    (hregular : (Head.rule selector).isRegular = true) (here : Position) (rest : Text) :
    ∃ there, next here (selector ++ '{' :: rest) =
      .ok (.token (.opening (.rule selector) here) there rest) := by
  obtain ⟨c, behind, rfl⟩ := List.exists_cons_of_ne_nil h.ne_nil
  obtain ⟨hat, hcomment⟩ := Bool.and_eq_true_iff.1 hregular
  have hterminator := h.sealed.isTerminator_head
  simp only [Scanner.isTerminator, Bool.or_eq_false_iff, beq_eq_false_iff_ne] at hterminator
  have hfiller := isFiller_of_isBlank (h.trimmed.head c rfl) hterminator.1.2
  have hscan := h.sealed.scan here ('{' :: rest) (by simp [Scanner.isTerminator])
  rw [List.cons_append, next_statement hfiller hterminator.2, ← List.cons_append,
    readStatement_of_opening hscan h]
  · exact ⟨_, rfl⟩
  · rintro rfl
    exact absurd hat (by simp)
  · rintro r heq
    obtain ⟨rfl, hbehind⟩ := List.cons.inj heq
    cases behind with
    | nil => exact absurd (List.cons.inj hbehind).1 (by decide)
    | cons next behind =>
      obtain rfl := (List.cons.inj hbehind).1
      exact absurd hcomment (by simp)

/-- A declaration starts with its property, and what starts a property starts nothing else. -/
theorem exists_cons_statement {content : Declaration} (h : content.WellFormed) :
    ∃ c behind, content.statement = c :: behind ∧ isFiller c = false ∧ c ∉ ['/', '@', '}'] := by
  obtain ⟨c, property, hproperty⟩ := List.exists_cons_of_ne_nil h.property_ne_nil
  have hc : isPropertyChar c = true := h.property c (by rw [hproperty]; exact List.mem_cons_self)
  obtain ⟨behind, hbehind⟩ : ∃ behind, content.statement = c :: behind := by
    rw [Declaration.statement, hproperty]
    exact ⟨_, rfl⟩
  have hne (other : Char) (hother : isPropertyChar other = false) : c ≠ other := by
    rintro rfl
    rw [hc] at hother
    cases hother
  refine ⟨c, behind, hbehind, ?_, fun hmem => ?_⟩
  · rcases hfiller : isFiller c with _ | _
    · rfl
    · rcases Bool.or_eq_true_iff.1 hfiller with hgap | hsemicolon
      · rw [Declaration.isPropertyChar_of_isGap hgap] at hc
        cases hc
      · exact absurd (beq_iff_eq.1 hsemicolon) (hne ';' (by decide +kernel))
  · simp only [List.mem_cons, List.not_mem_nil, or_false] at hmem
    rcases hmem with hslash | hat | hbrace
    · exact hne '/' (by decide +kernel) hslash
    · exact hne '@' (by decide +kernel) hat
    · exact hne '}' (by decide +kernel) hbrace

/-- A declaration starts a statement. -/
theorem next_declaration {content : Declaration} (h : content.WellFormed)
    (hvalue : content.value = [] → content.marker = none)
    (hrest : content.terminated = false → ∀ c ∈ rest.head?, c = '}') (here : Position) :
    ∃ span there, next here ((Leaf.declaration content).write ++ rest) =
      .ok (.token (.leaf (.declaration content) span) there rest) := by
  obtain ⟨c, behind, hstatement, hfiller, hc⟩ := exists_cons_statement h
  simp only [List.mem_cons, List.not_mem_nil, or_false, not_or] at hc
  obtain ⟨hcomment, hat, hclosing⟩ := hc
  obtain ⟨span, there, hread⟩ := readStatement_declaration h hvalue hrest
  rw [Leaf.write, hstatement, List.cons_append, List.cons_append] at hread ⊢
  rw [next_statement hfiller hclosing hat, hread]
  · exact ⟨span, there, rfl⟩
  · exact fun r heq => hcomment (List.cons.inj heq).1

/-- **A legible piece is read back** if what follows does not go on with it. -/
theorem next_write {piece : Piece} (h : piece.Legible)
    (hrest : piece.isOpenEnded = true → ∀ c ∈ rest.head?, c = '}') (here : Position) :
    ∃ token there, next here (piece.write ++ rest) = .ok (.token token there rest) ∧
      token.piece = piece := by
  obtain ⟨hform, hregular, hwritten⟩ := h
  cases piece with
  | leaf content =>
    cases content with
    | declaration content =>
      obtain ⟨span, there, hnext⟩ := next_declaration hform (fun hempty => by
        simpa [Piece.isRegular, Leaf.isRegular, hempty] using hregular)
        (fun hopen => hrest (by rw [Piece.isOpenEnded, hopen]; rfl)) here
      exact ⟨_, there, hnext, rfl⟩
    | atRule name params =>
      obtain ⟨-, span, there, hnext⟩ := next_atRuleHead hform here rest
      refine ⟨.leaf (.atRule name params) span, there, ?_, rfl⟩
      rw [Piece.write, Leaf.write, List.append_assoc]
      exact hnext
    | comment content => cases hwritten
  | opening head =>
    rw [Piece.write, List.append_assoc]
    cases head with
    | rule selector =>
      obtain ⟨there, hnext⟩ := next_rule hform hregular here rest
      exact ⟨_, there, hnext, rfl⟩
    | atRule name params =>
      obtain ⟨⟨there, hnext⟩, -⟩ := next_atRuleHead hform here rest
      exact ⟨_, there, hnext, rfl⟩
  | closing => exact ⟨_, _, next_closing, rfl⟩

/-- **Legible pieces are read back.** -/
theorem readAll_write {pieces : List Piece} (h : ∀ piece ∈ pieces, piece.Legible)
    (horder : Piece.Orderly pieces) (here : Position) :
    ∃ tokens stop, readAll here (pieces.flatMap Piece.write) = ⟨tokens, .ok stop⟩ ∧
      tokens.map Token.piece = pieces := by
  induction pieces generalizing here with
  | nil => exact ⟨[], here, readAll_of_done next_nil, rfl⟩
  | cons piece pieces ih =>
    rw [List.flatMap_cons]
    have hrest : piece.isOpenEnded = true → ∀ c ∈ (pieces.flatMap Piece.write).head?, c = '}' := by
      intro hopen c hc
      cases pieces with
      | nil => cases hc
      | cons following pieces =>
        obtain rfl := horder.1 hopen following rfl
        exact (Option.some.inj hc).symm
    obtain ⟨token, there, hnext, htoken⟩ := next_write (h piece List.mem_cons_self) hrest here
    obtain ⟨tokens, stop, hread, htokens⟩ :=
      ih (fun other hmem => h other (List.mem_cons_of_mem _ hmem)) horder.2 there
    refine ⟨token :: tokens, stop, ?_, by rw [List.map_cons, htoken, htokens]⟩
    rw [readAll_of_token hnext, hread]

end Token

end MiniSheet
