import MiniSheet.Source.Node
import MiniSheet.Source.Scanner

/-!
# Tokens

A stylesheet read from left to right is a list of tokens: leaves, heads that open a block, and
braces that close one. Tokens know nothing of nesting; `Document` builds the tree from them.

Gaps and semicolons between tokens are skipped. What follows decides the token: a closing brace, a
comment, an at-rule, or else a statement, which is a rule if it ends in front of an opening brace
and has to be a declaration otherwise. Reading stops at the first fault, and the tokens in front of
it are kept, since the block structure may be at fault before that.

`Token.next_shorter` says that every token takes something from the source, so that reading ends.
-/

namespace MiniSheet

/-- A piece of a stylesheet, as it is met from left to right. -/
inductive Token where
  /-- a statement without a block -/
  | leaf (content : Leaf) (span : Span)
  /-- the head of a block together with its opening brace, and where the head starts -/
  | opening (head : Head) (start : Position)
  /-- a closing brace, and where it stands -/
  | closing (place : Position)
  deriving Repr, DecidableEq

namespace Token

/-- What reading one token comes to. -/
inductive Step where
  /-- there is no further token; where the source ends -/
  | done (stop : Position)
  /-- a token, the place behind it and the text from there on -/
  | token (content : Token) (here : Position) (rest : Text)
  deriving Repr, DecidableEq

/-! ## The kinds of tokens -/

/-- The text in front of the first `*/` and the text behind it. -/
def closeComment? : Text → Option (Text × Text)
  | '*' :: '/' :: rest => some ([], rest)
  | c :: t => (closeComment? t).map fun (content, rest) => (c :: content, rest)
  | [] => none

/-- Read a comment whose opening `/*` stands at the given place, from the text behind that. -/
def readComment (start : Position) (t : Text) : Except ParseError Step :=
  match closeComment? t with
  | none => .error ⟨.unclosedComment, start⟩
  | some (content, rest) =>
    let stop := start.advance ('/' :: '*' :: (content ++ ['*', '/']))
    .ok (.token (.leaf (.comment (Text.trim content)) ⟨start, stop⟩) stop rest)

/-- Read an at-rule whose `@` stands at the given place, from the text behind that. A brace that
closes the enclosing block ends the at-rule and is left alone. -/
def readAtRule (start : Position) (t : Text) : Except ParseError Step :=
  let name := t.takeWhile Text.isNameChar
  if name.isEmpty then .error ⟨.missingName, start⟩
  else do
    let here := start.advance ('@' :: name)
    let (params, rest) ← (Scanner.start here).scan (t.dropWhile Text.isNameChar)
    let stop := here.advance params
    match rest with
    | '{' :: rest =>
      .ok (.token (.opening (.atRule name (Text.trim params)) start) (stop.step '{') rest)
    | ';' :: rest =>
      .ok
        (.token (.leaf (.atRule name (Text.trim params)) ⟨start, stop.step ';'⟩)
          (stop.step ';') rest)
    | rest => .ok (.token (.leaf (.atRule name (Text.trim params)) ⟨start, stop⟩) stop rest)

/-- The token of a statement that does not open a block: it has to be a declaration, and is called
by its first word if it is none. -/
def readDeclaration (start : Position) (statement : Text) (terminated : Bool) :
    Except ParseError Token :=
  match Declaration.read? statement terminated with
  | some content =>
    .ok (.leaf (.declaration content) ⟨start, start.advance (Text.trimEnd statement)⟩)
  | none => .error ⟨.unknownWord ((Text.firstWord? statement).getD statement), start⟩

/-- Read a rule or a declaration that starts at the given place. -/
def readStatement (start : Position) (t : Text) : Except ParseError Step := do
  let (statement, rest) ← (Scanner.start start).scan t
  let stop := start.advance statement
  match rest with
  | '{' :: rest =>
    let selector := Text.trim statement
    if selector.isEmpty then .error ⟨.missingSelector, start⟩
    else .ok (.token (.opening (.rule selector) start) (stop.step '{') rest)
  | ';' :: rest =>
    let token ← readDeclaration start statement true
    .ok (.token token (stop.step ';') rest)
  | rest =>
    let token ← readDeclaration start statement false
    .ok (.token token stop rest)

/-! ## One token after the other -/

/-- A character that may stand between two tokens. -/
def isFiller (c : Char) : Bool := Text.isGap c || c == ';'

/-- Read the next token. -/
def next (here : Position) (t : Text) : Except ParseError Step :=
  let here := here.advance (t.takeWhile isFiller)
  match t.dropWhile isFiller with
  | [] => .ok (.done here)
  | '}' :: rest => .ok (.token (.closing here) (here.step '}') rest)
  | '/' :: '*' :: rest => readComment here rest
  | '@' :: rest => readAtRule here rest
  | rest => readStatement here rest

theorem closeComment?_append {t content rest : Text} (h : closeComment? t = some (content, rest)) :
    t = content ++ '*' :: '/' :: rest := by
  induction t using closeComment?.induct generalizing content rest with
  | case1 r =>
    simp only [closeComment?, Option.some.injEq, Prod.mk.injEq] at h
    obtain ⟨rfl, rfl⟩ := h
    rfl
  | case2 c t hne ih =>
    rw [closeComment?] at h
    · obtain ⟨⟨a, b⟩, hab, he⟩ := Option.map_eq_some_iff.1 h
      simp only [Prod.mk.injEq] at he
      obtain ⟨rfl, rfl⟩ := he
      rw [ih hab]
      rfl
    · exact hne
  | case3 => simp [closeComment?] at h

theorem readComment_shorter {start here : Position} {t rest : Text} {token : Token}
    (h : readComment start t = .ok (.token token here rest)) : rest.length < t.length := by
  rw [readComment] at h
  split at h
  · cases h
  · rename_i content r hc
    cases h
    rw [closeComment?_append hc, List.length_append, List.length_cons, List.length_cons]
    omega

theorem readAtRule_shorter {start here : Position} {t rest : Text} {token : Token}
    (h : readAtRule start t = .ok (.token token here rest)) : rest.length ≤ t.length := by
  rw [readAtRule] at h
  split at h
  · cases h
  · simp only [bind, Except.bind] at h
    split at h
    · cases h
    · rename_i p hp
      obtain ⟨params, r⟩ := p
      have hlen := congrArg List.length (Scanner.scan_append hp).1
      have hdrop := (List.dropWhile_suffix (l := t) Text.isNameChar).length_le
      rw [List.length_append] at hlen
      simp only at h
      split at h
      · cases h
        rw [List.length_cons] at hlen
        omega
      · cases h
        rw [List.length_cons] at hlen
        omega
      · cases h
        omega

theorem length_pos_of_read? {statement : Text} {terminated : Bool} {content : Declaration}
    (h : Declaration.read? statement terminated = some content) : 0 < statement.length := by
  cases statement with
  | nil => simp [Declaration.read?] at h
  | cons c t => simp

theorem length_pos_of_readDeclaration {start : Position} {statement : Text} {terminated : Bool}
    {token : Token} (h : readDeclaration start statement terminated = .ok token) :
    0 < statement.length := by
  rw [readDeclaration] at h
  split at h
  · rename_i content hc
    exact length_pos_of_read? hc
  · cases h

theorem readStatement_shorter {start here : Position} {t rest : Text} {token : Token}
    (h : readStatement start t = .ok (.token token here rest)) : rest.length < t.length := by
  simp only [readStatement, bind, Except.bind] at h
  split at h
  · cases h
  · rename_i p hp
    obtain ⟨statement, r⟩ := p
    have hlen := congrArg List.length (Scanner.scan_append hp).1
    rw [List.length_append] at hlen
    simp only at h
    split at h
    · split at h
      · cases h
      · cases h
        rw [List.length_cons] at hlen
        omega
    · split at h
      · cases h
      · cases h
        rw [List.length_cons] at hlen
        omega
    · split at h
      · cases h
      · rename_i token' hd
        cases h
        have := length_pos_of_readDeclaration hd
        omega

/-- Every token takes something from the source. -/
theorem next_shorter {start here : Position} {t rest : Text} {token : Token}
    (h : next start t = .ok (.token token here rest)) : rest.length < t.length := by
  have hdrop := (List.dropWhile_suffix (l := t) isFiller).length_le
  rw [next] at h
  split at h
  · cases h
  · rename_i r hr
    cases h
    rw [hr, List.length_cons] at hdrop
    omega
  · rename_i r hr
    have := readComment_shorter h
    rw [hr, List.length_cons, List.length_cons] at hdrop
    omega
  · rename_i r hr
    have := readAtRule_shorter h
    rw [hr, List.length_cons] at hdrop
    omega
  · have := readStatement_shorter h
    omega

/-- What reading a whole source comes to. -/
structure Reading where
  /-- the tokens, up to the first fault -/
  tokens : List Token
  /-- where the source ends, or the fault -/
  ending : Except ParseError Position

/-- Read all tokens of a source. -/
def readAll (here : Position) (t : Text) : Reading :=
  match _h : next here t with
  | .error e => ⟨[], .error e⟩
  | .ok (.done stop) => ⟨[], .ok stop⟩
  | .ok (.token token here rest) =>
    let reading := readAll here rest
    ⟨token :: reading.tokens, reading.ending⟩
termination_by t.length
decreasing_by exact next_shorter _h

theorem readAll_of_error {here : Position} {t : Text} {e : ParseError}
    (h : next here t = .error e) : readAll here t = ⟨[], .error e⟩ := by
  rw [readAll]
  split <;> simp_all

theorem readAll_of_done {here stop : Position} {t : Text} (h : next here t = .ok (.done stop)) :
    readAll here t = ⟨[], .ok stop⟩ := by
  rw [readAll]
  split <;> simp_all

theorem readAll_of_token {start here : Position} {t rest : Text} {token : Token}
    (h : next start t = .ok (.token token here rest)) :
    readAll start t = ⟨token :: (readAll here rest).tokens, (readAll here rest).ending⟩ := by
  rw [readAll]
  split <;> simp_all

end Token

end MiniSheet
