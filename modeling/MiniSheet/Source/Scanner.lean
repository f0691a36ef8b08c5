import MiniSheet.Source.ParseError
import MiniSheet.Source.Zone

/-!
# Finding the end of a statement

A statement ends at the first `{`, `;` or `}` that lies outside strings, comments, round and square
brackets. The scanner walks towards it and remembers where every construct that is still open began,
so that a source that ends too early is reported there.

A closing bracket only closes the innermost open bracket, and only if it is of the same kind; any
other closing bracket is an ordinary character.

`Scanner.scan_append` says that a scan splits its text without losing anything.
-/

namespace MiniSheet

/-- An open bracket. -/
structure Bracket where
  /-- the character that closes it -/
  closer : Char
  /-- where it opens -/
  opened : Position
  deriving Repr, DecidableEq

namespace Bracket

/-- The closing character of a character that opens a bracket. -/
def closer? : Char → Option Char
  | '(' => some ')'
  | '[' => some ']'
  | _ => none

/-- The open brackets behind a character of code, innermost first. -/
def nest (here : Position) (opened : List Bracket) (c : Char) : List Bracket :=
  match closer? c with
  | some closer => ⟨closer, here⟩ :: opened
  | none =>
    match opened with
    | [] => []
    | innermost :: outer => if innermost.closer == c then outer else innermost :: outer

end Bracket

/-- What is known at a place of a statement. -/
structure Scanner where
  /-- the place -/
  here : Position
  /-- whether it lies in code, a string or a comment -/
  zone : Zone
  /-- where the string or comment around it opens; of no meaning in code -/
  since : Position
  /-- the open brackets, innermost first -/
  brackets : List Bracket
  deriving Repr, DecidableEq

namespace Scanner

/-- The scanner in front of a statement. -/
def start (here : Position) : Scanner := ⟨here, .code, here, []⟩

/-- The scanner behind one more character. -/
def step (s : Scanner) (c : Char) : Scanner where
  here := s.here.step c
  zone := s.zone.step c
  since := if s.zone.isCode && (Zone.isQuote c || c == '/') then s.here else s.since
  brackets := if s.zone.isCode then Bracket.nest s.here s.brackets c else s.brackets

/-- A character that ends a statement, unless something is still open. -/
def isTerminator (c : Char) : Bool := c == '{' || c == ';' || c == '}'

/-- Whether the statement ends in front of the given character. -/
def stopsAt (s : Scanner) (c : Char) : Bool :=
  isTerminator c && s.zone.isCode && s.brackets.isEmpty

/-- What the end of the source means here: nothing may be open. A string or comment is reported
before the brackets around it. -/
def finish (s : Scanner) : Except ParseError Unit :=
  match s.zone with
  | .quoted _ | .escaped _ => .error ⟨.unclosedString, s.since⟩
  | .comment | .star => .error ⟨.unclosedComment, s.since⟩
  | .code | .slash =>
    match s.brackets with
    | [] => .ok ()
    | innermost :: _ => .error ⟨.unclosedBracket, innermost.opened⟩

/-- Split a text in front of the character that ends the statement, or at its end. -/
def scan (s : Scanner) : Text → Except ParseError (Text × Text)
  | [] => s.finish.map fun _ => ([], [])
  | c :: t =>
    if s.stopsAt c then .ok ([], c :: t)
    else ((s.step c).scan t).map fun (statement, rest) => (c :: statement, rest)

/-- A scan loses nothing, and what it leaves starts with a terminator. -/
theorem scan_append {s : Scanner} {t statement rest : Text} (h : s.scan t = .ok (statement, rest)) :
    t = statement ++ rest ∧ ∀ c ∈ rest.head?, isTerminator c = true := by
  induction t generalizing s statement rest with
  | nil =>
    rw [scan] at h
    cases hf : s.finish with
    | error e => rw [hf] at h; cases h
    | ok u =>
      rw [hf] at h
      cases h
      exact ⟨rfl, by simp⟩
  | cons c t ih =>
    rw [scan] at h
    split at h
    · rename_i hc
      cases h
      refine ⟨rfl, ?_⟩
      simp only [stopsAt, Bool.and_eq_true] at hc
      simpa using hc.1.1
    · cases hr : (s.step c).scan t with
      | error e => rw [hr] at h; cases h
      | ok p =>
        obtain ⟨a, b⟩ := p
        rw [hr] at h
        cases h
        obtain ⟨ht, hb⟩ := ih hr
        exact ⟨by rw [ht]; rfl, hb⟩

end Scanner

end MiniSheet
