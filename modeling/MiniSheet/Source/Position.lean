import MiniSheet.Text.Basic

/-!
# Positions

A position is where one stands after reading a text: one line further for each line feed, one column
further for each other character. Lines and columns count from one, and columns count characters.
`Position.advance_append` says that positions can be carried along while reading.
-/

namespace MiniSheet

/-- A place in a source, by line and column. -/
structure Position where
  /-- the line, counted from one -/
  line : Nat
  /-- the column, counted from one in characters -/
  column : Nat
  deriving Repr, DecidableEq, Inhabited

namespace Position

/-- The first character of a source. -/
def start : Position := ⟨1, 1⟩

/-- The place behind one character. -/
def step (p : Position) (c : Char) : Position :=
  if c == '\n' then ⟨p.line + 1, 1⟩ else ⟨p.line, p.column + 1⟩

/-- The place behind a text. -/
def advance (p : Position) (t : Text) : Position := t.foldl step p

@[simp] theorem advance_nil (p : Position) : p.advance [] = p := rfl

@[simp] theorem advance_cons (p : Position) (c : Char) (t : Text) :
    p.advance (c :: t) = (p.step c).advance t := rfl

@[simp] theorem advance_append (p : Position) (s t : Text) :
    p.advance (s ++ t) = (p.advance s).advance t := List.foldl_append ..

/-- The form `line:column` used in messages. -/
def display (p : Position) : String := s!"{p.line}:{p.column}"

end Position

/-- The part of a source that something was read from, its end excluded. -/
structure Span where
  /-- the first character -/
  start : Position
  /-- the place behind the last character -/
  stop : Position
  deriving Repr, DecidableEq, Inhabited

end MiniSheet
