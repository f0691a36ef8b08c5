import MiniSheet.Text.Basic

/-!
# Zones

Reading a stylesheet from left to right, a place lies in plain code, in a quoted string or in a
comment. A `Zone` is that knowledge after a text, and `Zone.step` updates it by one character, so
that the zone behind a text is a fold over it and can be asked for at any place.

A backslash inside a string takes the next character with it. A comment opens with `/*` and closes
with the first `*/` behind that, so `/*/` is still open.
-/

namespace MiniSheet

/-- Where a place of a source lies. -/
inductive Zone where
  /-- plain code -/
  | code
  /-- plain code, directly behind a slash that may open a comment -/
  | slash
  /-- inside a string that ends with the given quote -/
  | quoted (quote : Char)
  /-- inside such a string, directly behind a backslash -/
  | escaped (quote : Char)
  /-- inside a comment -/
  | comment
  /-- inside a comment, directly behind a star that may close it -/
  | star
  deriving Repr, DecidableEq

namespace Zone

/-- Whether the place lies outside strings and comments. -/
def isCode : Zone → Bool
  | code | slash => true
  | _ => false

/-- A quote opens a string. -/
def isQuote (c : Char) : Bool := c == '"' || c == '\''

/-- The zone behind a character of plain code. -/
def enter (c : Char) : Zone :=
  if isQuote c then quoted c else if c == '/' then slash else code

/-- The zone behind one more character. -/
def step : Zone → Char → Zone
  | code, c => enter c
  | slash, c => if c == '*' then comment else enter c
  | quoted quote, c =>
    if c == '\\' then escaped quote else if c == quote then code else quoted quote
  | escaped quote, _ => quoted quote
  | comment, c => if c == '*' then star else comment
  | star, c => if c == '/' then code else if c == '*' then star else comment

/-- The zone behind a text. -/
def after (zone : Zone) (t : Text) : Zone := t.foldl step zone

@[simp] theorem after_nil (zone : Zone) : zone.after [] = zone := rfl

@[simp] theorem after_cons (zone : Zone) (c : Char) (t : Text) :
    zone.after (c :: t) = (zone.step c).after t := rfl

@[simp] theorem after_append (zone : Zone) (s t : Text) :
    zone.after (s ++ t) = (zone.after s).after t := List.foldl_append ..

end Zone

end MiniSheet
