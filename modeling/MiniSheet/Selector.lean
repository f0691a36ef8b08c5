import MiniSheet.Source.Zone
import MiniSheet.Text.Basic
import MiniSheet.Text.Name

/-!
# Tagging type selectors

Components are rendered as custom elements, so a type selector such as `view` has to become
`wx-view`. Everything else in a selector is copied: classes, identifiers, pseudo-classes,
attributes, strings.

A selector is read from left to right, one character at a time. A type selector starts where a name
starts at a *boundary*, the place where a compound selector may begin: at the front, behind a blank
or a combinator, and behind the opening bracket of a pseudo-class whose argument is again a
selector.
-/

namespace MiniSheet

namespace Selector

/-- Where a place of a selector lies. -/
inductive Mode where
  /-- where a compound selector may begin -/
  | boundary
  /-- inside a compound selector -/
  | compound
  /-- directly behind a colon and the given characters of a pseudo-class or pseudo-element name -/
  | pseudo (name : Text)
  /-- inside an attribute selector -/
  | bracketed
  /-- inside an argument that is copied, with so many brackets open inside it -/
  | argument (depth : Nat)
  /-- inside a string that ends with the given quote -/
  | quoted (quote : Char)
  /-- inside such a string, directly behind a backslash -/
  | escaped (quote : Char)
  deriving Repr, DecidableEq

/-- The pseudo-classes whose arguments are selectors. -/
def selectorPseudos : List Text :=
  ["not".toList, "is".toList, "where".toList, "has".toList, "matches".toList]

/-- Whether the argument of a pseudo-class is a selector. Colons in front of the name and the case
of its letters do not matter. -/
def takesSelector (name : Text) : Bool :=
  selectorPseudos.contains ((name.dropWhile (· == ':')).map Char.toLower)

/-- A character that separates compound selectors, apart from blanks. -/
def isCombinator (c : Char) : Bool := c == ',' || c == '>' || c == '+' || c == '~'

namespace Mode

/-- The mode behind a character that no name, string or bracket lays claim to. -/
def plain (c : Char) : Mode :=
  if Zone.isQuote c then quoted c
  else if c == '[' then bracketed
  else if c == '(' then argument 0
  else if c == ':' then pseudo []
  else if Text.isBlank c || isCombinator c then boundary
  else compound

/-- The mode behind one more character. -/
def step : Mode → Char → Mode
  | boundary, c => plain c
  | compound, c => plain c
  | pseudo name, c =>
    if Text.isNameChar c || c == ':' then pseudo (name ++ [c])
    else if c == '(' && takesSelector name then boundary
    else plain c
  | bracketed, c => if c == ']' then compound else bracketed
  | argument depth, c =>
    if c == '(' then argument (depth + 1)
    else if c == ')' then
      match depth with
      | 0 => compound
      | depth + 1 => argument depth
    else argument depth
  | quoted quote, c =>
    if c == '\\' then escaped quote else if c == quote then compound else quoted quote
  | escaped quote, _ => quoted quote

/-- Whether a type selector starts with the given character. -/
def startsType : Mode → Char → Bool
  | boundary, c => Text.isNameStart c
  | _, _ => false

end Mode

/-- The characters of a selector, each with whether a type selector starts there. -/
def markedFrom (mode : Mode) : Text → List (Bool × Char)
  | [] => []
  | c :: t => (mode.startsType c, c) :: markedFrom (mode.step c) t

/-- The characters of a selector, each with whether a type selector starts there. -/
def marked (selector : Text) : List (Bool × Char) := markedFrom .boundary selector

/-- A marked character with the tag in front of it, if it starts a type selector. -/
def writeMarked (tag : Text) : Bool × Char → Text
  | (true, c) => tag ++ [c]
  | (false, c) => [c]

/-- The selector with the tag in front of each type selector. -/
def tagTypes (tag selector : Text) : Text := (marked selector).flatMap (writeMarked tag)

end Selector

end MiniSheet
