import MiniSheet.Text.Alphabetic
import MiniSheet.Text.Numeric

/-!
# Names

The character classes of names: at-rule names, property names and the identifiers of selectors.
-/

namespace MiniSheet

namespace Text

/-- A letter or digit of any script. -/
def isAlphanumeric (c : Char) : Bool := isAlphabetic c || isNumeric c

/-- A character of a name or identifier. -/
def isNameChar (c : Char) : Bool := isAlphanumeric c || c == '-' || c == '_'

/-- A character that an identifier may start with. -/
def isNameStart (c : Char) : Bool := isAlphabetic c || c == '-' || c == '_'

/-- A character of a property name. Besides names this admits `*`, as in the property hack of old
browsers, and `$`, as in the placeholders of templates. -/
def isPropertyChar (c : Char) : Bool := isNameChar c || c == '*' || c == '$'

/-- Identifiers start with one of their own characters. -/
theorem isNameChar_of_isNameStart {c : Char} (h : isNameStart c = true) : isNameChar c = true := by
  simp only [isNameStart, isNameChar, isAlphanumeric, Bool.or_eq_true] at h ⊢
  rcases h with (h | h) | h
  · exact Or.inl (Or.inl (Or.inl h))
  · exact Or.inl (Or.inr h)
  · exact Or.inr h

end Text

end MiniSheet
