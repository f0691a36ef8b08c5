import MiniSheet.Text.Ranges

/-!
# Blank characters

Two notions of blank live side by side in a stylesheet. Between statements only the *gap* characters
(space, tab, carriage return, line feed) are skipped; where text is trimmed or cut into words, every
character with the Unicode property `White_Space` counts.
-/

namespace MiniSheet

namespace Text

/-- The code points with the property `White_Space`. -/
def blankRanges : Ranges :=
  [(0x0009, 0x000D), (0x0020, 0x0020), (0x0085, 0x0085), (0x00A0, 0x00A0), (0x1680, 0x1680),
    (0x2000, 0x200A), (0x2028, 0x2029), (0x202F, 0x202F), (0x205F, 0x205F), (0x3000, 0x3000)]

/-- A character that trimming removes and that separates words. -/
def isBlank (c : Char) : Bool := blankRanges.contains c.toNat

/-- A character that may stand between two statements. -/
def isGap (c : Char) : Bool := c == ' ' || c == '\t' || c == '\r' || c == '\n'

/-- Every gap character is blank. -/
theorem isBlank_of_isGap {c : Char} (h : isGap c = true) : isBlank c = true := by
  simp only [isGap, Bool.or_eq_true, beq_iff_eq] at h
  rcases h with ((rfl | rfl) | rfl) | rfl <;> decide

end Text

end MiniSheet
