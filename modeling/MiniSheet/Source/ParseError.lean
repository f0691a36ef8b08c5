import MiniSheet.Source.Position

/-!
# What can be wrong with a source

Each way in which a source fails to be a stylesheet, and where it was noticed. A construct that is
never closed is reported where it opens, everything else where it stands.
-/

namespace MiniSheet

/-- A way in which a source fails to be a stylesheet. -/
inductive Fault where
  /-- a block that is never closed -/
  | unclosedBlock
  /-- a quoted string that runs to the end of the source -/
  | unclosedString
  /-- a comment that runs to the end of the source -/
  | unclosedComment
  /-- a round or square bracket that is never closed -/
  | unclosedBracket
  /-- a closing brace outside every block -/
  | unexpectedClose
  /-- a statement that is neither a rule nor a declaration; its first word -/
  | unknownWord (word : Text)
  /-- an `@` with no name behind it -/
  | missingName
  /-- a block with nothing in front of it -/
  | missingSelector
  deriving Repr, DecidableEq

/-- The fault in words. -/
def Fault.message : Fault → String
  | unclosedBlock => "unclosed block"
  | unclosedString => "unclosed string"
  | unclosedComment => "unclosed comment"
  | unclosedBracket => "unclosed bracket"
  | unexpectedClose => "unexpected `\x7d`"
  | unknownWord word => "unknown word `" ++ String.ofList word ++ "`"
  | missingName => "at-rule without a name"
  | missingSelector => "missing selector"

/-- A fault and the place it is reported at. -/
structure ParseError where
  /-- what is wrong -/
  fault : Fault
  /-- where -/
  position : Position
  deriving Repr, DecidableEq

/-- The error in words. -/
def ParseError.message (e : ParseError) : String :=
  s!"{e.fault.message} at line {e.position.line}, column {e.position.column}"

end MiniSheet
