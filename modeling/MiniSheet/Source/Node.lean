import MiniSheet.Source.Position
import MiniSheet.Text.Name

/-!
# The tree of a stylesheet

A stylesheet is a forest. Its inner nodes are *blocks*: a head, which is the selector of a rule or
an at-rule, and the nodes between braces. Its leaves are declarations, at-rules without a block, and
comments. Texts are kept as written, but for the blanks around them, so that nothing but layout is
lost.
-/

namespace MiniSheet

/-! ## Declarations -/

/-- One `property: value` statement. -/
structure Declaration where
  /-- the name of the property -/
  property : Text
  /-- the colon with the gaps around it, as written -/
  separator : Text
  /-- the value, without the importance marker and the blanks behind -/
  value : Text
  /-- the importance marker as written, such as `!important` or `! IMPORTANT` -/
  marker : Option Text
  /-- whether a semicolon ends the statement -/
  terminated : Bool
  deriving Repr, DecidableEq, Inhabited

namespace Declaration

/-- Whether the declaration is marked as important. -/
def isImportant (d : Declaration) : Bool := d.marker.isSome

/-- The separator of a declaration that has none of its own. -/
def defaultSeparator : Text := ": ".toList

/-- The separator as it is written. Declarations that were read have one of their own. -/
def writtenSeparator (d : Declaration) : Text :=
  if d.separator.isEmpty then defaultSeparator else d.separator

/-- Split the importance marker off a value. The marker is the text from the last exclamation mark
on, if that spells `important` in any case once its blanks are left out. -/
def splitMarker (value : Text) : Text × Option Text :=
  match Text.splitLast? '!' value with
  | some (front, word) =>
    if Text.sameWord (word.filter fun c => !Text.isBlank c) "important".toList then
      (Text.trimEnd front, some ('!' :: word))
    else (value, none)
  | none => (value, none)

/-- Read a statement as a declaration: a property name, a colon, a value. -/
def read? (statement : Text) (terminated : Bool) : Option Declaration :=
  let behind := statement.dropWhile Text.isPropertyChar
  match statement.takeWhile Text.isPropertyChar, behind.dropWhile Text.isGap with
  | c :: property, ':' :: rest =>
    let (value, marker) := splitMarker (Text.trimEnd (rest.dropWhile Text.isGap))
    some
      { property := c :: property
        separator := behind.takeWhile Text.isGap ++ ':' :: rest.takeWhile Text.isGap
        value, marker, terminated }
  | _, _ => none

end Declaration

/-! ## Nodes -/

/-- A statement without a block. -/
inductive Leaf where
  /-- a declaration -/
  | declaration (content : Declaration)
  /-- an at-rule that ends without a block -/
  | atRule (name params : Text)
  /-- a comment, without its delimiters and the blanks inside them -/
  | comment (content : Text)
  deriving Repr, DecidableEq

/-- What stands in front of a block. -/
inductive Head where
  /-- the selector of a rule -/
  | rule (selector : Text)
  /-- an at-rule -/
  | atRule (name params : Text)
  deriving Repr, DecidableEq

/-- A node of a stylesheet. -/
inductive Node where
  /-- a statement without a block -/
  | leaf (content : Leaf) (span : Span)
  /-- a block and the nodes in it -/
  | block (head : Head) (children : List Node) (span : Span)
  deriving Repr

/-- The part of the source a node was read from. -/
def Node.span : Node → Span
  | .leaf _ span => span
  | .block _ _ span => span

/-! ## Keyframes -/

/-- Whether an at-rule of this name holds keyframes: `keyframes`, or the same behind a vendor, as in
`-webkit-keyframes`. A vendor is made of letters and digits of the Latin alphabet. -/
def isKeyframesName (name : Text) : Bool :=
  name == "keyframes".toList ||
    match name with
    | '-' :: rest =>
      match Text.splitFirst? '-' rest with
      | some (vendor, word) =>
        word == "keyframes".toList && !vendor.isEmpty && vendor.all Char.isAlphanum
      | none => false
    | _ => false

end MiniSheet
