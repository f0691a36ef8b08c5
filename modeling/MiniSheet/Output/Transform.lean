import MiniSheet.Location
import MiniSheet.Output.Chunk
import MiniSheet.Rpx
import MiniSheet.Selector
import MiniSheet.Source.Node

/-!
# Transforms

Compiling copies a tree, except for selectors and values: what those turn into is up to a pair of
transforms. A transform says what is written, or why it cannot say.
-/

namespace MiniSheet

/-- The at-rule around a node. -/
inductive Context where
  /-- no at-rule -/
  | root
  /-- an at-rule of the given name -/
  | atRule (name : Text)
  deriving Repr, DecidableEq

namespace Context

/-- The context of all keyframes, whatever their vendor. -/
def keyframes : Context := atRule "keyframes".toList

/-- The context inside an at-rule. -/
def inside (name : Text) : Context := if isKeyframesName name then keyframes else atRule name

/-- The name of a context. -/
def name : Context → Text
  | root => "root".toList
  | atRule name => name

/-- Whether rules in this context are keyframes. -/
def isKeyframes (context : Context) : Bool := context == keyframes

end Context

/-- What is written for the selector of a rule. -/
abbrev SelectorTransform : Type := Context → Text → Except String (List (Emission Location))

/-- What is written for the value of a declaration. -/
structure WrittenValue where
  /-- what is written -/
  emissions : List (Emission Location)
  /-- whether a part of it waits for the device -/
  isDeferred : Bool
  deriving Repr

/-- What is written for the value of a declaration. -/
abbrev DeclarationTransform : Type := Context → Declaration → Except String WrittenValue

/-- The transforms that a package is compiled with. -/
structure Transforms where
  /-- for selectors -/
  selector : SelectorTransform
  /-- for values -/
  declaration : DeclarationTransform

/-! ## Selectors -/

/-- Write selectors as they are. -/
def SelectorTransform.copy : SelectorTransform := fun _ selector => .ok [.text (Text.trim selector)]

/-- Write selectors with a tag in front of each type selector. The selectors of keyframes are no
type selectors. -/
def SelectorTransform.tag (tag : Text) : SelectorTransform := fun context selector =>
  let selector := Text.trim selector
  .ok [.text (if context.isKeyframes then selector else Selector.tagTypes tag selector)]

/-- The tag of component elements. -/
def SelectorTransform.componentTag : Text := "wx-".toList

/-! ## Values -/

/-- What is written for an atom: lengths wait for the device. -/
def Rpx.Atom.emission : Rpx.Atom → Emission Location
  | .char c => .text [c]
  | .literal numeral => .chunk (.pixel numeral.value)

/-- Whether an atom waits for the device. -/
def Rpx.Atom.isLiteral : Rpx.Atom → Bool
  | .char _ => false
  | .literal _ => true

/-- Write values as they are, except for device-relative lengths, which wait for the device. -/
def DeclarationTransform.rpx : DeclarationTransform := fun _ declaration =>
  let atoms := Rpx.atoms declaration.value
  .ok ⟨atoms.map Rpx.Atom.emission, atoms.any Rpx.Atom.isLiteral⟩

/-- Selectors as they are, device-relative lengths deferred. -/
def Transforms.standard : Transforms := ⟨.copy, .rpx⟩

end MiniSheet
