import MiniSheet.Source.Token

/-!
# Building the tree

The blocks of a stylesheet nest, so the tree is built with a stack: an opening token puts the nodes
read so far aside, a closing one makes a block of the nodes read since and goes on behind those put
aside. A closing token with nothing put aside is a fault, and so is a source that ends with
something still put aside.
-/

namespace MiniSheet

/-- A whole stylesheet. -/
structure Document where
  /-- the nodes at the top level -/
  nodes : List Node
  /-- the whole source -/
  span : Span
  deriving Repr

namespace Document

/-- A block that is not closed yet. -/
structure Frame where
  /-- its head -/
  head : Head
  /-- where its head starts -/
  start : Position
  /-- the nodes in front of it in the enclosing block, last one first -/
  before : List Node

/-- A tree under construction. -/
structure Builder where
  /-- the open blocks, innermost first -/
  frames : List Frame
  /-- the nodes of the innermost open block, last one first -/
  nodes : List Node

namespace Builder

/-- Nothing read yet. -/
def empty : Builder := ⟨[], []⟩

/-- Take one more token. -/
def step (b : Builder) : Token → Except ParseError Builder
  | .leaf content span => .ok { b with nodes := .leaf content span :: b.nodes }
  | .opening head start => .ok ⟨⟨head, start, b.nodes⟩ :: b.frames, []⟩
  | .closing place =>
    match b.frames with
    | [] => .error ⟨.unexpectedClose, place⟩
    | frame :: frames =>
      .ok ⟨frames, .block frame.head b.nodes.reverse ⟨frame.start, place.step '}'⟩ :: frame.before⟩

/-- The nodes of a tree with no open block. -/
def finish (b : Builder) : Except ParseError (List Node) :=
  match b.frames with
  | [] => .ok b.nodes.reverse
  | frame :: _ => .error ⟨.unclosedBlock, frame.start⟩

end Builder

/-- Read a source as a stylesheet. -/
def parse (source : Text) : Except ParseError Document := do
  let reading := Token.readAll .start source
  let builder ← reading.tokens.foldlM Builder.step .empty
  let stop ← reading.ending
  let nodes ← builder.finish
  return ⟨nodes, ⟨.start, stop⟩⟩

end Document

end MiniSheet
