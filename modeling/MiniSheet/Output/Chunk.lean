import MiniSheet.Text.Basic

/-!
# Output with holes

A compiled stylesheet is a list of chunks: text, values that wait for a device, and references to
other stylesheets. Chunks are put together with an `Accumulator`, which collects text until
something else comes and never lets two texts stand side by side.

How a stylesheet is referred to makes no difference here, so the type of references is a parameter.
-/

namespace MiniSheet

/-- A piece of a compiled stylesheet. -/
inductive Chunk (ρ : Type) where
  /-- text that is written as it is -/
  | text (content : Text)
  /-- a length that is written in pixels once the device is known -/
  | pixel (raw : Float)
  /-- a value that is kept and never written -/
  | suffix (raw : Float)
  /-- the whole output of another stylesheet -/
  | nested (target : ρ)
  deriving Repr

variable {ρ : Type}

namespace Chunk

/-- The stylesheet that a chunk refers to. -/
def target? : Chunk ρ → Option ρ
  | nested target => some target
  | _ => none

/-- Add a chunk behind others. Empty text adds nothing, and text goes on with the text in front of
it. -/
def push (chunks : List (Chunk ρ)) (chunk : Chunk ρ) : List (Chunk ρ) :=
  match chunk with
  | text [] => chunks
  | text content =>
    match chunks.getLast? with
    | some (text front) => chunks.dropLast ++ [text (front ++ content)]
    | _ => chunks ++ [text content]
  | chunk => chunks ++ [chunk]

/-- The stylesheets that chunks refer to, in order. -/
def targets (chunks : List (Chunk ρ)) : List ρ := chunks.filterMap target?

end Chunk

/-- Something that is written: text, or a chunk that ends the text in front of it. -/
inductive Emission (ρ : Type) where
  /-- text that goes on with the text in front of it -/
  | text (content : Text)
  /-- a chunk of its own -/
  | chunk (content : Chunk ρ)
  deriving Repr

/-- Chunks under construction. -/
structure Accumulator (ρ : Type) where
  /-- the text since the last flush -/
  pending : Text
  /-- the chunks in front of it -/
  chunks : List (Chunk ρ)
  deriving Repr

namespace Accumulator

/-- Nothing written yet. -/
def empty : Accumulator ρ := ⟨[], []⟩

/-- Write text. -/
def append (a : Accumulator ρ) (content : Text) : Accumulator ρ :=
  { a with pending := a.pending ++ content }

/-- End the pending text, then add a chunk if there is one. -/
def flush (a : Accumulator ρ) (extra : Option (Chunk ρ)) : Accumulator ρ where
  pending := []
  chunks := extra.toList.foldl Chunk.push (Chunk.push a.chunks (.text a.pending))

/-- End the pending text. -/
def finish (a : Accumulator ρ) : Accumulator ρ := a.flush none

/-- All chunks, the pending text among them. -/
def toChunks (a : Accumulator ρ) : List (Chunk ρ) := a.finish.chunks

/-- Write one thing. -/
def emit (a : Accumulator ρ) : Emission ρ → Accumulator ρ
  | .text content => a.append content
  | .chunk content => a.flush (some content)

/-- Write one thing after the other. -/
def emitAll (a : Accumulator ρ) (emissions : List (Emission ρ)) : Accumulator ρ :=
  emissions.foldl emit a

end Accumulator

end MiniSheet
