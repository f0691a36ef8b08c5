import MiniSheet.Source.Position
import MiniSheet.Text.Bytes

/-!
# Line tables

A reader carries its position along. Where only an offset into the source is known, in bytes of its
UTF-8 form, the position is looked up: a line table holds the offsets at which the lines of the
source start. The line of a place is the last one that does not start behind it, and is found by
halving the table. The column is found by counting the characters from the start of the line.

Looking up fails if there is no line to be found, or if the offset does not lie between two
characters.
-/

namespace MiniSheet

/-- The lines of a source. -/
structure LineTable where
  /-- the offset at which each line starts -/
  starts : Array Nat
  deriving Repr, DecidableEq

namespace LineTable

/-- The byte that a line ends with. -/
def lineFeed : UInt8 := 10

/-- The lines of a source. The first one starts with the source, and every line feed starts another
one. -/
def ofText (source : Text) : LineTable :=
  let feeds := source.bytes.zipIdx.filter (·.1 == lineFeed)
  ⟨(0 :: feeds.map (·.2 + 1)).toArray⟩

/-- What searching for an offset comes to. -/
inductive Hit where
  /-- a line starts there -/
  | exact (line : Nat)
  /-- no line starts there; the first line behind it, or the number of lines if there is none -/
  | before (next : Nat)
  deriving Repr, DecidableEq

/-- Search for an offset among the lines from `low` on and in front of `high`. -/
def searchBetween (table : LineTable) (offset low high : Nat) (hhigh : high ≤ table.starts.size) :
    Hit :=
  if hlow : low < high then
    have hmiddle : (low + high) / 2 < table.starts.size := by omega
    let start := table.starts[(low + high) / 2]
    if start = offset then .exact ((low + high) / 2)
    else if start < offset then table.searchBetween offset ((low + high) / 2 + 1) high hhigh
    else table.searchBetween offset low ((low + high) / 2) (Nat.le_of_lt hmiddle)
  else .before low
termination_by high - low

/-- Search for an offset among all lines. -/
def search (table : LineTable) (offset : Nat) : Hit :=
  table.searchBetween offset 0 table.starts.size (Nat.le_refl _)

/-- The line that an offset lies in, counted from zero. There is none if all lines start behind the
offset. -/
def line? (table : LineTable) (offset : Nat) : Option Nat :=
  match table.search offset with
  | .exact line => some line
  | .before 0 => none
  | .before (next + 1) => some next

/-- The position of an offset, given the source that the table belongs to. -/
def position? (table : LineTable) (source : Text) (offset : Nat) : Option Position := do
  let line ← table.line? offset
  let start ← table.starts[line]?
  let passed ← source.slice? start offset
  return ⟨line + 1, passed.length + 1⟩

/-- The position the given number of bytes into the text that is left of a source. How much of the
source has been read is known from what is left. -/
def positionAfter? (table : LineTable) (source rest : Text) (offset : Nat) : Option Position :=
  table.position? source (source.byteSize - rest.byteSize + offset)

end LineTable

end MiniSheet
