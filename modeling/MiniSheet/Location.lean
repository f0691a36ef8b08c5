import MiniSheet.Text.Basic

/-!
# Locations

A location is a path in normal form: names from the root on, or a number of steps up and then names.
Paths are written with slashes; empty segments and `.` mean nothing, `..` undoes the name in front
of it, has no effect at the root, and is kept in front of a relative path.

Locations form a monoid under `Location.join`, with `Location.here` as its unit: following one path
and then another is following the joined path, and an absolute path forgets where one came from.
-/

namespace MiniSheet

/-- A path in normal form. -/
inductive Location where
  /-- the names from the root on -/
  | absolute (names : List Text)
  /-- so many steps up and then the names -/
  | relative (ups : Nat) (names : List Text)
  deriving Repr, DecidableEq, Inhabited

namespace Location

/-- The empty relative path. -/
def here : Location := relative 0 []

/-- The root. -/
def root : Location := absolute []

/-- The names without the last few. -/
def dropNames (count : Nat) (names : List Text) : List Text := names.take (names.length - count)

/-- Follow the second path from the first. -/
def join : Location → Location → Location
  | _, absolute names => absolute names
  | absolute base, relative ups names => absolute (dropNames ups base ++ names)
  | relative baseUps base, relative ups names =>
    relative (baseUps + (ups - base.length)) (dropNames ups base ++ names)

/-! ## Reading and writing -/

/-- The step that one segment of a written path stands for. -/
def ofSegment (segment : Text) : Location :=
  if segment.isEmpty || segment == ".".toList then here
  else if segment == "..".toList then relative 1 []
  else relative 0 [segment]

/-- The location of a written path. -/
def ofText (path : Text) : Location :=
  let start := if path.head? == some '/' then root else here
  (Text.pieces '/' path).foldl (fun location segment => location.join (ofSegment segment)) start

/-- The written form of a location. -/
def toText : Location → Text
  | absolute names => '/' :: Text.join ['/'] names
  | relative ups names => Text.join ['/'] (List.replicate ups "..".toList ++ names)

/-- The written form of a location, for messages. -/
def display (location : Location) : String := String.ofList location.toText

/-! ## Parts -/

/-- The names of a location. -/
def names : Location → List Text
  | absolute names => names
  | relative _ names => names

/-- The directory that a location lies in. The root and the empty path lie in no directory, for
which the empty path stands. -/
def directory : Location → Location
  | absolute [] => here
  | absolute names => absolute names.dropLast
  | relative ups [] => relative (ups - 1) []
  | relative ups names => relative ups names.dropLast

/-- The location one name further down. -/
def child (location : Location) (name : Text) : Location := location.join (relative 0 [name])

/-- The extension of a file name: what follows its last point, unless that point starts the name. -/
def nameExtension? (name : Text) : Option Text :=
  match Text.splitLast? '.' name with
  | some (_ :: _, extension) => some extension
  | _ => none

/-- The extension of the last name. -/
def extension? (location : Location) : Option Text := location.names.getLast?.bind nameExtension?

/-! ## The monoid of locations -/

@[simp] theorem join_here (location : Location) : location.join here = location := by
  cases location <;> simp [here, join, dropNames]

@[simp] theorem here_join (location : Location) : here.join location = location := by
  cases location <;> simp [here, join, dropNames]

@[simp] theorem join_absolute (location : Location) (names : List Text) :
    location.join (absolute names) = absolute names := by
  cases location <;> rfl

/-- A path from the root is absolute, so it does not matter where it is followed from. -/
theorem join_root_join (start location : Location) :
    start.join (root.join location) = root.join location := by
  cases location <;> exact join_absolute ..

theorem dropNames_append (count : Nat) (front back : List Text) :
    dropNames count (front ++ back) = dropNames (count - back.length) front ++
      dropNames count back := by
  by_cases h : count ≤ back.length
  · have h₁ : front.length + back.length - count = front.length + (back.length - count) := by omega
    have h₂ : count - back.length = 0 := by omega
    simp [dropNames, h₁, h₂, List.take_append, List.take_of_length_le]
  · have h₁ : back.length - count = 0 := by omega
    have h₂ : front.length + back.length - count = front.length - (count - back.length) := by omega
    have h₃ : front.length - (count - back.length) - front.length = 0 := by omega
    simp [dropNames, h₁, h₂, h₃, List.take_append]

theorem dropNames_dropNames (m n : Nat) (names : List Text) :
    dropNames m (dropNames n names) = dropNames (m + n) names := by
  simp only [dropNames, List.length_take, List.take_take]
  congr 1
  omega

theorem length_dropNames (count : Nat) (names : List Text) :
    (dropNames count names).length = names.length - count := by
  simp [dropNames]

/-- Joining is associative. -/
theorem join_assoc (a b c : Location) : (a.join b).join c = a.join (b.join c) := by
  cases c with
  | absolute names => simp
  | relative k ns =>
    cases b with
    | absolute names => cases a <;> rfl
    | relative j ms =>
      cases a with
      | absolute ls =>
        simp only [join, dropNames_append, dropNames_dropNames, List.append_assoc]
        congr 3
        omega
      | relative i ls =>
        simp only [join, dropNames_append, dropNames_dropNames, List.append_assoc,
          List.length_append, length_dropNames]
        congr 1
        · omega
        · congr 2
          omega

end Location

end MiniSheet
