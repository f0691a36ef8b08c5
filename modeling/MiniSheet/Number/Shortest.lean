import MiniSheet.Number.Double
import MiniSheet.Number.Whole

/-!
# Doubles in decimal

A double stands for all the numbers that round to it. Its shortest decimal form is the one with the
fewest digits among them, and of those the nearest to the double. It is found by trying the powers
of ten from above: the first one with a multiple in the interval has the fewest digits.

All comparisons are between natural numbers. Lengths are counted in quarters of the distance between
neighbouring doubles, so that the ends of the interval are whole.
-/

namespace MiniSheet

namespace Decimal

/-- The size of a finite double: `mantissa * 2 ^ exponent`. -/
structure Binary where
  /-- the digits, at most 53 bits -/
  mantissa : Nat
  /-- the power of two -/
  exponent : Int
  deriving Repr, DecidableEq

namespace Binary

/-- The size in quarters of the distance to the next double. -/
def quarters (b : Binary) : Nat := 4 * b.mantissa

/-- How many quarters below the size the interval begins. The doubles below a power of two lie twice
as close. -/
def quartersBelow (b : Binary) : Nat :=
  if b.mantissa = Nat.pow 2 52 ∧ b.exponent ≠ Double.leastExponent then 1 else 2

/-- What `digits * 10 ^ power` is multiplied with when it is compared with a number of quarters. -/
def tenScale (b : Binary) (power : Int) : Nat :=
  Nat.pow 10 power.toNat * Nat.pow 2 (2 - b.exponent).toNat

/-- What a number of quarters is multiplied with when it is compared with `digits * 10 ^ power`. -/
def quarterScale (b : Binary) (power : Int) : Nat :=
  Nat.pow 10 (-power).toNat * Nat.pow 2 (b.exponent - 2).toNat

/-- Whether `digits * 10 ^ power` rounds to the double. The ends of the interval count if the
mantissa is even. -/
def admits (b : Binary) (power : Int) (digits : Nat) : Bool :=
  let place := digits * b.tenScale power
  let low := (b.quarters - b.quartersBelow) * b.quarterScale power
  let high := (b.quarters + 2) * b.quarterScale power
  if b.mantissa % 2 = 0 then low ≤ place && place ≤ high else low < place && place < high

/-- The multiple of a power of ten that rounds to the double and is nearest to it. -/
def nearest? (b : Binary) (power : Int) : Option Nat :=
  let place := b.quarters * b.quarterScale power
  let ten := b.tenScale power
  let digits := place / ten
  match b.admits power digits, b.admits power (digits + 1) with
  | true, true =>
    some (if place - digits * ten ≤ (digits + 1) * ten - place then digits else digits + 1)
  | true, false => some digits
  | false, true => some (digits + 1)
  | false, false => none

/-- The powers of ten that can be the last digit of a double, from above. -/
def powers : List Int := (List.range 650).map fun i : Nat => 310 - (i : Int)

/-- The shortest decimal form: digits and the power of ten of the last one. -/
def shortest (b : Binary) : Nat × Int :=
  (powers.findSome? fun power => (b.nearest? power).map fun digits => (digits, power)).getD (0, 0)

end Binary

/-- A decimal number written without an exponent. -/
def positional (digits : Nat) (power : Int) : Text :=
  let written := ofNat digits
  if 0 ≤ power then written ++ List.replicate power.toNat '0'
  else
    let places := (-power).toNat
    let padded := List.replicate (places + 1 - written.length) '0' ++ written
    padded.take (padded.length - places) ++ '.' :: padded.drop (padded.length - places)

/-- A minus sign, where there is one. -/
def signText (isNegative : Bool) : Text := if isNegative then ['-'] else []

/-- A double in decimal, with the fewest digits that read back as the same double and without an
exponent. Zero keeps its sign. -/
def ofDouble : Double → Text
  | .notANumber => "NaN".toList
  | .infinite isNegative => signText isNegative ++ "inf".toList
  | .finite isNegative 0 _ => signText isNegative ++ ['0']
  | .finite isNegative mantissa exponent =>
    let (digits, power) := (Binary.mk mantissa exponent).shortest
    signText isNegative ++ positional digits power

/-- A float in decimal. -/
def ofFloat (x : Float) : Text := ofDouble (.ofFloat x)

end Decimal

end MiniSheet
