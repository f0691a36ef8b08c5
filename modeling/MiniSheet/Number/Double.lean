/-!
# Doubles

A double taken apart: a sign and `mantissa * 2 ^ exponent`, or one of the values that are no number.
What is computed from these parts is exact.
-/

namespace MiniSheet

/-- A double, taken apart. -/
inductive Double where
  /-- the number `mantissa * 2 ^ exponent`, or its opposite -/
  | finite (isNegative : Bool) (mantissa : Nat) (exponent : Int)
  /-- what lies beyond all numbers -/
  | infinite (isNegative : Bool)
  /-- no number -/
  | notANumber
  deriving Repr, DecidableEq

namespace Double

/-- The power of two of the smallest doubles. -/
def leastExponent : Int := -1074

/-- Take a double apart. -/
def ofFloat (x : Float) : Double :=
  let bits : Nat := x.toBits.toNat
  let isNegative := bits / Nat.pow 2 63 == 1
  let biased : Nat := bits / Nat.pow 2 52 % Nat.pow 2 11
  let low : Nat := bits % Nat.pow 2 52
  if biased = 2047 then if low = 0 then infinite isNegative else notANumber
  else if biased = 0 then finite isNegative low leastExponent
  else finite isNegative (Nat.pow 2 52 + low) ((biased : Int) - 1 + leastExponent)

/-- The greatest whole number that is not greater than `mantissa * 2 ^ exponent`. -/
def floorOf (mantissa : Int) (exponent : Int) : Int :=
  mantissa * Int.pow 2 exponent.toNat / Int.pow 2 (-exponent).toNat

/-- The greatest word of 64 bits. -/
def greatestWord : Int := Int.pow 2 63 - 1

/-- The least word of 64 bits. -/
def leastWord : Int := -Int.pow 2 63

/-- A whole number, cut off at the bounds of 64 bits. -/
def clampWord (n : Int) : Int := max leastWord (min greatestWord n)

/-- The greatest whole number that is not greater, cut off at the bounds of 64 bits. What is no
number counts as zero. -/
def floorWord : Double → Int
  | finite isNegative mantissa exponent =>
    clampWord (floorOf (if isNegative then -(mantissa : Int) else mantissa) exponent)
  | infinite isNegative => if isNegative then leastWord else greatestWord
  | notANumber => 0

end Double

end MiniSheet
