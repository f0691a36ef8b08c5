import MiniSheet.Text.Basic

/-!
# Whole numbers in decimal
-/

namespace MiniSheet

namespace Decimal

/-- The decimal digits of a natural number. -/
def ofNat (n : Nat) : Text := Nat.toDigits 10 n

/-- A whole number in decimal, with a minus sign if it is negative. -/
def ofInt : Int → Text
  | .ofNat n => ofNat n
  | .negSucc n => '-' :: ofNat (n + 1)

end Decimal

end MiniSheet
