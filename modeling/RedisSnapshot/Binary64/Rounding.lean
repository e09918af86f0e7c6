import RedisSnapshot.Binary64.Basic

/-!
# Rounding a ratio to double precision

Of two neighbouring magnitudes the nearer is taken, and the even one of two equally near.
-/

namespace RedisSnapshot.Binary64

/-- The nearest natural to a quotient, the even one in a tie. -/
def roundDiv (numerator denominator : Nat) : Nat :=
  let quotient := numerator / denominator
  let remainder := numerator % denominator
  if 2 * remainder < denominator then quotient
  else if denominator < 2 * remainder then quotient + 1
  else quotient + quotient % 2

/-- The word of the magnitude nearest to a ratio. A magnitude of fewer than `2 ^ 53` units is a
whole number of units; above that the spacing doubles with every further binary digit. -/
def wordOfRatio (numerator denominator : Nat) : Nat :=
  let scaled := numerator * Nat.pow 2 1074
  let doublings := Nat.log2 (scaled / denominator) - 52
  min infiniteWord (doublings * Nat.pow 2 52 + roundDiv scaled (denominator * Nat.pow 2 doublings))

/-- The word of the magnitude nearest to a decimal number, given by its digits, most significant
first, and the power of ten of the last of them. Beyond the range of the format the digits do not
matter. -/
def wordOfDecimal (digits : List Nat) (exponent : Int) : Nat :=
  let significant := digits.dropWhile (· == 0)
  let magnitude := (significant.length : Int) + exponent
  let mantissa := significant.foldl (fun value digit => 10 * value + digit) 0
  if significant.isEmpty ∨ magnitude < -330 then 0
  else if 310 < magnitude then infiniteWord
  else if 0 ≤ exponent then wordOfRatio (mantissa * Nat.pow 10 exponent.toNat) 1
  else wordOfRatio mantissa (Nat.pow 10 (-exponent).toNat)

example : roundDiv 5 2 = 2 ∧ roundDiv 7 2 = 4 ∧ roundDiv 8 3 = 3 := by decide

end RedisSnapshot.Binary64
