import RedisSnapshot.Binary64.Shortest

/-!
# Writing a number as text

Two places write numbers, each with a layout of its own: JSON, where a whole number keeps a zero
behind the point and very large and very small ones have an exponent, and the score of a write
command, which never has either.
-/

namespace RedisSnapshot.Binary64

structure Layout where
  tie : Tie
  /-- The decimal exponents of the first digit that are written without an exponent. -/
  positional : Int → Bool
  whole : String

def zeros (count : Int) : List Char :=
  List.replicate count.toNat '0'

def Layout.place (layout : Layout) (number : Digits) : String :=
  let digits := number.digits.map Nat.digitChar
  if layout.positional (number.point - 1) then
    if number.point ≤ 0 then
      "0." ++ String.ofList (zeros (-number.point) ++ digits)
    else if digits.length ≤ number.point then
      String.ofList (digits ++ zeros (number.point - digits.length)) ++ layout.whole
    else
      String.ofList (digits.take number.point.toNat) ++ "." ++
        String.ofList (digits.drop number.point.toNat)
  else
    let exponent := number.point - 1
    String.ofList (digits.take 1) ++
      (if digits.length = 1 then "" else "." ++ String.ofList (digits.drop 1)) ++
      (if exponent < 0 then "e-" else "e+") ++ Decimal.text exponent.natAbs

def Layout.text (layout : Layout) (x : Binary64) : String :=
  if x.isNaN then "NaN"
  else
    (if x.isNegative then "-" else "") ++
      (if x.isInfinite then "inf"
      else if x.units = 0 then "0" ++ layout.whole
      else layout.place (x.shortest layout.tie))

/-- A JSON number always shows a point or an exponent, and an exponent from `1e+16` on and below
`0.00001`. -/
def json : Layout where
  tie := .toEven
  positional exponent := -5 ≤ exponent && exponent < 16
  whole := ".0"

/-- The score of a write command is written in full. -/
def score : Layout where
  tie := .upward
  positional _ := true
  whole := ""

end RedisSnapshot.Binary64
