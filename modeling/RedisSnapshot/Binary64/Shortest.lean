import RedisSnapshot.Binary64.Basic
import RedisSnapshot.Decimal

/-!
# The fewest digits that read back

A magnitude is printed with the fewest significant digits that still round to it. For one, two and
more digits the two neighbours of the magnitude on the decimal grid of that many digits are tried;
the first grid with a point inside the interval of reals that round to the magnitude settles the
number of digits, and of two such points the nearer is taken. Seventeen digits always suffice.
-/

namespace RedisSnapshot.Binary64

/-- Which of two equally near decimals is printed. -/
inductive Tie where
  | toEven
  | upward
deriving DecidableEq

/-- A positive decimal number: its digits, most significant first, behind the decimal point, times a
power of ten. -/
structure Digits where
  digits : List Nat
  point : Int

/-- The reals that round to a magnitude, in quarters of a unit. The ends belong to it when its
significand is even. -/
structure Interval where
  low : Nat
  centre : Nat
  high : Nat
  closed : Bool

def interval (x : Binary64) : Interval where
  low := 4 * x.units -
    (if x.fraction = 0 ∧ 1 < x.exponentField then x.spacing else 2 * x.spacing)
  centre := 4 * x.units
  high := 4 * x.units + 2 * x.spacing
  closed := x.significand % 2 = 0

/-- Quarters of a unit in one. -/
def one : Nat := Nat.pow 2 1076

/-- The power of ten above a positive magnitude: the least that exceeds it. -/
def pointOf (centre : Nat) : Int :=
  if one ≤ centre then (Decimal.digits (centre / one)).length
  else 1 - (Decimal.digits (one / centre)).length

/-- Whether the grid point `digits * 10 ^ exponent` lies in the interval, all lengths being
multiplied by `up` and the grid by `down`, one of which is a power of ten and the other one. -/
def Interval.contains (interval : Interval) (up down digits : Nat) : Bool :=
  let place := digits * down * one
  if interval.closed then interval.low * up ≤ place && place ≤ interval.high * up
  else interval.low * up < place && place < interval.high * up

/-- The point of one decimal grid that stands for the interval, if the grid has one. -/
def Interval.onGrid? (interval : Interval) (tie : Tie) (exponent : Int) : Option Nat :=
  let up := Nat.pow 10 (-exponent).toNat
  let down := Nat.pow 10 exponent.toNat
  let below := interval.centre * up / (down * one)
  let downward := interval.centre * up - below * down * one
  let upward := (below + 1) * down * one - interval.centre * up
  match interval.contains up down below, interval.contains up down (below + 1) with
  | true, true =>
      if downward < upward then some below
      else if upward < downward then some (below + 1)
      else match tie with
        | .toEven => some (below + below % 2)
        | .upward => some (below + 1)
  | true, false => some below
  | false, true => some (below + 1)
  | false, false => none

def dropTrailingZeros (digits : List Nat) : List Nat :=
  (digits.reverse.dropWhile (· == 0)).reverse

/-- Tries grids of more and more digits, as many as are left to try. -/
def searchGrids (interval : Interval) (tie : Tie) (point : Int) : (left count : Nat) → Digits
  | 0, _ => ⟨[], 0⟩
  | left + 1, count =>
      match interval.onGrid? tie (point - count) with
      | some grid =>
          let digits := Decimal.digits grid
          ⟨dropTrailingZeros digits, point - count + digits.length⟩
      | none => searchGrids interval tie point left (count + 1)

def shortest (tie : Tie) (x : Binary64) : Digits :=
  searchGrids x.interval tie (pointOf x.interval.centre) 17 1

end RedisSnapshot.Binary64
