/-!
# Double precision numbers

A score is kept as its 64-bit word, so that the exact value of every finite one is a natural number
of units of `2 ^ -1074`, the smallest positive magnitude. Nothing here calculates with machine
floating point: reading and printing are exact arithmetic on naturals.
-/

namespace RedisSnapshot

structure Binary64 where
  bits : UInt64
deriving DecidableEq

namespace Binary64

def isNegative (x : Binary64) : Bool :=
  Nat.pow 2 63 ≤ x.bits.toNat

def exponentField (x : Binary64) : Nat :=
  x.bits.toNat / Nat.pow 2 52 % Nat.pow 2 11

def fraction (x : Binary64) : Nat :=
  x.bits.toNat % Nat.pow 2 52

def isNaN (x : Binary64) : Bool :=
  x.exponentField == 2047 && x.fraction != 0

def isInfinite (x : Binary64) : Bool :=
  x.exponentField == 2047 && x.fraction == 0

def significand (x : Binary64) : Nat :=
  if x.exponentField = 0 then x.fraction else Nat.pow 2 52 + x.fraction

/-- The distance to the next magnitude, in units of `2 ^ -1074`. -/
def spacing (x : Binary64) : Nat :=
  Nat.pow 2 (x.exponentField - 1)

/-- The magnitude of a finite number, in units of `2 ^ -1074`. -/
def units (x : Binary64) : Nat :=
  x.significand * x.spacing

/-- The word of the infinite magnitude; every finite magnitude has a smaller one. -/
def infiniteWord : Nat := 2047 * Nat.pow 2 52

def ofMagnitude (negative : Bool) (word : Nat) : Binary64 :=
  ⟨UInt64.ofNat (if negative then Nat.pow 2 63 + word else word)⟩

def infinity (negative : Bool) : Binary64 :=
  ofMagnitude negative infiniteWord

def nan (negative : Bool) : Binary64 :=
  ofMagnitude negative (infiniteWord + Nat.pow 2 51)

def ofBytes (word : List UInt8) : Binary64 :=
  ⟨UInt64.ofNat (word.foldr (fun byte value => byte.toNat + 256 * value) 0)⟩

end Binary64

end RedisSnapshot
