import RedisSnapshot.Binary64.Rounding

/-!
# Reading a number from decimal text

A sign may stand in front of a number in plain or exponential notation with at least one digit
before the exponent, or in front of one of the names for what no digits can write.
-/

namespace RedisSnapshot.Binary64

def takeDigits (text : List Char) : List Nat × List Char :=
  ((text.takeWhile Char.isDigit).map fun digit => digit.toNat - 48, text.dropWhile Char.isDigit)

/-- The exponent that a run of digits writes. No digit counts any more once `65536` is reached. -/
def exponentOf (digits : List Nat) : Nat :=
  digits.foldl (fun value digit => if value < 0x10000 then 10 * value + digit else value) 0

def digitsExponent? (negative : Bool) (text : List Char) : Option Int :=
  let (digits, rest) := takeDigits text
  if digits.isEmpty || !rest.isEmpty then none
  else if negative then some (-exponentOf digits) else some (exponentOf digits)

def exponent? : List Char → Option Int
  | '-' :: rest => digitsExponent? true rest
  | '+' :: rest => digitsExponent? false rest
  | text => digitsExponent? false text

/-- The digits on both sides of a point, and what stands behind them. -/
def takePoint (text : List Char) : List Nat × List Nat × List Char :=
  let (whole, rest) := takeDigits text
  match rest with
  | '.' :: rest => (whole, takeDigits rest)
  | rest => (whole, [], rest)

def power? : List Char → Option Int
  | [] => some 0
  | mark :: rest => if mark = 'e' ∨ mark = 'E' then exponent? rest else none

/-- The word of the magnitude that a text without a sign writes. -/
def magnitude? (text : List Char) : Option Nat :=
  let (whole, part, rest) := takePoint text
  if whole.isEmpty && part.isEmpty then none
  else (power? rest).map fun power => wordOfDecimal (whole ++ part) (power - part.length)

def unsigned? (negative : Bool) (text : List Char) : Option Binary64 :=
  let name := text.map Char.toLower
  if name = ['n', 'a', 'n'] then some (nan negative)
  else if name = ['i', 'n', 'f'] ∨ name = ['i', 'n', 'f', 'i', 'n', 'i', 't', 'y'] then
    some (infinity negative)
  else
    (magnitude? text).map (ofMagnitude negative)

def read? : List Char → Option Binary64
  | '-' :: rest => unsigned? true rest
  | '+' :: rest => unsigned? false rest
  | text => unsigned? false text

end RedisSnapshot.Binary64
