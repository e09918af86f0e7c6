import RedisSnapshot.Bytes

/-!
# Decimal text of integers

Packed containers hand out integers as their canonical decimal text, commands and replies carry
lengths in it, and stream node fields are read back from it. The digits are produced most
significant first, without leading zeros and with at least one digit.
-/

namespace RedisSnapshot.Decimal

def digits (n : Nat) : List Nat :=
  if n < 10 then [n] else digits (n / 10) ++ [n % 10]
termination_by n
decreasing_by omega

def bytes (n : Nat) : Bytes :=
  (digits n).map fun digit => UInt8.ofNat (48 + digit)

def chars (n : Nat) : List Char :=
  (digits n).map Nat.digitChar

def text (n : Nat) : String :=
  String.ofList (chars n)

def intBytes : Int → Bytes
  | .ofNat n => bytes n
  | .negSucc n => 45 :: bytes (n + 1)

def intText : Int → String
  | .ofNat n => text n
  | .negSucc n => "-" ++ text (n + 1)

def digit? (byte : UInt8) : Option Nat :=
  if 48 ≤ byte ∧ byte ≤ 57 then some (byte.toNat - 48) else none

/-- The number written by a non-empty run of digits and nothing else. -/
def nat? (text : Bytes) : Option Nat :=
  if text.isEmpty then none
  else text.foldl (fun value byte => return 10 * (← value) + (← digit? byte)) (some 0)

/-- A natural below the limit, with or without a plus sign. -/
def unsigned? (limit : Nat) (text : Bytes) : Option Nat :=
  (match text with
    | 43 :: rest => nat? rest
    | rest => nat? rest).filter (· < limit)

/-- An integer of the given width, with or without a sign. -/
def signed? (bits : Nat) (text : Bytes) : Option Int :=
  (match text with
    | 45 :: rest => (nat? rest).map fun n => -(n : Int)
    | 43 :: rest => (nat? rest).map fun n => (n : Int)
    | rest => (nat? rest).map fun n => (n : Int)).filter
      fun n => -(Word.count (bits - 1) : Int) ≤ n ∧ n < Word.count (bits - 1)

example : bytes 0 = [48] ∧ bytes 1024 = [49, 48, 50, 52] := by decide +kernel

example : intBytes (-7) = [45, 55] := by decide +kernel

example : signed? 64 [43, 53] = some 5 ∧ signed? 64 [45] = none ∧
    signed? 8 [49, 50, 56] = none := by
  decide

end RedisSnapshot.Decimal
