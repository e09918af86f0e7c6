/-!
# Byte strings and fixed-width words

A snapshot, a key and a reply are all byte strings. Numbers of a fixed width appear in them in both
byte orders, and the signed ones in two's complement; here they are read as plain naturals and
integers, so that no later module needs to think about the width of a machine word.
-/

namespace RedisSnapshot

abbrev Bytes := List UInt8

namespace Word

/-- The number whose least significant byte comes first. -/
def little : Bytes → Nat
  | [] => 0
  | byte :: rest => byte.toNat + 256 * little rest

/-- The number whose most significant byte comes first. -/
def big (bytes : Bytes) : Nat :=
  bytes.foldl (fun value byte => 256 * value + byte.toNat) 0

/-- The number of words of so many bits. -/
def count (bits : Nat) : Nat :=
  Nat.pow 2 bits

/-- The integer that a word of so many bits stands for in two's complement. -/
def signed (bits value : Nat) : Int :=
  if value < count (bits - 1) then value else (value : Int) - count bits

theorem little_lt (bytes : Bytes) : little bytes < Nat.pow 256 bytes.length := by
  induction bytes with
  | nil => simp [little]
  | cons byte rest ih =>
      have hbyte := byte.toNat_lt
      have hsplit : Nat.pow 256 (rest.length + 1) = 256 * Nat.pow 256 rest.length :=
        Nat.mul_comm (Nat.pow 256 rest.length) 256
      simp only [little, List.length_cons, hsplit]
      omega

theorem big_append (front : Bytes) (byte : UInt8) :
    big (front ++ [byte]) = 256 * big front + byte.toNat := by
  simp [big]

end Word

end RedisSnapshot
