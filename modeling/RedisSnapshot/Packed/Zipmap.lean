import RedisSnapshot.Decoder

/-!
# Zipmaps

A zipmap has the number of its pairs, the pairs, and an end mark. A value may be followed by bytes
that are not in use, whose number stands in front of it.
-/

namespace RedisSnapshot.Packed.Zipmap

open Decoder Reader

/-- A number of pairs from here on, or a first length byte of this value, is not the number itself.
-/
def largeMark : Nat := 254

def endMark : Nat := 255

/-- The length of a field or a value, or nothing at the end mark. -/
def length? : Decoder (Option Nat) := do
  let first := (← byte).toNat
  if first = endMark then return none
  else if first = largeMark then return some (← little 4)
  else return some first

def pair? : Decoder (Option (Bytes × Bytes)) := do
  let some fieldLength ← length? | return none
  let field ← take fieldLength
  let some valueLength ← length? | malformed .zipmapEnded
  let unused ← byte
  let value ← take valueLength
  let _ ← take unused.toNat
  return some (field, value)

def entries : Decoder (List (Bytes × Bytes)) := do
  let declared := (← byte).toNat
  let found ← collect pair?
  if largeMark ≤ declared ∨ found.length = declared then return found
  else malformed (.zipmapCount declared found.length)

def decode (blob : Bytes) : Except Fault (List (Bytes × Bytes)) :=
  readBlob entries blob

end RedisSnapshot.Packed.Zipmap
