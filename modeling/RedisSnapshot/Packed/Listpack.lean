import RedisSnapshot.Packed.Pairs

/-!
# Listpacks

A listpack has its total length, which a reader from the front ignores, the number of its entries,
the entries, and an end mark. Every entry is followed by its own length, written so that it can be
read from the back; only the width of that field matters here, and it follows from the length.
-/

namespace RedisSnapshot.Packed.Listpack

open Decoder Reader

def endMark : UInt8 := 0xFF

def unknownCount : Nat := 65535

/-- The width of the field that repeats the length of an entry behind it. -/
def backLengthWidth (length : Nat) : Nat :=
  if length ≤ 127 then 1
  else if length < 16383 then 2
  else if length < 2097151 then 3
  else if length < 268435455 then 4
  else 5

/-- The value of an entry and the number of bytes that it takes, its first byte included. -/
def sized (first : UInt8) : Decoder (Bytes × Nat) := do
  let value := first.toNat
  if value < 0x80 then
    return (Decimal.bytes value, 1)
  else if value < 0xC0 then
    return (← take (value % 64), 1 + value % 64)
  else if value < 0xE0 then
    return (Decimal.intBytes (Word.signed 13 (256 * (value % 32) + (← byte).toNat)), 2)
  else if value < 0xF0 then
    let length := 256 * (value % 16) + (← byte).toNat
    return (← take length, 2 + length)
  else if value = 0xF0 then
    let length ← little 4
    return (← take length, 5 + length)
  else if value = 0xF1 then
    return (Decimal.intBytes (← signedLittle 2), 3)
  else if value = 0xF2 then
    return (Decimal.intBytes (← signedLittle 3), 4)
  else if value = 0xF3 then
    return (Decimal.intBytes (← signedLittle 4), 5)
  else if value = 0xF4 then
    return (Decimal.intBytes (← signedLittle 8), 9)
  else
    malformed (.listpackEntry first)

/-- An entry with the length behind it, or nothing at the end mark. -/
def entry? : Decoder (Option Bytes) := do
  let first ← byte
  if first = endMark then return none
  let (value, length) ← sized first
  let _ ← take (backLengthWidth length)
  return some value

def entries : Decoder (List Bytes) := do
  let _ ← take 4
  let declared ← little 2
  let found ← collect entry?
  if declared = unknownCount ∨ found.length = declared then return found
  else malformed (.listpackCount declared found.length)

def decode (blob : Bytes) : Except Fault (List Bytes) :=
  readBlob entries blob

def decodePairs (blob : Bytes) : Except Fault (List (Bytes × Bytes)) := do
  pairs (← decode blob)

end RedisSnapshot.Packed.Listpack
