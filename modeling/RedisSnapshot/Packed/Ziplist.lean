import RedisSnapshot.Packed.Pairs

/-!
# Ziplists

A ziplist has two words that only matter to a reader from the back, the number of its entries, the
entries, and an end mark. Every entry stands behind the length of the one before it, which is
skipped, and is a string or an integer. A number of entries that does not fit its field is not
known, and the end mark alone says where they end.
-/

namespace RedisSnapshot.Packed.Ziplist

open Decoder Reader

def endMark : UInt8 := 0xFF

def unknownCount : Nat := 65535

def integer (encoding : UInt8) : Decoder Int :=
  if encoding = 0xC0 then signedLittle 2
  else if encoding = 0xD0 then signedLittle 4
  else if encoding = 0xE0 then signedLittle 8
  else if encoding = 0xF0 then signedLittle 3
  else if encoding = 0xFE then (fun value => Word.signed 8 value.toNat) <$> byte
  else if 0xF1 ≤ encoding ∧ encoding ≤ 0xFD then return (encoding.toNat : Int) - 0xF1
  else malformed (.ziplistEntry encoding)

def entry : Decoder Bytes := do
  let encoding ← byte
  let low := encoding.toNat % 64
  match encoding.toNat / 64 with
  | 0 => take low
  | 1 => take (256 * low + (← byte).toNat)
  | 2 => take (← big 4)
  | _ => return Decimal.intBytes (← integer encoding)

/-- An entry behind the length of the one before it, or nothing at the end mark. -/
def entry? : Decoder (Option Bytes) := do
  let previous ← byte
  if previous = endMark then return none
  if previous = 0xFE then
    let _ ← take 4
  return some (← entry)

def countedStep (declared : Nat) (found : List Bytes) : Decoder (List Bytes) := do
  match ← entry? with
  | some next => return next :: found
  | none => malformed (.ziplistEnded found.length declared)

def entries : Decoder (List Bytes) := do
  let _ ← take 4
  let _ ← take 4
  let declared ← little 2
  if declared = unknownCount then
    return ← collect entry?
  let found ← iterate (countedStep declared) declared []
  let mark ← byte
  if mark = endMark then return found.reverse else malformed (.ziplistEndMark mark)

def decode (blob : Bytes) : Except Fault (List Bytes) :=
  readBlob entries blob

def decodePairs (blob : Bytes) : Except Fault (List (Bytes × Bytes)) := do
  pairs (← decode blob)

end RedisSnapshot.Packed.Ziplist
