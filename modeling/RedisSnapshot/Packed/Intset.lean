import RedisSnapshot.Decoder

/-!
# Intsets

An intset has the width of its members in bytes, their number, and the members. The number is
compared with what the blob holds before a member is read.
-/

namespace RedisSnapshot.Packed.Intset

open Decoder Reader

def head : Decoder (Nat × Nat) := do
  let width ← little 4
  return (width, ← little 4)

def members (width count : Nat) : Decoder (List Bytes) :=
  times count (Decimal.intBytes <$> signedLittle width)

def decode (blob : Bytes) : Except Fault (List Bytes) := do
  let (width, count) ← readBlob head blob
  let rest := blob.drop 8
  if width ≠ 2 ∧ width ≠ 4 ∧ width ≠ 8 then
    .error (.malformed (.intsetWidth width))
  else if rest.length < count * width then
    .error (.malformed (.intsetMembers count width rest.length))
  else
    readBlob (members width count) rest

end RedisSnapshot.Packed.Intset
