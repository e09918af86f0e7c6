import RedisSnapshot.Binary64.Reading
import RedisSnapshot.Lzf
import RedisSnapshot.Text.Blank

/-!
# The fields of a snapshot

Nearly everything in a snapshot stands behind a length. The two high bits of its first byte say how
wide it is, or that no length stands here but a literal: a small integer in place of its decimal
text, or a compressed string. Scores have fields of their own, one in text and one in binary.
-/

namespace RedisSnapshot

/-- What the first byte of a field announces. -/
inductive Announced where
  | length (count : Nat)
  | literal (kind : Nat)
deriving DecidableEq

namespace Decoder

open Reader

def announced : Decoder Announced := do
  let first ← byte
  let low := first.toNat % 64
  match first.toNat / 64 with
  | 0 => return .length low
  | 1 => return .length (256 * low + (← byte).toNat)
  | 2 =>
      if first = 0x80 then return .length (← big 4)
      else if first = 0x81 then return .length (← big 8)
      else malformed (.lengthForm first ((← offset) - 1))
  | _ => return .literal low

def length : Decoder Nat := do
  match ← announced with
  | .length count => return count
  | .literal _ => malformed (.literalForLength ((← offset) - 1))

/-- So many bytes, if they can be held at all. -/
def allocate (count : Nat) : Decoder Bytes :=
  if Word.count 63 ≤ count then fail (.beyondMemory count) else take count

def string : Decoder Bytes := do
  match ← announced with
  | .length count => allocate count
  | .literal 0 => return Decimal.intBytes (← signedLittle 1)
  | .literal 1 => return Decimal.intBytes (← signedLittle 2)
  | .literal 2 => return Decimal.intBytes (← signedLittle 4)
  | .literal 3 =>
      let compressed ← length
      let full ← length
      ofExcept (Lzf.decompress (← allocate compressed) full)
  | .literal kind => malformed (.literalKind kind (← offset))

end Decoder

/-- A score in decimal text, blanks around it aside. -/
def Binary64.ofText (text : Bytes) : Except Fault Binary64 :=
  match Text.strict? text with
  | none => .error (.malformed .scoreEncoding)
  | some chars =>
      match read? (Text.trim chars) with
      | some score => .ok score
      | none => .error (.malformed (.scoreText (String.ofList chars)))

namespace Decoder

open Reader

/-- A score in text has a length byte, three values of which are scores themselves. -/
def scoreText : Decoder Binary64 := do
  match (← byte).toNat with
  | 253 => return .nan false
  | 254 => return .infinity false
  | 255 => return .infinity true
  | count => ofExcept (Binary64.ofText (← take count))

def scoreBinary : Decoder Binary64 :=
  Binary64.ofBytes <$> take 8

end Decoder

end RedisSnapshot
