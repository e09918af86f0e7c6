import RedisSnapshot.Error
import RedisSnapshot.Reader

/-!
# Decoders

The readers of a snapshot. They give up on bytes that a snapshot may not have, and on lengths that
nothing can hold. A packed container inside a snapshot is a byte string of its own, where a reader
that is short has found the container truncated.
-/

namespace RedisSnapshot

/-- Why a decoder gives up on bytes that it has. -/
inductive Fault where
  | malformed (cause : Malformed)
  | beyondMemory (length : Nat)
deriving DecidableEq

def Fault.error : Fault → Error
  | malformed cause => .format cause
  | beyondMemory length => .beyondMemory length

abbrev Decoder := Reader Fault

namespace Decoder

def malformed {α : Type} (cause : Malformed) : Decoder α :=
  Reader.fail (.malformed cause)

/-- What a decoder yields at a place in a packed byte string, and the place behind it. -/
def decodeBlob {α : Type} (decoder : Decoder α) (cursor : Cursor) : Except Fault α × Cursor :=
  match decoder.run cursor with
  | .done value cursor => (.ok value, cursor)
  | .short .byte cursor => (.error (.malformed (.blobByte cursor.offset)), cursor)
  | .short (.span count) cursor =>
      (.error (.malformed (.blobSpan count cursor.offset cursor.rest.length)), cursor)
  | .failed fault cursor => (.error fault, cursor)

/-- Reads a packed byte string from its first byte on. Nothing can follow it. -/
def readBlob {α : Type} (decoder : Decoder α) (blob : Bytes) : Except Fault α :=
  (decodeBlob decoder (.start blob)).1

end Decoder

end RedisSnapshot
