import RedisSnapshot.Decoder

/-!
# Streams of bytes

A stream is the bytes that it will deliver and what a further read meets behind them: nothing more,
or a failure. It may hand its bytes over in portions of any size. Taking a value off a stream needs
only the bytes; what is behind them decides the error when they do not suffice.
-/

namespace RedisSnapshot

structure Source where
  input : Bytes
  /-- What a read behind the bytes fails with, if it does not just find the end. -/
  failure : Option IoFailure
  /-- The most bytes that a single read delivers; nothing for any number. -/
  portion : Option Nat

namespace Source

def ofBytes (input : Bytes) : Source :=
  ⟨input, none, none⟩

/-- The error of a decoder that has found too few bytes at an offset. Every way in which a stream
can end early is told as the offset where it did. -/
def shortage (source : Source) (offset : Nat) : Error :=
  match source.failure with
  | none => .io (.streamEnded offset)
  | some failure =>
      if failure.kind = .unexpectedEnd then .io (.streamEnded offset) else .io failure

def decode {α : Type} (source : Source) (decoder : Decoder α) (cursor : Cursor) :
    Except Error α × Cursor :=
  match decoder.run cursor with
  | .done value cursor => (.ok value, cursor)
  | .short _ cursor => (.error (source.shortage cursor.offset), cursor)
  | .failed fault cursor => (.error fault.error, cursor)

def start (source : Source) : Cursor :=
  .start source.input

def read (source : Source) (size : Nat) : Except IoFailure Bytes × Source :=
  let most := min size (source.portion.getD size)
  if source.input.isEmpty && size != 0 then
    match source.failure with
    | none => (.ok [], source)
    | some failure => (.error failure, source)
  else
    (.ok (source.input.take most), { source with input := source.input.drop most })

end Source

/-- One read into a buffer of the given size, from anything that can be read. So many bytes of it
are left up to a limit. If it ends before the limit, that is a failure. -/
def readWithin {σ : Type} (read : Nat → σ → Except IoFailure Bytes × σ) (size : Nat) :
    σ × Nat → Except IoFailure Bytes × (σ × Nat)
  | (source, remaining) =>
      if remaining = 0 ∨ size = 0 then (.ok [], (source, remaining))
      else
        match read (min size remaining) source with
        | (.ok [], source) => (.error (.payloadEnded remaining), (source, remaining))
        | (.ok found, source) => (.ok found, (source, remaining - found.length))
        | (.error failure, source) => (.error failure, (source, remaining))

/-- A stream that is read up to a limit and not a byte further. -/
structure Payload where
  source : Source
  remaining : Nat

namespace Payload

/-- One read into a buffer of the given size. -/
def read (payload : Payload) (size : Nat) : Except IoFailure Bytes × Payload :=
  let (result, source, remaining) :=
    readWithin (fun size source => source.read size) size (payload.source, payload.remaining)
  (result, ⟨source, remaining⟩)

/-- Everything up to the limit, or up to a failure. -/
def readToEnd (payload : Payload) : Bytes × Option IoFailure × Payload :=
  let found := payload.source.input.take payload.remaining
  let after : Payload :=
    ⟨{ payload.source with input := payload.source.input.drop payload.remaining },
      payload.remaining - found.length⟩
  let failure :=
    if after.remaining = 0 then none
    else some (payload.source.failure.getD (.payloadEnded after.remaining))
  (found, failure, after)

def toSource (payload : Payload) : Source :=
  let (found, failure, _) := payload.readToEnd
  ⟨found, failure, payload.source.portion⟩

end Payload

end RedisSnapshot
