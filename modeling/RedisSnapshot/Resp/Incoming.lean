import RedisSnapshot.Decoder
import RedisSnapshot.Resp.Command

/-!
# Replies as they arrive

Replies arrive in pieces. A reply is read from the front of what has arrived; where that does not
suffice there is none yet, and reading starts over once more has come. Reading is a reader like
those of a snapshot, so what it settles on does not depend on how the bytes were cut.
-/

namespace RedisSnapshot.Reply

open Reader

/-- Adds a digit to the magnitude read so far, which has to stay within 63 bits. Nothing stands for
the magnitude of no digits. -/
def digitStep (magnitude : Option Nat) : Reader ProtocolFault (Option Nat × Bool) := do
  match Decimal.digit? (← peek) with
  | none => return (magnitude, false)
  | some digit =>
      let next := 10 * magnitude.getD 0 + digit
      if Word.count 63 ≤ next then fail .overflow
      else
        let _ ← byte
        return (some next, true)

def integerLine : Reader ProtocolFault Int := do
  let negative := (← peek) = 45
  if negative then
    let _ ← byte
  let magnitude ← untilDone digitStep none
  if (← take 2) = Resp.lineEnd then
    match magnitude with
    | none => fail .digits
    | some magnitude => return if negative then -magnitude else magnitude
  else
    fail .lineEnd

/-- The bytes of a bulk string and the line end behind them. -/
def bulkBody (length : Nat) : Reader ProtocolFault Reply := do
  let payload ← take length
  if (← take 2) = Resp.lineEnd then return .bulk payload else fail .bulkEnd

/-- The rest of a reply behind its first byte, where a reader of its items is at hand. -/
def body (item : Reader ProtocolFault Reply) (mark : UInt8) : Reader ProtocolFault Reply :=
  match mark with
  | 43 => .simple <$> line
  | 45 => .error <$> line
  | 58 => .integer <$> integerLine
  | 36 => do
      let length ← integerLine
      if length < 0 then return .nullBulk else bulkBody length.toNat
  | 42 => do
      let count ← integerLine
      if count < 0 then return .nullArray else .array <$> times count.toNat item
  | mark => fail (.replyType mark)

def readerWithin : Bytes → Reader ProtocolFault Reply
  | [] => never
  | _ :: bound => do body (readerWithin bound) (← byte)

theorem body_refines {item₁ item₂ : Reader ProtocolFault Reply} (h : item₁.Refines item₂)
    (mark : UInt8) : (body item₁ mark).Refines (body item₂ mark) := by
  unfold body
  split
  all_goals try exact .refl _
  refine .bind (.refl _) fun count => ?_
  split
  · exact .refl _
  · exact .map _ (h.times _)

theorem readerWithin_refines (bound more : Bytes) :
    (readerWithin bound).Refines (readerWithin (bound ++ more)) := by
  induction bound with
  | nil => exact fun _ h => nomatch h
  | cons _ bound ih => exact .bind (.refl _) (body_refines ih)

/-- Reads a reply. The bytes of a reply bound the depth of its arrays. -/
def reader : Reader ProtocolFault Reply :=
  limit readerWithin readerWithin_refines

theorem length_lt_of_run {cursor after : Cursor} {reply : Reply}
    (h : reader.run cursor = .done reply after) : after.rest.length < cursor.rest.length := by
  change (readerWithin cursor.rest).run cursor = _ at h
  match hrest : cursor.rest, h with
  | [], h => cases h
  | _ :: _, h => exact hrest ▸ length_lt_of_byte_bind h

/-- The reply at the front of what has arrived and the bytes behind it, if it is all there. -/
def parse (input : Bytes) : Except ProtocolFault (Option (Reply × Bytes)) :=
  match reader.run (.start input) with
  | .done reply cursor => .ok (some (reply, cursor.rest))
  | .short .. => .ok none
  | .failed fault _ => .error fault

/-- All replies that are there, the bytes behind them, and what is wrong with those, if anything. -/
structure Arrived where
  replies : List Reply
  rest : Bytes
  fault : Option ProtocolFault

/-- Takes replies off the front, behind others that stand in reverse. -/
def parseAllOnto (found : List Reply) (input : Bytes) : Arrived :=
  match _h : reader.run (.start input) with
  | .done reply cursor => parseAllOnto (reply :: found) cursor.rest
  | .short .. => ⟨found.reverse, input, none⟩
  | .failed fault _ => ⟨found.reverse, input, some fault⟩
termination_by input.length
decreasing_by exact length_lt_of_run _h

def parseAll (input : Bytes) : Arrived :=
  parseAllOnto [] input

end RedisSnapshot.Reply
