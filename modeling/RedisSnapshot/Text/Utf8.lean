import RedisSnapshot.Bytes

/-!
# Bytes and text

Names and values are bytes; what is shown of them is text. Text is written in UTF-8. Reading it back
never fails: every longest run of bytes that begins a character but does not complete one stands for
a single replacement character, and so does every byte that can begin none.
-/

namespace RedisSnapshot.Text

def bytes (text : String) : Bytes :=
  text.toList.flatMap String.utf8EncodeChar

/-- What the first byte of a character asks of the bytes after it: how many there are, the range
that the first of them lies in, and the bits that the first byte itself contributes. -/
structure Lead where
  following : Nat
  low : Nat
  high : Nat
  bits : Nat

def lead? (byte : UInt8) : Option Lead :=
  let value := byte.toNat
  if value < 0x80 then some ⟨0, 0x80, 0xBF, value⟩
  else if value < 0xC2 then none
  else if value < 0xE0 then some ⟨1, 0x80, 0xBF, value % 0x20⟩
  else if value < 0xF0 then
    some ⟨2, if value = 0xE0 then 0xA0 else 0x80, if value = 0xED then 0x9F else 0xBF, value % 0x10⟩
  else if value < 0xF5 then
    some ⟨3, if value = 0xF0 then 0x90 else 0x80, if value = 0xF4 then 0x8F else 0xBF, value % 0x08⟩
  else none

/-- Reads the bytes that follow a first byte, and gives back those it did not use. -/
def follow : (following low high value : Nat) → Bytes → Option Nat × Bytes
  | 0, _, _, value, rest => (some value, rest)
  | _ + 1, _, _, _, [] => (none, [])
  | following + 1, low, high, value, byte :: rest =>
      if low ≤ byte.toNat ∧ byte.toNat ≤ high then
        follow following 0x80 0xBF (64 * value + byte.toNat % 64) rest
      else
        (none, byte :: rest)

theorem follow_length_le (following low high value : Nat) (rest : Bytes) :
    (follow following low high value rest).2.length ≤ rest.length := by
  induction rest generalizing following low high value with
  | nil => cases following <;> simp [follow]
  | cons byte rest ih =>
      cases following with
      | zero => simp [follow]
      | succ following =>
          simp only [follow]
          split
          · exact Nat.le_succ_of_le (ih ..)
          · simp

/-- The characters of a byte string in front of those already read, which stand in reverse; nothing
stands for bytes that form no character. -/
def decodeOnto (read : List (Option Char)) : Bytes → List (Option Char)
  | [] => read.reverse
  | byte :: rest =>
      match lead? byte with
      | none => decodeOnto (none :: read) rest
      | some lead =>
          let next := follow lead.following lead.low lead.high lead.bits rest
          decodeOnto (next.1.map Char.ofNat :: read) next.2
termination_by input => input.length
decreasing_by
  · simp
  · have := follow_length_le lead.following lead.low lead.high lead.bits rest
    simp only [List.length_cons]
    omega

def decode (input : Bytes) : List (Option Char) :=
  decodeOnto [] input

/-- The text of a byte string, with a replacement character wherever the bytes form none. -/
def lossy (input : Bytes) : String :=
  String.ofList ((decode input).map fun char => char.getD '\uFFFD')

/-- The characters of a byte string that is UTF-8 throughout. -/
def strict? (input : Bytes) : Option (List Char) :=
  (decode input).mapM id

end RedisSnapshot.Text
