import RedisSnapshot.Decoder

/-!
# LZF compressed strings

A compressed string is a sequence of tokens. A literal brings bytes of its own; a reference repeats
bytes of the output, and may reach into what it is itself about to write, so that a short distance
makes a run. A string is compressed together with its length, and its tokens have to produce exactly
so many bytes.
-/

namespace RedisSnapshot.Lzf

inductive Token where
  | literal (bytes : Bytes)
  | reference (distance length : Nat)
deriving DecidableEq

/-- Reads what follows a token's first byte, and gives back the bytes of the later tokens. -/
def readToken (control : UInt8) (input : Bytes) : Except Malformed (Token × Bytes) :=
  let high := control.toNat / 32
  if high = 0 then
    let run := input.take (control.toNat + 1)
    if run.length = control.toNat + 1 then
      .ok (.literal run, input.drop (control.toNat + 1))
    else
      .error .lzfLiteralPastEnd
  else if high = 7 then
    match input with
    | [] => .error .lzfExtension
    | [_] => .error .lzfReference
    | extension :: low :: rest =>
        .ok (.reference (256 * (control.toNat % 32) + low.toNat + 1) (extension.toNat + 9), rest)
  else
    match input with
    | [] => .error .lzfReference
    | low :: rest => .ok (.reference (256 * (control.toNat % 32) + low.toNat + 1) (high + 2), rest)

/-- Repeats the byte that lies a distance behind the end, again and again. -/
def repeatBack (distance : Nat) : Nat → Array UInt8 → Array UInt8
  | 0, output => output
  | count + 1, output =>
      repeatBack distance count (output.push (output[output.size - distance]?.getD 0))

/-- Puts the bytes of a token behind the output so far, which may grow up to a limit. -/
def Token.append (limit : Nat) (output : Array UInt8) : Token → Except Malformed (Array UInt8)
  | literal bytes =>
      if output.size + bytes.length ≤ limit then .ok (output ++ bytes.toArray)
      else .error .lzfBeyondLength
  | reference distance length =>
      if output.size < distance then .error .lzfDistance
      else if output.size + length ≤ limit then .ok (repeatBack distance length output)
      else .error .lzfBeyondLength

theorem readToken_length_le {control : UInt8} {input rest : Bytes} {token : Token}
    (h : readToken control input = .ok (token, rest)) : rest.length ≤ input.length := by
  unfold readToken at h
  dsimp only at h
  split at h
  · split at h <;> cases h
    simp
  · split at h
    · split at h <;> cases h
      simp only [List.length_cons]
      omega
    · split at h <;> cases h
      simp

def decompressOnto (limit : Nat) (output : Array UInt8) : Bytes → Except Malformed (Array UInt8)
  | [] =>
      if output.size = limit then .ok output else .error (.lzfLength output.size limit)
  | control :: input =>
      match _h : readToken control input with
      | .error cause => .error cause
      | .ok (token, rest) =>
          match token.append limit output with
          | .error cause => .error cause
          | .ok output => decompressOnto limit output rest
termination_by input => input.length
decreasing_by
  have := readToken_length_le ‹_›
  simp only [List.length_cons]
  omega

/-- The string of a given length that the input compresses. -/
def decompress (input : Bytes) (length : Nat) : Except Fault Bytes :=
  if Word.count 63 ≤ length then .error (.beyondMemory length)
  else
    match decompressOnto length #[] input with
    | .ok output => .ok output.toList
    | .error cause => .error (.malformed cause)

end RedisSnapshot.Lzf
