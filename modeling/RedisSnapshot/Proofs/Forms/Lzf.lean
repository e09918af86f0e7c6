import RedisSnapshot.Lzf
import RedisSnapshot.Proofs.Forms.Word

/-!
# The language of compressed strings

A token has one form in bytes. What a reference brings is told without saying how it is copied: every
byte of it is the one that stands its distance before, be it a byte of the output so far or one that
the reference itself has brought. Tokens whose bytes are read one after another grow the output by
what they bring, so a string is decompressed from the bytes of any tokens that expand to it.
-/

namespace RedisSnapshot.Lzf

def Token.bytes : Token → Bytes
  | literal run => UInt8.ofNat (run.length - 1) :: run
  | reference distance length =>
      if length ≤ 8 then
        [UInt8.ofNat (32 * (length - 2) + (distance - 1) / 256), UInt8.ofNat (distance - 1)]
      else
        [UInt8.ofNat (32 * 7 + (distance - 1) / 256), UInt8.ofNat (length - 9),
          UInt8.ofNat (distance - 1)]

/-- The token is a legal one behind the output, and brings these bytes. -/
inductive Token.Brings (output : Bytes) : Token → Bytes → Prop where
  | literal {run : Bytes} (hpos : 1 ≤ run.length) (hle : run.length ≤ 32) :
      Brings output (literal run) run
  | reference {distance length : Nat} {copied : Bytes} (hshortest : 3 ≤ length)
      (hlongest : length ≤ 264) (hnearest : 1 ≤ distance) (hfarthest : distance ≤ 8192)
      (hreach : distance ≤ output.length) (hlength : copied.length = length)
      (hcopied : ∀ k < length, (output ++ copied)[output.length + k]? =
        (output ++ copied)[output.length + k - distance]?) :
      Brings output (reference distance length) copied

inductive Expands : Bytes → List Token → Bytes → Prop where
  | nil {output : Bytes} : Expands output [] output
  | cons {output added final : Bytes} {token : Token} {tokens : List Token}
      (head : token.Brings output added) (tail : Expands (output ++ added) tokens final) :
      Expands output (token :: tokens) final

/-- The bytes are those of tokens that expand to the string. -/
def Compresses (encoded value : Bytes) : Prop :=
  ∃ tokens : List Token, Expands [] tokens value ∧ encoded = tokens.flatMap Token.bytes

/-- No token brings nothing. -/
theorem Token.Brings.length_pos {output added : Bytes} {token : Token} (h : token.Brings output added) :
    0 < added.length := by
  cases h with
  | literal hpos _ => exact hpos
  | reference hshortest _ _ _ _ hlength _ => omega

theorem Expands.length_le {output final : Bytes} {tokens : List Token}
    (h : Expands output tokens final) : output.length ≤ final.length := by
  induction h with
  | nil => exact Nat.le_refl _
  | cons _ _ ih =>
      rw [List.length_append] at ih
      omega

theorem Expands.length_lt {output final : Bytes} {token : Token} {tokens : List Token}
    (h : Expands output (token :: tokens) final) : output.length < final.length := by
  cases h with
  | cons head tail =>
      have hgrown := tail.length_le
      have hpos := head.length_pos
      rw [List.length_append] at hgrown
      omega

/-! ### Reading a token -/

theorem readToken_literal {run rest : Bytes} (hpos : 1 ≤ run.length) (hle : run.length ≤ 32) :
    readToken (UInt8.ofNat (run.length - 1)) (run ++ rest) = .ok (.literal run, rest) := by
  have hcontrol : (UInt8.ofNat (run.length - 1)).toNat = run.length - 1 :=
    Word.toNat_byte (by omega)
  have hhigh : (run.length - 1) / 32 = 0 := by omega
  have hcount : run.length - 1 + 1 = run.length := by omega
  unfold readToken
  simp only [hcontrol, hhigh, hcount, ↓reduceIte, List.take_left', List.drop_left']

theorem readToken_reference_short {distance length : Nat} {rest : Bytes} (hshortest : 3 ≤ length)
    (hlongest : length ≤ 8) (hnearest : 1 ≤ distance) (hfarthest : distance ≤ 8192) :
    readToken (UInt8.ofNat (32 * (length - 2) + (distance - 1) / 256))
      (UInt8.ofNat (distance - 1) :: rest) = .ok (.reference distance length, rest) := by
  have hcontrol : (UInt8.ofNat (32 * (length - 2) + (distance - 1) / 256)).toNat =
      32 * (length - 2) + (distance - 1) / 256 := Word.toNat_byte (by omega)
  have hlow : (UInt8.ofNat (distance - 1)).toNat = (distance - 1) % 256 := UInt8.toNat_ofNat
  have hhigh : (32 * (length - 2) + (distance - 1) / 256) / 32 = length - 2 := by omega
  have hpart : (32 * (length - 2) + (distance - 1) / 256) % 32 = (distance - 1) / 256 := by omega
  have hdistance : 256 * ((distance - 1) / 256) + (distance - 1) % 256 + 1 = distance := by omega
  have hlength : length - 2 + 2 = length := by omega
  unfold readToken
  simp only [hcontrol, hlow, hhigh, hpart, hdistance, hlength]
  rw [if_neg (by omega), if_neg (by omega)]

theorem readToken_reference_long {distance length : Nat} {rest : Bytes} (hshortest : 9 ≤ length)
    (hlongest : length ≤ 264) (hnearest : 1 ≤ distance) (hfarthest : distance ≤ 8192) :
    readToken (UInt8.ofNat (32 * 7 + (distance - 1) / 256))
      (UInt8.ofNat (length - 9) :: UInt8.ofNat (distance - 1) :: rest) =
        .ok (.reference distance length, rest) := by
  have hcontrol : (UInt8.ofNat (32 * 7 + (distance - 1) / 256)).toNat =
      32 * 7 + (distance - 1) / 256 := Word.toNat_byte (by omega)
  have hextension : (UInt8.ofNat (length - 9)).toNat = length - 9 :=
    Word.toNat_byte (by omega)
  have hlow : (UInt8.ofNat (distance - 1)).toNat = (distance - 1) % 256 := UInt8.toNat_ofNat
  have hhigh : (32 * 7 + (distance - 1) / 256) / 32 = 7 := by omega
  have hpart : (32 * 7 + (distance - 1) / 256) % 32 = (distance - 1) / 256 := by omega
  have hdistance : 256 * ((distance - 1) / 256) + (distance - 1) % 256 + 1 = distance := by omega
  have hlength : length - 9 + 9 = length := by omega
  unfold readToken
  simp only [hcontrol, hextension, hlow, hhigh, hpart, hdistance, hlength, ↓reduceIte]
  rw [if_neg (by omega)]

theorem Token.Brings.readToken_bytes {output added : Bytes} {token : Token}
    (h : token.Brings output added) :
    ∃ control input, token.bytes = control :: input ∧
      ∀ rest, readToken control (input ++ rest) = .ok (token, rest) := by
  cases h with
  | literal hpos hle => exact ⟨_, _, rfl, fun rest => readToken_literal hpos hle⟩
  | @reference distance length copied hshortest hlongest hnearest hfarthest _ _ _ =>
      by_cases hshort : length ≤ 8
      · refine ⟨_, _, if_pos hshort, fun rest => ?_⟩
        exact readToken_reference_short hshortest hshort hnearest hfarthest
      · refine ⟨_, _, if_neg hshort, fun rest => ?_⟩
        exact readToken_reference_long (by omega) hlongest hnearest hfarthest

/-! ### Growing the output -/

/-- A reference has no choice in what it brings. -/
theorem repeatBack_eq_append {distance length : Nat} {output copied : Bytes} (hnearest : 1 ≤ distance)
    (hreach : distance ≤ output.length) (hlength : copied.length = length)
    (hcopied : ∀ k < length, (output ++ copied)[output.length + k]? =
      (output ++ copied)[output.length + k - distance]?) :
    repeatBack distance length output.toArray = (output ++ copied).toArray := by
  induction length generalizing output copied with
  | zero =>
      rw [List.length_eq_zero_iff.1 hlength, List.append_nil]
      rfl
  | succ length ih =>
      obtain ⟨first, later, rfl⟩ := List.exists_cons_of_length_eq_add_one hlength
      have hfirst : output[output.length - distance]? = some first := by
        have hzero := hcopied 0 (by omega)
        rw [Nat.add_zero, List.getElem?_append_right (Nat.le_refl _), Nat.sub_self,
          List.getElem?_append_left (by omega)] at hzero
        exact hzero.symm
      have hlater : ∀ k < length, (output ++ [first] ++ later)[(output ++ [first]).length + k]? =
          (output ++ [first] ++ later)[(output ++ [first]).length + k - distance]? := by
        intro k hk
        have hnext := hcopied (k + 1) (by omega)
        have hplace : (output ++ [first]).length + k = output.length + (k + 1) := by
          rw [List.length_append, List.length_singleton]
          omega
        rw [hplace, List.append_assoc, List.singleton_append]
        exact hnext
      rw [repeatBack, List.size_toArray, List.getElem?_toArray, hfirst, Option.getD_some,
        List.push_toArray, ih (by rw [List.length_append]; omega) (Nat.succ.inj hlength) hlater,
        List.append_assoc, List.singleton_append]

theorem Token.Brings.append_eq {output added : Bytes} {token : Token} {limit : Nat}
    (h : token.Brings output added) (hlimit : (output ++ added).length ≤ limit) :
    token.append limit output.toArray = .ok (output ++ added).toArray := by
  rw [List.length_append] at hlimit
  cases h with
  | literal hpos hle =>
      rw [Token.append, List.size_toArray, if_pos hlimit]
      simp
  | reference hshortest hlongest hnearest hfarthest hreach hlength hcopied =>
      rw [Token.append, List.size_toArray, if_neg (by omega), if_pos (by omega),
        repeatBack_eq_append hnearest hreach hlength hcopied]

/-- Behind the bytes of tokens, whatever comes is decompressed onto what the tokens expand to. -/
theorem Expands.decompressOnto_append {output final : Bytes} {tokens : List Token} {limit : Nat}
    (h : Expands output tokens final) (hlimit : final.length ≤ limit) (more : Bytes) :
    decompressOnto limit output.toArray (tokens.flatMap Token.bytes ++ more) =
      decompressOnto limit final.toArray more := by
  induction h with
  | nil => rw [List.flatMap_nil, List.nil_append]
  | @cons output added final token tokens head tail ih =>
      obtain ⟨control, input, hbytes, hread⟩ := head.readToken_bytes
      rw [List.flatMap_cons, hbytes, List.cons_append, List.cons_append, List.append_assoc,
        decompressOnto]
      split
      · rename_i cause hfailed
        rw [hread] at hfailed
        cases hfailed
      · rename_i found rest hfound
        rw [hread] at hfound
        cases hfound
        rw [head.append_eq (Nat.le_trans tail.length_le hlimit)]
        exact ih hlimit

theorem Expands.decompressOnto_bytes {output final : Bytes} {tokens : List Token}
    (h : Expands output tokens final) :
    decompressOnto final.length output.toArray (tokens.flatMap Token.bytes) = .ok final.toArray := by
  have hnothing := h.decompressOnto_append (Nat.le_refl _) []
  rw [List.append_nil] at hnothing
  rw [hnothing, decompressOnto, List.size_toArray, if_pos rfl]

/-- **Decompression.** A string comes back from the bytes of any tokens that expand to it. -/
theorem Compresses.decompress_eq {encoded value : Bytes} (h : Compresses encoded value)
    (hlength : value.length < Word.count 63) :
    decompress encoded value.length = .ok value := by
  obtain ⟨tokens, hexpands, rfl⟩ := h
  rw [decompress, if_neg (by omega), hexpands.decompressOnto_bytes]

end RedisSnapshot.Lzf
