import RedisSnapshot.Proofs.Binary64.Text
import RedisSnapshot.Proofs.Forms.Lzf

/-!
# The forms of a field

A length may stand in a wider form than it needs, an integer in place of its decimal text, and any
string in a compressed form. A decoder yields the same value from each of these forms. Strings are
what memory can hold, so their lengths stay below `2 ^ 63`.
-/

namespace RedisSnapshot

inductive LengthForm : Nat → Bytes → Prop where
  | six {count : Nat} (h : count < 64) : LengthForm count [UInt8.ofNat count]
  | fourteen {count : Nat} (h : count < 16384) :
      LengthForm count [UInt8.ofNat (64 + count / 256), UInt8.ofNat count]
  | word {count : Nat} (h : count < Nat.pow 256 4) : LengthForm count (0x80 :: Word.toBig 4 count)
  | long {count : Nat} (h : count < Nat.pow 256 8) : LengthForm count (0x81 :: Word.toBig 8 count)

/-- The bytes are the two's complement of the integer, least significant first. -/
def IntegerForm (width : Nat) (value : Int) (bytes : Bytes) : Prop :=
  Word.Fits (8 * width) value ∧ bytes = Word.toLittle width (Word.ofInt (8 * width) value)

inductive StringForm : Bytes → Bytes → Prop where
  | plain {value front : Bytes} (hlength : LengthForm value.length front)
      (hheld : value.length < Word.count 63) : StringForm value (front ++ value)
  | byte {value : Int} {bytes : Bytes} (h : IntegerForm 1 value bytes) :
      StringForm (Decimal.intBytes value) (0xC0 :: bytes)
  | short {value : Int} {bytes : Bytes} (h : IntegerForm 2 value bytes) :
      StringForm (Decimal.intBytes value) (0xC1 :: bytes)
  | word {value : Int} {bytes : Bytes} (h : IntegerForm 4 value bytes) :
      StringForm (Decimal.intBytes value) (0xC2 :: bytes)
  | compressed {value packed front back : Bytes} (hpacked : Lzf.Compresses packed value)
      (hfront : LengthForm packed.length front) (hback : LengthForm value.length back)
      (hheldPacked : packed.length < Word.count 63) (hheld : value.length < Word.count 63) :
      StringForm value (0xC3 :: (front ++ (back ++ packed)))

inductive ScoreTextForm : Binary64 → Bytes → Prop where
  | nan : ScoreTextForm (.nan false) [253]
  | infinity : ScoreTextForm (.infinity false) [254]
  | negativeInfinity : ScoreTextForm (.infinity true) [255]
  | text {score : Binary64} {text : Bytes} (hlength : text.length ≤ 252)
      (h : Binary64.TextForm score text) :
      ScoreTextForm score (UInt8.ofNat text.length :: text)

def ScoreBinaryForm (score : Binary64) (bytes : Bytes) : Prop :=
  bytes = Word.toLittle 8 score.bits.toNat

theorem IntegerForm.reads {width : Nat} {value : Int} {bytes : Bytes} (hwidth : 0 < width)
    (h : IntegerForm width value bytes) :
    (Reader.signedLittle width : Decoder Int).Reads value bytes := by
  obtain ⟨hfits, rfl⟩ := h
  exact Reader.Reads.signedLittle hwidth hfits

theorem IntegerForm.length_eq {width : Nat} {value : Int} {bytes : Bytes}
    (h : IntegerForm width value bytes) : bytes.length = width := by
  obtain ⟨_, rfl⟩ := h
  exact Word.toLittle_length width _

namespace Decoder

open Reader

theorem reads_announced {count : Nat} {bytes : Bytes} (h : LengthForm count bytes) :
    announced.Reads (.length count) bytes := by
  cases h with
  | six h =>
      have hfirst : (UInt8.ofNat count).toNat = count := Word.toNat_byte (by omega)
      have hform : count / 64 = 0 := by omega
      have hlow : count % 64 = count := by omega
      apply Reads.byte_bind
      simp only [hfirst, hform, hlow]
      exact Reads.pure _
  | fourteen h =>
      have hfirst : (UInt8.ofNat (64 + count / 256)).toNat = 64 + count / 256 :=
        Word.toNat_byte (by omega)
      have hform : (64 + count / 256) / 64 = 1 := by omega
      have hlow : (64 + count / 256) % 64 = count / 256 := by omega
      have hsecond : (UInt8.ofNat count).toNat = count % 256 := UInt8.toNat_ofNat
      have hcount : 256 * (count / 256) + count % 256 = count := by omega
      apply Reads.byte_bind
      simp only [hfirst, hform, hlow]
      apply Reads.byte_bind
      simp only [hsecond, hcount]
      exact Reads.pure _
  | word h =>
      apply Reads.byte_bind
      exact (Reads.big h).bind_last (Reads.pure _)
  | long h =>
      apply Reads.byte_bind
      exact (Reads.big h).bind_last (Reads.pure _)

theorem reads_announced_literal (kind : Nat) (h : kind < 64) :
    announced.Reads (.literal kind) [UInt8.ofNat (192 + kind)] := by
  have hfirst : (UInt8.ofNat (192 + kind)).toNat = 192 + kind := Word.toNat_byte (by omega)
  have hform : (192 + kind) / 64 = 3 := by omega
  have hlow : (192 + kind) % 64 = kind := by omega
  apply Reads.byte_bind
  simp only [hfirst, hform, hlow]
  exact Reads.pure _

theorem reads_length {count : Nat} {bytes : Bytes} (h : LengthForm count bytes) :
    length.Reads count bytes :=
  (reads_announced h).bind_last (Reads.pure count)

theorem reads_allocate {value : Bytes} (h : value.length < Word.count 63) :
    (allocate value.length).Reads value value := by
  rw [allocate, if_neg (by omega)]
  exact Reads.take rfl

/-- **Strings.** Every form of a string is read as the string. -/
theorem reads_string {value bytes : Bytes} (h : StringForm value bytes) :
    string.Reads value bytes := by
  cases h with
  | plain hlength hheld => exact (reads_announced hlength).bind (reads_allocate hheld)
  | byte h =>
      apply Reads.bind (reads_announced_literal 0 (by decide))
      exact (h.reads (by decide)).bind_last (Reads.pure _)
  | short h =>
      apply Reads.bind (reads_announced_literal 1 (by decide))
      exact (h.reads (by decide)).bind_last (Reads.pure _)
  | word h =>
      apply Reads.bind (reads_announced_literal 2 (by decide))
      exact (h.reads (by decide)).bind_last (Reads.pure _)
  | compressed hpacked hfront hback hheldPacked hheld =>
      apply Reads.bind (reads_announced_literal 3 (by decide))
      apply Reads.bind (reads_length hfront)
      apply Reads.bind (reads_length hback)
      apply Reads.bind_last (reads_allocate hheldPacked)
      exact Reads.ofExcept (hpacked.decompress_eq hheld)

theorem reads_scoreText {score : Binary64} {bytes : Bytes} (h : ScoreTextForm score bytes) :
    scoreText.Reads score bytes := by
  cases h with
  | nan => exact Reads.byte_bind (Reads.pure _)
  | infinity => exact Reads.byte_bind (Reads.pure _)
  | negativeInfinity => exact Reads.byte_bind (Reads.pure _)
  | @text _ text hlength h =>
      have hfirst : (UInt8.ofNat text.length).toNat = text.length := Word.toNat_byte (by omega)
      apply Reads.byte_bind
      rw [hfirst]
      split
      · omega
      · omega
      · omega
      · exact (Reads.take rfl).bind_last (Reads.ofExcept (Binary64.ofText_eq_ok_iff.2 h))

theorem reads_scoreBinary {score : Binary64} {bytes : Bytes} (h : ScoreBinaryForm score bytes) :
    scoreBinary.Reads score bytes := by
  subst h
  have hread := (Reads.take (ε := Fault) (Word.toLittle_length 8 score.bits.toNat)).map
    Binary64.ofBytes
  have hlittle : ∀ bytes : Bytes,
      bytes.foldr (fun byte value => byte.toNat + 256 * value) 0 = Word.little bytes := by
    intro bytes
    induction bytes with
    | nil => rfl
    | cons byte rest ih => rw [List.foldr_cons, ih, Word.little]
  have hscore : Binary64.ofBytes (Word.toLittle 8 score.bits.toNat) = score := by
    rw [Binary64.ofBytes, hlittle, Word.little_toLittle score.bits.toNat_lt, UInt64.ofNat_toNat]
  rwa [hscore] at hread

end Decoder

end RedisSnapshot
