import RedisSnapshot.Packed.Listpack
import RedisSnapshot.Proofs.Forms.Field

/-!
# The forms of a listpack

An entry is a string behind its length or an integer in any width that holds it. What repeats the
length of an entry behind it is for readers from the back: any bytes will do, but how many there are
follows from how many the entry has, its first byte included.
-/

namespace RedisSnapshot.Packed.Listpack

open Decoder Reader

inductive ContentForm : Bytes → Bytes → Prop where
  | uint7 {value : Nat} (h : value < 128) :
      ContentForm (Decimal.intBytes value) [UInt8.ofNat value]
  | string6 {element : Bytes} (h : element.length < 64) :
      ContentForm element (UInt8.ofNat (128 + element.length) :: element)
  | int13 {value : Int} (h : Word.Fits 13 value) :
      ContentForm (Decimal.intBytes value)
        [UInt8.ofNat (192 + Word.ofInt 13 value / 256), UInt8.ofNat (Word.ofInt 13 value)]
  | string12 {element : Bytes} (h : element.length < 4096) :
      ContentForm element
        (UInt8.ofNat (224 + element.length / 256) :: UInt8.ofNat element.length :: element)
  | string32 {element : Bytes} (h : element.length < Nat.pow 256 4) :
      ContentForm element (0xF0 :: (Word.toLittle 4 element.length ++ element))
  | int16 {value : Int} {bytes : Bytes} (h : IntegerForm 2 value bytes) :
      ContentForm (Decimal.intBytes value) (0xF1 :: bytes)
  | int24 {value : Int} {bytes : Bytes} (h : IntegerForm 3 value bytes) :
      ContentForm (Decimal.intBytes value) (0xF2 :: bytes)
  | int32 {value : Int} {bytes : Bytes} (h : IntegerForm 4 value bytes) :
      ContentForm (Decimal.intBytes value) (0xF3 :: bytes)
  | int64 {value : Int} {bytes : Bytes} (h : IntegerForm 8 value bytes) :
      ContentForm (Decimal.intBytes value) (0xF4 :: bytes)

inductive EntryForm (element : Bytes) : Bytes → Prop where
  | mk {content back : Bytes} (hcontent : ContentForm element content)
      (hback : back.length = backLengthWidth content.length) : EntryForm element (content ++ back)

inductive Form (elements : List Bytes) : Bytes → Prop where
  | mk {total body more : Bytes} {declared : Nat} (htotal : total.length = 4)
      (hwidth : declared < Nat.pow 256 2)
      (hdeclared : declared = unknownCount ∨ elements.length = declared)
      (hbody : Row EntryForm elements body) :
      Form elements (total ++ (Word.toLittle 2 declared ++ (body ++ [endMark])) ++ more)

theorem ne_endMark {value : Nat} (h : value < 255) : UInt8.ofNat value ≠ endMark := by
  intro hmark
  have hvalue := Word.toNat_byte (Nat.lt_succ_of_lt h)
  rw [hmark] at hvalue
  exact Nat.ne_of_gt h hvalue

theorem reads_sized_string6 {element : Bytes} (h : element.length < 64) :
    (sized (UInt8.ofNat (128 + element.length))).Reads (element, element.length + 1) element := by
  have hfirst : (UInt8.ofNat (128 + element.length)).toNat = 128 + element.length :=
    Word.toNat_byte (by omega)
  have hlength : (128 + element.length) % 64 = element.length := by omega
  unfold sized
  simp only [hfirst, hlength]
  rw [if_neg (by omega), if_pos (by omega), Nat.add_comm element.length]
  exact (Reads.take rfl).bind_last (Reads.pure _)

theorem reads_sized_int13 {value : Int} (h : Word.Fits 13 value) :
    (sized (UInt8.ofNat (192 + Word.ofInt 13 value / 256))).Reads (Decimal.intBytes value, 2)
      [UInt8.ofNat (Word.ofInt 13 value)] := by
  have hlt : Word.ofInt 13 value < 8192 := Word.ofInt_lt 13 value
  have hfirst : (UInt8.ofNat (192 + Word.ofInt 13 value / 256)).toNat =
      192 + Word.ofInt 13 value / 256 := Word.toNat_byte (by omega)
  have hhigh : (192 + Word.ofInt 13 value / 256) % 32 = Word.ofInt 13 value / 256 := by omega
  have hlow : (UInt8.ofNat (Word.ofInt 13 value)).toNat = Word.ofInt 13 value % 256 :=
    UInt8.toNat_ofNat
  have hword : 256 * (Word.ofInt 13 value / 256) + Word.ofInt 13 value % 256 =
      Word.ofInt 13 value := by omega
  unfold sized
  simp only [hfirst, hhigh]
  rw [if_neg (by omega), if_neg (by omega), if_pos (by omega)]
  apply Reads.byte_bind
  rw [hlow, hword, Word.signed_ofInt (by decide) h]
  exact Reads.pure _

theorem reads_sized_string12 {element : Bytes} (h : element.length < 4096) :
    (sized (UInt8.ofNat (224 + element.length / 256))).Reads (element, element.length + 2)
      (UInt8.ofNat element.length :: element) := by
  have hfirst : (UInt8.ofNat (224 + element.length / 256)).toNat = 224 + element.length / 256 :=
    Word.toNat_byte (by omega)
  have hhigh : (224 + element.length / 256) % 16 = element.length / 256 := by omega
  have hlow : (UInt8.ofNat element.length).toNat = element.length % 256 := UInt8.toNat_ofNat
  have hlength : 256 * (element.length / 256) + element.length % 256 = element.length := by omega
  unfold sized
  simp only [hfirst, hhigh]
  rw [if_neg (by omega), if_neg (by omega), if_neg (by omega), if_pos (by omega)]
  apply Reads.byte_bind
  simp only [hlow, hlength]
  rw [Nat.add_comm element.length]
  exact (Reads.take rfl).bind_last (Reads.pure _)

theorem reads_sized_integer {first : UInt8} {width size : Nat} {value : Int} {bytes : Bytes}
    (hsized : sized first = do return (Decimal.intBytes (← signedLittle width), size))
    (hwidth : 0 < width) (h : IntegerForm width value bytes) :
    (sized first).Reads (Decimal.intBytes value, size) bytes := by
  rw [hsized]
  exact (h.reads hwidth).bind_last (Reads.pure _)

/-- Behind its first byte an entry is read together with its length. -/
theorem ContentForm.reads {element content : Bytes} (h : ContentForm element content) :
    ∃ first rest, content = first :: rest ∧ first ≠ endMark ∧
      (sized first).Reads (element, content.length) rest := by
  cases h with
  | @uint7 value h =>
      have hfirst : (UInt8.ofNat value).toNat = value := Word.toNat_byte (by omega)
      refine ⟨_, _, rfl, ne_endMark (by omega), ?_⟩
      unfold sized
      simp only [hfirst]
      rw [if_pos (by omega)]
      exact Reads.pure _
  | string6 h => exact ⟨_, _, rfl, ne_endMark (by omega), reads_sized_string6 h⟩
  | @int13 value h =>
      have hlt : Word.ofInt 13 value < 8192 := Word.ofInt_lt 13 value
      exact ⟨_, _, rfl, ne_endMark (by omega), reads_sized_int13 h⟩
  | string12 h => exact ⟨_, _, rfl, ne_endMark (by omega), reads_sized_string12 h⟩
  | @string32 element h =>
      refine ⟨_, _, rfl, by decide, ?_⟩
      have hsize : (0xF0 :: (Word.toLittle 4 element.length ++ element)).length =
          5 + element.length := by
        rw [List.length_cons, List.length_append, Word.toLittle_length]
        omega
      rw [hsize]
      exact (Reads.little h).bind ((Reads.take rfl).bind_last (Reads.pure _))
  | int16 h =>
      refine ⟨_, _, rfl, by decide, ?_⟩
      rw [List.length_cons, h.length_eq]
      exact reads_sized_integer rfl (by decide) h
  | int24 h =>
      refine ⟨_, _, rfl, by decide, ?_⟩
      rw [List.length_cons, h.length_eq]
      exact reads_sized_integer rfl (by decide) h
  | int32 h =>
      refine ⟨_, _, rfl, by decide, ?_⟩
      rw [List.length_cons, h.length_eq]
      exact reads_sized_integer rfl (by decide) h
  | int64 h =>
      refine ⟨_, _, rfl, by decide, ?_⟩
      rw [List.length_cons, h.length_eq]
      exact reads_sized_integer rfl (by decide) h

theorem EntryForm.reads {element bytes : Bytes} (h : EntryForm element bytes) :
    bytes ≠ [] ∧ entry?.Reads (some element) bytes := by
  obtain ⟨hcontent, hback⟩ := h
  obtain ⟨first, rest, rfl, hmark, hsized⟩ := hcontent.reads
  refine ⟨by simp, ?_⟩
  apply Reads.byte_bind
  rw [if_neg hmark]
  exact hsized.bind ((Reads.take hback).bind_last (Reads.pure (some element)))

theorem reads_endMark : entry?.Reads none [endMark] := by
  apply Reads.byte_bind
  rw [if_pos rfl]
  exact Reads.pure none

/-- **Listpacks.** Every form of a listpack is decoded to its elements. -/
theorem Form.decode_eq {elements : List Bytes} {blob : Bytes} (h : Form elements blob) :
    decode blob = .ok elements := by
  obtain ⟨htotal, hwidth, hdeclared, hbody⟩ := h
  apply readBlob_of_reads
  apply Reads.bind (Reads.take htotal)
  apply Reads.bind (Reads.little hwidth)
  apply Reads.bind_last (Reads.collect (hbody.imp fun _ _ hform => hform.reads) reads_endMark)
  rw [if_pos hdeclared]
  exact Reads.pure elements

end RedisSnapshot.Packed.Listpack
