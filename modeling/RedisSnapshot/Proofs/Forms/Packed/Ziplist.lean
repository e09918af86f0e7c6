import RedisSnapshot.Packed.Ziplist
import RedisSnapshot.Proofs.Forms.Field

/-!
# The forms of a ziplist

What stands in front of an entry and in the first two words of a ziplist is for readers from the
back, so any bytes of the right width will do. The number of entries is told or kept open, and an
entry is a string behind its length or an integer in any width that holds it.
-/

namespace RedisSnapshot.Packed.Ziplist

open Decoder Reader

inductive PreviousForm : Bytes → Prop where
  | near {length : UInt8} (h : length.toNat < 0xFE) : PreviousForm [length]
  | far {length : Bytes} (h : length.length = 4) : PreviousForm (0xFE :: length)

inductive ContentForm : Bytes → Bytes → Prop where
  | string6 {element : Bytes} (h : element.length < 64) :
      ContentForm element (UInt8.ofNat element.length :: element)
  | string14 {element : Bytes} (h : element.length < 16384) :
      ContentForm element
        (UInt8.ofNat (64 + element.length / 256) :: UInt8.ofNat element.length :: element)
  | string32 {element : Bytes} {low : Nat} (hlow : low < 64) (h : element.length < Nat.pow 256 4) :
      ContentForm element (UInt8.ofNat (128 + low) :: (Word.toBig 4 element.length ++ element))
  | int16 {value : Int} {bytes : Bytes} (h : IntegerForm 2 value bytes) :
      ContentForm (Decimal.intBytes value) (0xC0 :: bytes)
  | int32 {value : Int} {bytes : Bytes} (h : IntegerForm 4 value bytes) :
      ContentForm (Decimal.intBytes value) (0xD0 :: bytes)
  | int64 {value : Int} {bytes : Bytes} (h : IntegerForm 8 value bytes) :
      ContentForm (Decimal.intBytes value) (0xE0 :: bytes)
  | int24 {value : Int} {bytes : Bytes} (h : IntegerForm 3 value bytes) :
      ContentForm (Decimal.intBytes value) (0xF0 :: bytes)
  | int8 {value : Int} {bytes : Bytes} (h : IntegerForm 1 value bytes) :
      ContentForm (Decimal.intBytes value) (0xFE :: bytes)
  | immediate {value : Nat} (h : value ≤ 12) :
      ContentForm (Decimal.intBytes value) [UInt8.ofNat (0xF1 + value)]

inductive EntryForm (element : Bytes) : Bytes → Prop where
  | mk {previous content : Bytes} (hprevious : PreviousForm previous)
      (hcontent : ContentForm element content) : EntryForm element (previous ++ content)

inductive Form (elements : List Bytes) : Bytes → Prop where
  | mk {total last body more : Bytes} {declared : Nat} (htotal : total.length = 4)
      (hlast : last.length = 4)
      (hdeclared : declared = unknownCount ∨ declared < unknownCount ∧ elements.length = declared)
      (hbody : Row EntryForm elements body) :
      Form elements
        (total ++ (last ++ (Word.toLittle 2 declared ++ (body ++ [endMark]))) ++ more)

theorem reads_int8 {value : Int} {bytes : Bytes} (h : IntegerForm 1 value bytes) :
    ((fun byte => Word.signed 8 byte.toNat) <$> byte : Decoder Int).Reads value bytes := by
  obtain ⟨hfits, rfl⟩ := h
  have hword : (UInt8.ofNat (Word.ofInt 8 value)).toNat = Word.ofInt 8 value :=
    Word.toNat_byte (Word.ofInt_lt 8 value)
  have hread := (Reads.byte (ε := Fault) (UInt8.ofNat (Word.ofInt 8 value))).map
    fun byte => Word.signed 8 byte.toNat
  rwa [hword, Word.signed_ofInt (by decide) hfits] at hread

theorem integer_immediate {value : Nat} (h : value ≤ 12) :
    integer (UInt8.ofNat (0xF1 + value)) = pure (value : Int) := by
  have hencoding : (UInt8.ofNat (0xF1 + value)).toNat = 0xF1 + value := Word.toNat_byte (by omega)
  have hne : ∀ other : UInt8, other.toNat < 0xF1 ∨ 0xFD < other.toNat →
      UInt8.ofNat (0xF1 + value) ≠ other := by
    rintro other hother rfl
    omega
  have hrange : 0xF1 ≤ UInt8.ofNat (0xF1 + value) ∧ UInt8.ofNat (0xF1 + value) ≤ 0xFD := by
    rw [UInt8.le_iff_toNat_le, UInt8.le_iff_toNat_le, hencoding]
    exact ⟨Nat.le_add_right .., Nat.add_le_add_left h _⟩
  rw [integer, if_neg (hne _ (by decide)), if_neg (hne _ (by decide)), if_neg (hne _ (by decide)),
    if_neg (hne _ (by decide)), if_neg (hne _ (by decide)), if_pos hrange, hencoding]
  congr 1
  omega

theorem reads_entry_string6 {element : Bytes} (h : element.length < 64) :
    entry.Reads element (UInt8.ofNat element.length :: element) := by
  have hfirst : (UInt8.ofNat element.length).toNat = element.length := Word.toNat_byte (by omega)
  have hform : element.length / 64 = 0 := by omega
  have hlow : element.length % 64 = element.length := by omega
  apply Reads.byte_bind
  simp only [hfirst, hform, hlow]
  exact Reads.take rfl

theorem reads_entry_string14 {element : Bytes} (h : element.length < 16384) :
    entry.Reads element
      (UInt8.ofNat (64 + element.length / 256) :: UInt8.ofNat element.length :: element) := by
  have hfirst : (UInt8.ofNat (64 + element.length / 256)).toNat = 64 + element.length / 256 :=
    Word.toNat_byte (by omega)
  have hform : (64 + element.length / 256) / 64 = 1 := by omega
  have hlow : (64 + element.length / 256) % 64 = element.length / 256 := by omega
  have hsecond : (UInt8.ofNat element.length).toNat = element.length % 256 := UInt8.toNat_ofNat
  have hlength : element.length = 256 * (element.length / 256) + element.length % 256 := by omega
  apply Reads.byte_bind
  simp only [hfirst, hform, hlow]
  apply Reads.byte_bind
  rw [hsecond]
  exact Reads.take hlength

theorem reads_entry_string32 {element : Bytes} {low : Nat} (hlow : low < 64)
    (h : element.length < Nat.pow 256 4) :
    entry.Reads element (UInt8.ofNat (128 + low) :: (Word.toBig 4 element.length ++ element)) := by
  have hfirst : (UInt8.ofNat (128 + low)).toNat = 128 + low := Word.toNat_byte (by omega)
  have hform : (128 + low) / 64 = 2 := by omega
  apply Reads.byte_bind
  simp only [hfirst, hform]
  exact (Reads.big h).bind (Reads.take rfl)

theorem reads_entry_integer {encoding : UInt8} {value : Int} {bytes : Bytes}
    (hencoding : 0xC0 ≤ encoding.toNat) (h : (integer encoding).Reads value bytes) :
    entry.Reads (Decimal.intBytes value) (encoding :: bytes) := by
  have hlt := encoding.toNat_lt
  have hform : encoding.toNat / 64 = 3 := by omega
  apply Reads.byte_bind
  simp only [hform]
  exact h.bind_last (Reads.pure _)

theorem ContentForm.reads {element bytes : Bytes} (h : ContentForm element bytes) :
    entry.Reads element bytes := by
  cases h with
  | string6 h => exact reads_entry_string6 h
  | string14 h => exact reads_entry_string14 h
  | string32 hlow h => exact reads_entry_string32 hlow h
  | int16 h => exact reads_entry_integer (by decide) (h.reads (by decide))
  | int32 h => exact reads_entry_integer (by decide) (h.reads (by decide))
  | int64 h => exact reads_entry_integer (by decide) (h.reads (by decide))
  | int24 h => exact reads_entry_integer (by decide) (h.reads (by decide))
  | int8 h => exact reads_entry_integer (by decide) (reads_int8 h)
  | @immediate value h =>
      apply reads_entry_integer
      · rw [Word.toNat_byte (by omega)]
        omega
      · rw [integer_immediate h]
        exact Reads.pure _

theorem EntryForm.reads {element bytes : Bytes} (h : EntryForm element bytes) :
    bytes ≠ [] ∧ entry?.Reads (some element) bytes := by
  obtain ⟨hprevious, hcontent⟩ := h
  have hentry : (entry >>= fun content => pure (some content) : Decoder (Option Bytes)).Reads
      (some element) _ := hcontent.reads.bind_last (Reads.pure (some element))
  cases hprevious with
  | @near length h =>
      have hmark : length ≠ endMark := by
        rintro rfl
        exact absurd h (by decide)
      have hfar : length ≠ 0xFE := by
        rintro rfl
        exact absurd h (by decide)
      refine ⟨by simp, ?_⟩
      apply Reads.byte_bind
      rw [if_neg hmark, if_neg hfar]
      exact hentry
  | far h =>
      refine ⟨by simp, ?_⟩
      apply Reads.byte_bind
      rw [if_neg (by decide), if_pos rfl]
      exact (Reads.take h).bind hentry

theorem reads_endMark : entry?.Reads none [endMark] := by
  apply Reads.byte_bind
  rw [if_pos rfl]
  exact Reads.pure none

/-- A number of entries that is told is counted down, whatever the entries look like. -/
theorem reads_counted {elements : List Bytes} {body : Bytes} (h : Row EntryForm elements body) :
    (iterate (countedStep elements.length) elements.length []).Reads elements.reverse body := by
  have hsteps : Row
      (fun element form => ∀ found : List Bytes,
        (countedStep elements.length found).Reads (element :: found) form)
      elements body :=
    h.imp fun element _ hform found => hform.reads.2.bind_last (Reads.pure (element :: found))
  have hrow := Reads.iterate (fun found element => element :: found) hsteps []
  rwa [List.foldl_flip_cons_eq_append', List.append_nil] at hrow

/-- **Ziplists.** Every form of a ziplist is decoded to its elements. -/
theorem Form.decode_eq {elements : List Bytes} {blob : Bytes} (h : Form elements blob) :
    decode blob = .ok elements := by
  obtain @⟨_, _, _, _, declared, htotal, hlast, hdeclared, hbody⟩ := h
  have hwidth : declared < 65536 := by
    rcases hdeclared with rfl | ⟨hlt, _⟩
    · decide
    · exact Nat.lt_succ_of_lt hlt
  apply readBlob_of_reads
  apply Reads.bind (Reads.take htotal)
  apply Reads.bind (Reads.take hlast)
  apply Reads.bind (Reads.little hwidth)
  rcases hdeclared with rfl | ⟨hlt, rfl⟩
  · rw [if_pos rfl]
    exact Reads.collect (hbody.imp fun _ _ hform => hform.reads) reads_endMark
  · rw [if_neg (Nat.ne_of_lt hlt)]
    apply Reads.bind (reads_counted hbody)
    apply Reads.byte_bind
    rw [if_pos rfl, List.reverse_reverse]
    exact Reads.pure elements

end RedisSnapshot.Packed.Ziplist
