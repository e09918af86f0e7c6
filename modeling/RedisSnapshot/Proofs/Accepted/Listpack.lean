import RedisSnapshot.Proofs.Accepted.Found
import RedisSnapshot.Proofs.Forms.Packed.Listpack
import RedisSnapshot.Proofs.Modest

/-!
# What is read as a listpack

Nothing is read as a listpack but its forms. The field behind an entry is stepped over unread, and
the next entry is found only if the entry in front of the field was measured rightly, by its first
byte and all that belongs to it.
-/

namespace RedisSnapshot.Packed.Listpack

open Decoder Reader

section Entries

variable {cursor after : Cursor} {first : UInt8} {element : Bytes} {found : Bytes × Nat}

/-- What stands between the two places makes an entry together with its first byte, and the length
of all of it is this. -/
def Completes (first : UInt8) (cursor after : Cursor) (found : Bytes × Nat) : Prop :=
  ∃ rest, ContentForm found.1 (first :: rest) ∧ found.2 = (first :: rest).length ∧
    cursor.rest = rest ++ after.rest

theorem completes_of_string6 (hlow : 0x80 ≤ first.toNat) (hhigh : first.toNat < 0xC0)
    (h : (do return (← take (first.toNat % 64), 1 + first.toNat % 64) : Decoder (Bytes × Nat)).run
      cursor = .done found after) : Completes first cursor after found := by
  obtain ⟨element, middle, helement, hresult⟩ := done_of_bind h
  cases hresult
  obtain ⟨hlength, hrest⟩ := done_of_take helement
  have hbyte : first = UInt8.ofNat (128 + element.length) := Word.byte_eq (by omega)
  have hcontent : ContentForm element _ := .string6 (by omega)
  rw [← hbyte] at hcontent
  exact ⟨element, hcontent, by rw [List.length_cons]; omega, hrest⟩

theorem completes_of_int13 (hlow : 0xC0 ≤ first.toNat) (hhigh : first.toNat < 0xE0)
    (h : (do
      return (Decimal.intBytes (Word.signed 13 (256 * (first.toNat % 32) + (← byte).toNat)), 2) :
        Decoder (Bytes × Nat)).run cursor = .done found after) :
    Completes first cursor after found := by
  obtain ⟨second, middle, hsecond, hresult⟩ := done_of_bind h
  cases hresult
  have hlt := second.toNat_lt
  have hword : 256 * (first.toNat % 32) + second.toNat < Word.count 13 := by
    change _ < 8192
    omega
  obtain ⟨hfits, hsame⟩ := Word.ofInt_signed (by decide) hword
  have hcontent := ContentForm.int13 hfits
  have hbyte : first = UInt8.ofNat (192 + (256 * (first.toNat % 32) + second.toNat) / 256) :=
    Word.byte_eq (by omega)
  have hlast : second = UInt8.ofNat (256 * (first.toNat % 32) + second.toNat) :=
    Word.byte_eq (by omega)
  rw [hsame, ← hbyte, ← hlast] at hcontent
  exact ⟨[second], hcontent, rfl, done_of_byte hsecond⟩

theorem completes_of_string12 (hlow : 0xE0 ≤ first.toNat) (hhigh : first.toNat < 0xF0)
    (h : (do
      let length := 256 * (first.toNat % 16) + (← byte).toNat
      return (← take length, 2 + length) : Decoder (Bytes × Nat)).run cursor = .done found after) :
    Completes first cursor after found := by
  obtain ⟨second, middle, hsecond, h⟩ := done_of_bind h
  obtain ⟨element, last, helement, hresult⟩ := done_of_bind h
  cases hresult
  obtain ⟨hlength, hrest⟩ := done_of_take helement
  have hlt := second.toNat_lt
  have hbyte : first = UInt8.ofNat (224 + element.length / 256) := Word.byte_eq (by omega)
  have hlast : second = UInt8.ofNat element.length := Word.byte_eq (by omega)
  have hcontent : ContentForm element _ := .string12 (by omega)
  rw [← hbyte, ← hlast] at hcontent
  refine ⟨second :: element, hcontent, ?_, ?_⟩
  · rw [List.length_cons, List.length_cons]
    omega
  · rw [done_of_byte hsecond, hrest]
    rfl

theorem completes_of_string32 (hfirst : first.toNat = 0xF0)
    (h : (do
      let length ← little 4
      return (← take length, 5 + length) : Decoder (Bytes × Nat)).run cursor = .done found after) :
    Completes first cursor after found := by
  obtain ⟨length, middle, hcount, h⟩ := done_of_bind h
  obtain ⟨element, last, helement, hresult⟩ := done_of_bind h
  cases hresult
  obtain ⟨hsmall, hword⟩ := done_of_little hcount
  obtain ⟨rfl, hrest⟩ := done_of_take helement
  have hbyte : first = 0xF0 := UInt8.toNat_inj.1 hfirst
  refine ⟨Word.toLittle 4 element.length ++ element, hbyte ▸ .string32 hsmall, ?_, ?_⟩
  · rw [List.length_cons, List.length_append, Word.toLittle_length]
    omega
  · rw [hword, hrest, List.append_assoc]

theorem completes_of_integer {width size : Nat} {encoding : UInt8} (hwidth : 0 < width)
    (hform : ∀ {value bytes}, IntegerForm width value bytes →
      ContentForm (Decimal.intBytes value) (encoding :: bytes)) (hsize : size = width + 1)
    (hfirst : first.toNat = encoding.toNat)
    (h : (do return (Decimal.intBytes (← signedLittle width), size) : Decoder (Bytes × Nat)).run
      cursor = .done found after) : Completes first cursor after found := by
  obtain ⟨value, middle, hvalue, hresult⟩ := done_of_bind h
  cases hresult
  obtain ⟨bytes, hbytes, hrest⟩ := done_of_signedLittle hwidth hvalue
  cases UInt8.toNat_inj.1 hfirst
  exact ⟨bytes, hform hbytes, by rw [hsize, List.length_cons, hbytes.length_eq], hrest⟩

theorem completes_of_sized (h : (sized first).run cursor = .done found after) :
    Completes first cursor after found := by
  unfold sized at h
  dsimp only at h
  split at h
  · rename_i hsmall
    cases h
    have hcontent : ContentForm (Decimal.intBytes first.toNat) _ := .uint7 (by omega)
    rw [UInt8.ofNat_toNat] at hcontent
    exact ⟨[], hcontent, rfl, rfl⟩
  split at h
  · exact completes_of_string6 (by omega) (by omega) h
  split at h
  · exact completes_of_int13 (by omega) (by omega) h
  split at h
  · exact completes_of_string12 (by omega) (by omega) h
  split at h
  · exact completes_of_string32 (by omega) h
  split at h
  · exact completes_of_integer (by decide) .int16 rfl ‹_› h
  split at h
  · exact completes_of_integer (by decide) .int24 rfl ‹_› h
  split at h
  · exact completes_of_integer (by decide) .int32 rfl ‹_› h
  split at h
  · exact completes_of_integer (by decide) .int64 rfl ‹_› h
  · cases h

theorem entryForm_of_done (h : entry?.run cursor = .done (some element) after) :
    ∃ bytes, EntryForm element bytes ∧ cursor.rest = bytes ++ after.rest := by
  obtain ⟨first, second, hfirst, h⟩ := done_of_bind h
  rw [done_of_byte hfirst]
  split at h
  · cases h
  · obtain ⟨⟨found, size⟩, third, hsized, h⟩ := done_of_bind h
    obtain ⟨back, fourth, hback, hresult⟩ := done_of_bind h
    cases hresult
    obtain ⟨rest, hcontent, rfl, hrest⟩ := completes_of_sized hsized
    obtain ⟨hwidth, hbackRest⟩ := done_of_take hback
    refine ⟨_, .mk hcontent hwidth, ?_⟩
    rw [hrest, hbackRest, List.append_assoc, List.cons_append]

theorem endMark_of_done (h : entry?.run cursor = .done none after) :
    cursor.rest = [endMark] ++ after.rest := by
  obtain ⟨first, second, hfirst, h⟩ := done_of_bind h
  rw [done_of_byte hfirst]
  split at h
  · rename_i hmark
    cases h
    rw [hmark]
    rfl
  · obtain ⟨_, _, _, h⟩ := done_of_bind h
    obtain ⟨_, _, _, h⟩ := done_of_bind h
    cases h

/-- A row of entries that is read up to the end mark. -/
theorem row_of_collect {elements : List Bytes}
    (h : (collect entry?).run cursor = .done elements after) :
    ∃ body, Row EntryForm elements body ∧ cursor.rest = body ++ ([endMark] ++ after.rest) := by
  refine done_of_collect (fun hrun => ?_) endMark_of_done h
  obtain ⟨bytes, hform, hrest⟩ := entryForm_of_done hrun
  exact ⟨bytes, hform.reads.1, hform, hrest⟩

end Entries

/-- What is read is a form of what it is read as. -/
theorem form_of_decode {blob : Bytes} {elements : List Bytes} (h : decode blob = .ok elements) :
    Form elements blob := by
  obtain ⟨after, h⟩ := done_of_readBlob h
  obtain ⟨total, second, htotal, h⟩ := done_of_bind h
  obtain ⟨declared, third, hdeclared, h⟩ := done_of_bind h
  obtain ⟨found, fourth, hfound, h⟩ := done_of_bind h
  obtain ⟨hlength, htotalRest⟩ := done_of_take htotal
  obtain ⟨hwidth, hdeclaredRest⟩ := done_of_little hdeclared
  split at h
  · rename_i hcount
    cases h
    obtain ⟨body, hbody, hrest⟩ := row_of_collect hfound
    have hblob : blob =
        total ++ (Word.toLittle 2 declared ++ (body ++ [endMark])) ++ after.rest := by
      change blob = _ at htotalRest
      rw [htotalRest, hdeclaredRest, hrest]
      simp only [List.append_assoc]
    rw [hblob]
    exact .mk hlength hwidth hcount hbody
  · cases h

theorem decode_eq_ok_iff {blob : Bytes} {elements : List Bytes} :
    decode blob = .ok elements ↔ Form elements blob :=
  ⟨form_of_decode, Form.decode_eq⟩

/-- How wide the field behind an entry is, in view of the length of the entry. It has seven bits in
each byte, and the greatest length that fits already has the next width, except for a single byte. -/
inductive BackLength (size : Nat) : Nat → Prop where
  | one (h : size ≤ 127) : BackLength size 1
  | two (h : 128 ≤ size) (hlast : size ≤ 16382) : BackLength size 2
  | three (h : 16383 ≤ size) (hlast : size ≤ 2097150) : BackLength size 3
  | four (h : 2097151 ≤ size) (hlast : size ≤ 268435454) : BackLength size 4
  | five (h : 268435455 ≤ size) : BackLength size 5

theorem backLengthWidth_eq_iff {size width : Nat} :
    backLengthWidth size = width ↔ BackLength size width := by
  unfold backLengthWidth
  constructor
  · rintro rfl
    split
    · exact .one ‹_›
    split
    · exact .two (by omega) (by omega)
    split
    · exact .three (by omega) (by omega)
    split
    · exact .four (by omega) (by omega)
    · exact .five (by omega)
  · intro h
    cases h with
    | one h => rw [if_pos h]
    | two h hlast => rw [if_neg (by omega), if_pos (by omega)]
    | three h hlast => rw [if_neg (by omega), if_neg (by omega), if_pos (by omega)]
    | four h hlast =>
        rw [if_neg (by omega), if_neg (by omega), if_neg (by omega), if_pos (by omega)]
    | five h => rw [if_neg (by omega), if_neg (by omega), if_neg (by omega), if_neg (by omega)]

/-- **Exactly the listpacks.** What is read as entries is a form of a listpack with these entries, and
everything else is malformed; the fields behind the entries have the widths that they must have. -/
theorem listpack_exact :
    (∀ blob elements, decode blob = .ok elements ↔ Form elements blob) ∧
    (∀ blob, (¬ ∃ elements, Form elements blob) ↔
      ∃ cause, decode blob = .error (.malformed cause)) ∧
    ∀ size width, backLengthWidth size = width ↔ BackLength size width := by
  refine ⟨fun _ _ => decode_eq_ok_iff, ?_, fun _ _ => backLengthWidth_eq_iff⟩
  intro blob
  rw [← (held_decode blob).malformed_iff]
  simp only [decode_eq_ok_iff]

end RedisSnapshot.Packed.Listpack
