import RedisSnapshot.Proofs.Accepted.Found
import RedisSnapshot.Proofs.Forms.Packed.Ziplist
import RedisSnapshot.Proofs.Modest

/-!
# What is read as a ziplist

Nothing is read as a ziplist but its forms. A ziplist that keeps the number of its entries open is
read up to the end mark, and one that tells the number is read for as many entries, behind which the
end mark has to stand; so the same entries are read in both ways, provided that the number is right.
-/

namespace RedisSnapshot.Packed.Ziplist

open Decoder Reader

section Entries

variable {cursor after : Cursor} {element : Bytes}

theorem integerForm_byte (byte : UInt8) : IntegerForm 1 (Word.signed 8 byte.toNat) [byte] := by
  have hlt : byte.toNat < Word.count 8 := byte.toNat_lt
  obtain ⟨hfits, hword⟩ := Word.ofInt_signed (by decide) hlt
  refine ⟨hfits, ?_⟩
  rw [hword, Word.toLittle, Word.toLittle, UInt8.ofNat_toNat]

theorem contentForm_of_integer {encoding : UInt8} {value : Int}
    (h : (integer encoding).run cursor = .done value after) :
    ∃ bytes, ContentForm (Decimal.intBytes value) (encoding :: bytes) ∧
      cursor.rest = bytes ++ after.rest := by
  unfold integer at h
  split at h
  · rename_i hencoding
    obtain ⟨bytes, hform, hrest⟩ := done_of_signedLittle (by decide) h
    exact ⟨bytes, hencoding ▸ .int16 hform, hrest⟩
  split at h
  · rename_i hencoding
    obtain ⟨bytes, hform, hrest⟩ := done_of_signedLittle (by decide) h
    exact ⟨bytes, hencoding ▸ .int32 hform, hrest⟩
  split at h
  · rename_i hencoding
    obtain ⟨bytes, hform, hrest⟩ := done_of_signedLittle (by decide) h
    exact ⟨bytes, hencoding ▸ .int64 hform, hrest⟩
  split at h
  · rename_i hencoding
    obtain ⟨bytes, hform, hrest⟩ := done_of_signedLittle (by decide) h
    exact ⟨bytes, hencoding ▸ .int24 hform, hrest⟩
  split at h
  · rename_i hencoding
    obtain ⟨byte, middle, hbyte, hvalue⟩ := done_of_bind h
    cases hvalue
    exact ⟨[byte], hencoding ▸ .int8 (integerForm_byte byte), done_of_byte hbyte⟩
  split at h
  · rename_i hrange
    cases h
    rw [UInt8.le_iff_toNat_le, UInt8.le_iff_toNat_le] at hrange
    obtain ⟨hlow, hhigh⟩ : 0xF1 ≤ encoding.toNat ∧ encoding.toNat ≤ 0xFD := hrange
    obtain ⟨value, hvalue⟩ := Nat.exists_eq_add_of_le hlow
    have hbyte : encoding = UInt8.ofNat (0xF1 + value) := by rw [← hvalue, UInt8.ofNat_toNat]
    have hinteger : (encoding.toNat : Int) - 0xF1 = value := by omega
    rw [hinteger, hbyte]
    exact ⟨[], .immediate (by omega), rfl⟩
  · cases h

theorem contentForm_of_done (h : entry.run cursor = .done element after) :
    ∃ content, ContentForm element content ∧ cursor.rest = content ++ after.rest := by
  obtain ⟨encoding, middle, hencoding, h⟩ := done_of_bind h
  have hlt := encoding.toNat_lt
  rw [done_of_byte hencoding]
  dsimp only at h
  split at h
  · rename_i hform
    obtain ⟨hlength, hrest⟩ := done_of_take h
    have hbyte : encoding = UInt8.ofNat element.length := Word.byte_eq (by omega)
    have hcontent : ContentForm element _ := .string6 (by omega)
    rw [← hbyte] at hcontent
    exact ⟨_, hcontent, by rw [hrest]; rfl⟩
  · rename_i hform
    obtain ⟨second, last, hsecond, h⟩ := done_of_bind h
    obtain ⟨hlength, hrest⟩ := done_of_take h
    have hsmall := second.toNat_lt
    have hbyte : encoding = UInt8.ofNat (64 + element.length / 256) := Word.byte_eq (by omega)
    have hlast : second = UInt8.ofNat element.length := Word.byte_eq (by omega)
    have hcontent : ContentForm element _ := .string14 (by omega)
    rw [← hbyte, ← hlast] at hcontent
    exact ⟨_, hcontent, by rw [done_of_byte hsecond, hrest]; rfl⟩
  · rename_i hform
    obtain ⟨length, last, hcount, h⟩ := done_of_bind h
    obtain ⟨rfl, hrest⟩ := done_of_take h
    obtain ⟨hsmall, hword⟩ := done_of_big hcount
    have hbyte : encoding = UInt8.ofNat (128 + encoding.toNat % 64) := Word.byte_eq (by omega)
    have hcontent := ContentForm.string32 (Nat.mod_lt encoding.toNat (by decide)) hsmall
    rw [← hbyte] at hcontent
    exact ⟨_, hcontent, by rw [hword, hrest, List.cons_append, List.append_assoc]⟩
  · obtain ⟨value, last, hvalue, h⟩ := done_of_bind h
    cases h
    obtain ⟨bytes, hcontent, hrest⟩ := contentForm_of_integer hvalue
    exact ⟨_, hcontent, by rw [hrest]; rfl⟩

theorem entryForm_of_done (h : entry?.run cursor = .done (some element) after) :
    ∃ bytes, EntryForm element bytes ∧ cursor.rest = bytes ++ after.rest := by
  obtain ⟨previous, middle, hprevious, h⟩ := done_of_bind h
  have hlt := previous.toNat_lt
  rw [done_of_byte hprevious]
  split at h
  · cases h
  rename_i hmark
  split at h
  · rename_i hfar
    obtain ⟨length, last, hlength, h⟩ := done_of_bind h
    obtain ⟨found, behind, hfound, hvalue⟩ := done_of_bind h
    cases hvalue
    obtain ⟨hwidth, hrest⟩ := done_of_take hlength
    obtain ⟨content, hcontent, hcontentRest⟩ := contentForm_of_done hfound
    refine ⟨_, .mk (.far hwidth) hcontent, ?_⟩
    rw [hrest, hcontentRest, hfar, List.cons_append, List.cons_append, List.append_assoc]
  · rename_i hfar
    obtain ⟨found, behind, hfound, hvalue⟩ := done_of_bind h
    cases hvalue
    obtain ⟨content, hcontent, hrest⟩ := contentForm_of_done hfound
    have hnear : previous.toNat < 0xFE := by
      rw [← UInt8.toNat_inj] at hmark hfar
      change previous.toNat ≠ 255 at hmark
      change previous.toNat ≠ 254 at hfar
      omega
    exact ⟨_, .mk (.near hnear) hcontent, by rw [hrest]; rfl⟩

theorem endMark_of_done (h : entry?.run cursor = .done none after) :
    cursor.rest = [endMark] ++ after.rest := by
  obtain ⟨previous, middle, hprevious, h⟩ := done_of_bind h
  rw [done_of_byte hprevious]
  split at h
  · rename_i hmark
    cases h
    rw [hmark]
    rfl
  · split at h
    · obtain ⟨_, _, _, h⟩ := done_of_bind h
      obtain ⟨_, _, _, h⟩ := done_of_bind h
      cases h
    · obtain ⟨_, _, _, h⟩ := done_of_bind h
      cases h

/-- A row of entries that is read up to the end mark. -/
theorem row_of_collect {elements : List Bytes}
    (h : (collect entry?).run cursor = .done elements after) :
    ∃ body, Row EntryForm elements body ∧ cursor.rest = body ++ ([endMark] ++ after.rest) := by
  refine done_of_collect (fun hrun => ?_) endMark_of_done h
  obtain ⟨bytes, hform, hrest⟩ := entryForm_of_done hrun
  exact ⟨bytes, hform.reads.1, hform, hrest⟩

/-- A row of as many entries as were declared. -/
theorem row_of_counted {declared : Nat} {found : List Bytes}
    (h : (iterate (countedStep declared) declared []).run cursor = .done found after) :
    ∃ elements body, found = elements.reverse ∧ elements.length = declared ∧
      Row EntryForm elements body ∧ cursor.rest = body ++ after.rest := by
  have hstep : ∀ {found result : List Bytes} {cursor after : Cursor},
      (countedStep declared found).run cursor = .done result after →
        ∃ element bytes, result = element :: found ∧ EntryForm element bytes ∧
          cursor.rest = bytes ++ after.rest := by
    intro found result cursor after hrun
    obtain ⟨next, middle, hnext, hresult⟩ := done_of_bind hrun
    cases next with
    | some element =>
        cases hresult
        obtain ⟨bytes, hform, hrest⟩ := entryForm_of_done hnext
        exact ⟨element, bytes, rfl, hform, hrest⟩
    | none => cases hresult
  obtain ⟨elements, body, hfound, hlength, hrow, hrest⟩ := done_of_iterate hstep h
  rw [List.append_nil] at hfound
  exact ⟨elements, body, hfound, hlength, hrow, hrest⟩

end Entries

/-- What is read is a form of what it is read as. -/
theorem form_of_decode {blob : Bytes} {elements : List Bytes} (h : decode blob = .ok elements) :
    Form elements blob := by
  obtain ⟨after, h⟩ := done_of_readBlob h
  obtain ⟨total, second, htotal, h⟩ := done_of_bind h
  obtain ⟨last, third, hlast, h⟩ := done_of_bind h
  obtain ⟨declared, fourth, hdeclared, h⟩ := done_of_bind h
  obtain ⟨htotalLength, htotalRest⟩ := done_of_take htotal
  obtain ⟨hlastLength, hlastRest⟩ := done_of_take hlast
  obtain ⟨hwidth, hdeclaredRest⟩ := done_of_little hdeclared
  have hform : ∀ body, Row EntryForm elements body →
      (declared = unknownCount ∨ declared < unknownCount ∧ elements.length = declared) →
        fourth.rest = body ++ ([endMark] ++ after.rest) → Form elements blob := by
    intro body hbody hcount hrest
    have hblob : blob =
        total ++ (last ++ (Word.toLittle 2 declared ++ (body ++ [endMark]))) ++ after.rest := by
      change blob = _ at htotalRest
      rw [htotalRest, hlastRest, hdeclaredRest, hrest]
      simp only [List.append_assoc]
    rw [hblob]
    exact .mk htotalLength hlastLength hcount hbody
  split at h
  · rename_i hunknown
    obtain ⟨body, hbody, hrest⟩ := row_of_collect h
    exact hform body hbody (.inl hunknown) hrest
  · rename_i hknown
    obtain ⟨found, fifth, hfound, h⟩ := done_of_bind h
    obtain ⟨mark, sixth, hmark, h⟩ := done_of_bind h
    split at h
    · rename_i hend
      cases h
      obtain ⟨elements, body, rfl, hlength, hbody, hrest⟩ := row_of_counted hfound
      rw [List.reverse_reverse] at hform ⊢
      refine hform body hbody (.inr ⟨?_, hlength⟩) ?_
      · have hlimit : declared < 65536 := hwidth
        have hne : declared ≠ 65535 := hknown
        change declared < 65535
        omega
      · rw [hrest, done_of_byte hmark, hend]
        rfl
    · cases h

/-- What stands behind the number of entries settles what is read, if the number is right. -/
theorem form_iff_of_words {words rest : Bytes} {declared : Nat} {elements : List Bytes}
    (hwords : words.length = 8) (hdeclared : declared ≤ unknownCount) :
    Form elements (words ++ (Word.toLittle 2 declared ++ rest)) ↔
      (declared = unknownCount ∨ elements.length = declared) ∧
        ∃ body more, Row EntryForm elements body ∧ rest = body ++ ([endMark] ++ more) := by
  have hlimit : declared < 65536 := Nat.lt_succ_of_le hdeclared
  constructor
  · intro h
    generalize hblob : words ++ (Word.toLittle 2 declared ++ rest) = blob at h
    obtain @⟨total, last, body, more, found, htotal, hlast, hfound, hbody⟩ := h
    have hwidth : found < 65536 := by
      rcases hfound with rfl | ⟨hlt, _⟩
      · decide
      · exact Nat.lt_succ_of_lt hlt
    have hparts : words ++ (Word.toLittle 2 declared ++ rest) =
        (total ++ last) ++ (Word.toLittle 2 found ++ (body ++ ([endMark] ++ more))) := by
      rw [hblob]
      simp only [List.append_assoc]
    obtain ⟨_, hbehind⟩ := List.append_inj hparts (by rw [List.length_append]; omega)
    obtain ⟨hnumber, hrest⟩ := List.append_inj hbehind (by simp only [Word.toLittle_length])
    have hsame : declared = found := by
      have hword : Word.little (Word.toLittle 2 declared) = declared := Word.little_toLittle hlimit
      rw [← hword, hnumber, Word.little_toLittle hwidth]
    rw [hsame]
    exact ⟨hfound.imp_right And.right, body, more, hbody, hrest⟩
  · rintro ⟨hcount, body, more, hbody, rfl⟩
    have hsplit : words ++ (Word.toLittle 2 declared ++ (body ++ ([endMark] ++ more))) =
        words.take 4 ++ (words.drop 4 ++ (Word.toLittle 2 declared ++ (body ++ [endMark]))) ++
          more := by
      rw [List.append_assoc, List.append_assoc, ← List.append_assoc (words.take 4),
        List.take_append_drop, List.append_assoc, List.append_assoc]
    rw [hsplit]
    refine .mk ?_ ?_ ?_ hbody
    · rw [List.length_take]
      omega
    · rw [List.length_drop]
      omega
    · rcases Nat.lt_or_eq_of_le hdeclared with hlt | heq
      · exact .inr ⟨hlt, hcount.resolve_left (Nat.ne_of_lt hlt)⟩
      · exact .inl heq

theorem decode_eq_ok_iff {blob : Bytes} {elements : List Bytes} :
    decode blob = .ok elements ↔ Form elements blob :=
  ⟨form_of_decode, Form.decode_eq⟩

/-- **Exactly the ziplists.** What is read as entries is a form of a ziplist with these entries, and
everything else is malformed. To tell the right number of entries and to keep it open come to the
same. -/
theorem ziplist_exact :
    (∀ blob elements, decode blob = .ok elements ↔ Form elements blob) ∧
    (∀ blob, (¬ ∃ elements, Form elements blob) ↔
      ∃ cause, decode blob = .error (.malformed cause)) ∧
    ∀ (words rest : Bytes) (declared : Nat) (elements : List Bytes),
      words.length = 8 → declared < unknownCount →
        (decode (words ++ (Word.toLittle 2 declared ++ rest)) = .ok elements ↔
          elements.length = declared ∧
            decode (words ++ (Word.toLittle 2 unknownCount ++ rest)) = .ok elements) := by
  refine ⟨fun _ _ => decode_eq_ok_iff, ?_, ?_⟩
  · intro blob
    rw [← (held_decode blob).malformed_iff]
    simp only [decode_eq_ok_iff]
  · intro words rest declared elements hwords hlt
    have hne : declared ≠ unknownCount := Nat.ne_of_lt hlt
    have hopen : unknownCount = unknownCount ∨ elements.length = unknownCount := .inl rfl
    rw [decode_eq_ok_iff, decode_eq_ok_iff, form_iff_of_words hwords (Nat.le_of_lt hlt),
      form_iff_of_words hwords (Nat.le_refl _), or_iff_right hne, and_iff_right hopen]

/-- An immediate, a byte behind a wide length of what precedes it, and a string of two end marks, in
a ziplist that something follows. For two entries it is no ziplist. -/
theorem ziplist_exact_three :
    ([26, 0, 0, 0, 10, 0, 0, 0] : Bytes).length = 8 ∧ 3 < unknownCount ∧
      decode ([26, 0, 0, 0, 10, 0, 0, 0] ++ (Word.toLittle 2 unknownCount ++
        [0, 0xF1, 0xFE, 0, 0, 0, 0, 0xFE, 0x80, 0x0A, 2, 0xFF, 0xFF, 0xFF, 7])) =
          .ok [[48], [45, 49, 50, 56], [0xFF, 0xFF]] ∧
      Form [[48], [45, 49, 50, 56], [0xFF, 0xFF]]
        ([26, 0, 0, 0, 10, 0, 0, 0] ++ (Word.toLittle 2 unknownCount ++
          [0, 0xF1, 0xFE, 0, 0, 0, 0, 0xFE, 0x80, 0x0A, 2, 0xFF, 0xFF, 0xFF, 7])) ∧
      ¬ ∃ elements, Form elements ([26, 0, 0, 0, 10, 0, 0, 0] ++ (Word.toLittle 2 2 ++
        [0, 0xF1, 0xFE, 0, 0, 0, 0, 0xFE, 0x80, 0x0A, 2, 0xFF, 0xFF, 0xFF, 7])) := by
  obtain ⟨hexact, hmalformed, hmodes⟩ := ziplist_exact
  have hcounted : decode ([26, 0, 0, 0, 10, 0, 0, 0] ++ (Word.toLittle 2 3 ++
      [0, 0xF1, 0xFE, 0, 0, 0, 0, 0xFE, 0x80, 0x0A, 2, 0xFF, 0xFF, 0xFF, 7])) =
        .ok [[48], [45, 49, 50, 56], [0xFF, 0xFF]] := by
    cbv
  have hrefused : decode ([26, 0, 0, 0, 10, 0, 0, 0] ++ (Word.toLittle 2 2 ++
      [0, 0xF1, 0xFE, 0, 0, 0, 0, 0xFE, 0x80, 0x0A, 2, 0xFF, 0xFF, 0xFF, 7])) =
        .error (.malformed (.ziplistEndMark 0x0A)) :=
    rfl
  obtain ⟨_, hopen⟩ := (hmodes _ _ 3 _ rfl (by decide)).1 hcounted
  exact ⟨rfl, by decide, hopen, (hexact _ _).1 hopen, (hmalformed _).2 ⟨_, hrefused⟩⟩

end RedisSnapshot.Packed.Ziplist
