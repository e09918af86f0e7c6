import RedisSnapshot.Proofs.Accepted.Lzf
import RedisSnapshot.Proofs.Memory

/-!
# Every way in which reading a string can go

A stream begins with a form of a string, or it ends inside one, or it has bytes that no string
begins with, or it begins with a string that nothing can hold. The reader of strings tells these
apart. It stops behind the last part that was there as a whole, so what is left of a part that was
cut is not counted as read.
-/

namespace RedisSnapshot

/-- A stream ends inside a length: these bytes of it make up whole parts, and these are left. -/
inductive CutLength : Bytes → Bytes → Prop where
  | first : CutLength [] []
  | fourteen {first : UInt8} (h : first.toNat / 64 = 1) : CutLength [first] []
  | word {left : Bytes} (h : left.length < 4) : CutLength [0x80] left
  | long {left : Bytes} (h : left.length < 8) : CutLength [0x81] left

/-- A stream ends inside a string. -/
inductive CutString : Bytes → Bytes → Prop where
  | length {taken left : Bytes} (h : CutLength taken left) : CutString taken left
  | plain {count : Nat} {front left : Bytes} (hfront : LengthForm count front)
      (hheld : count < Word.count 63) (h : left.length < count) : CutString front left
  | byte : CutString [0xC0] []
  | short {left : Bytes} (h : left.length < 2) : CutString [0xC1] left
  | word {left : Bytes} (h : left.length < 4) : CutString [0xC2] left
  | packedLength {taken left : Bytes} (h : CutLength taken left) : CutString (0xC3 :: taken) left
  | fullLength {size : Nat} {front taken left : Bytes} (hfront : LengthForm size front)
      (h : CutLength taken left) : CutString (0xC3 :: (front ++ taken)) left
  | packed {size full : Nat} {front back left : Bytes} (hfront : LengthForm size front)
      (hback : LengthForm full back) (hheld : size < Word.count 63) (h : left.length < size) :
      CutString (0xC3 :: (front ++ back)) left

/-- No field begins with such a byte. -/
def IsReserved (first : UInt8) : Prop :=
  0x82 ≤ first.toNat ∧ first.toNat ≤ 0xBF

/-- The bytes up to this offset are not a length. -/
inductive MalformedLength (stop : Nat) : Malformed → Bytes → Prop where
  | reserved {first : UInt8} (h : IsReserved first) :
      MalformedLength stop (.lengthForm first (stop - 1)) [first]
  | literal {kind : Nat} (h : kind < 64) :
      MalformedLength stop (.literalForLength (stop - 1)) [UInt8.ofNat (192 + kind)]

/-- The bytes up to this offset are not a string. -/
inductive MalformedString (stop : Nat) : Malformed → Bytes → Prop where
  | reserved {first : UInt8} (h : IsReserved first) :
      MalformedString stop (.lengthForm first (stop - 1)) [first]
  | literal {kind : Nat} (hlow : 4 ≤ kind) (hhigh : kind < 64) :
      MalformedString stop (.literalKind kind stop) [UInt8.ofNat (192 + kind)]
  | packedLength {cause : Malformed} {refused : Bytes} (h : MalformedLength stop cause refused) :
      MalformedString stop cause (0xC3 :: refused)
  | fullLength {cause : Malformed} {size : Nat} {front refused : Bytes}
      (hfront : LengthForm size front) (h : MalformedLength stop cause refused) :
      MalformedString stop cause (0xC3 :: (front ++ refused))
  | packed {cause : Malformed} {full : Nat} {packed front back : Bytes}
      (hfront : LengthForm packed.length front) (hback : LengthForm full back)
      (hheldPacked : packed.length < Word.count 63) (hheld : full < Word.count 63)
      (hnone : ¬ ∃ value, Lzf.Compresses packed value ∧ value.length = full)
      (hcause : Lzf.decompress packed full = .error (.malformed cause)) :
      MalformedString stop cause (0xC3 :: (front ++ (back ++ packed)))

namespace Decoder

open Reader

/-! ### What every cut and every malformed beginning leads to -/

theorem lacks_announced {taken left : Bytes} (h : CutLength taken left) :
    announced.Lacks taken left := by
  cases h with
  | first => exact .bind .byte
  | @fourteen first h =>
      refine (Reads.byte first).bind_lacks ?_
      simp only [h]
      exact .bind .byte
  | word h => exact (Reads.byte 0x80).bind_lacks (.bind (.bind (.take h)))
  | long h => exact (Reads.byte 0x81).bind_lacks (.bind (.bind (.take h)))

theorem lacks_length {taken left : Bytes} (h : CutLength taken left) : length.Lacks taken left :=
  .bind (lacks_announced h)

theorem lacks_allocate {count : Nat} {left : Bytes} (hheld : count < Word.count 63)
    (h : left.length < count) : (allocate count).Lacks [] left := by
  rw [allocate, if_neg (by omega)]
  exact .take h

theorem lacks_string {taken left : Bytes} (h : CutString taken left) : string.Lacks taken left := by
  have hliteral := fun kind => reads_announced_literal kind
  cases h with
  | length h => exact .bind (lacks_announced h)
  | plain hfront hheld h => exact (reads_announced hfront).bind_last_lacks (lacks_allocate hheld h)
  | byte => exact (hliteral 0 (by decide)).bind_last_lacks (.bind (.bind (.take (by decide))))
  | short h => exact (hliteral 1 (by decide)).bind_last_lacks (.bind (.bind (.take h)))
  | word h => exact (hliteral 2 (by decide)).bind_last_lacks (.bind (.bind (.take h)))
  | packedLength h => exact (hliteral 3 (by decide)).bind_lacks (.bind (lacks_length h))
  | fullLength hfront h =>
      refine (hliteral 3 (by decide)).bind_lacks ?_
      exact (reads_length hfront).bind_lacks (.bind (lacks_length h))
  | packed hfront hback hheld h =>
      refine (hliteral 3 (by decide)).bind_lacks ?_
      refine (reads_length hfront).bind_lacks ?_
      exact (reads_length hback).bind_last_lacks (.bind (lacks_allocate hheld h))

theorem refuses_announced {stop : Nat} {first : UInt8} (h : IsReserved first) :
    announced.RefusesAt stop (.malformed (.lengthForm first (stop - 1))) [first] := by
  obtain ⟨hlow, hhigh⟩ := h
  have hform : first.toNat / 64 = 2 := by omega
  have hword : first ≠ 0x80 := by
    rintro rfl
    exact absurd hlow (by decide)
  have hlong : first ≠ 0x81 := by
    rintro rfl
    exact absurd hlow (by decide)
  refine (Reads.byte first).bind_last_refusesAt ?_
  simp only [hform, if_neg hword, if_neg hlong]
  rintro _ _ rfl
  rfl

theorem refuses_length {stop : Nat} {cause : Malformed} {refused : Bytes}
    (h : MalformedLength stop cause refused) :
    length.RefusesAt stop (.malformed cause) refused := by
  cases h with
  | reserved h => exact .bind (refuses_announced h)
  | literal h =>
      refine (reads_announced_literal _ h).bind_last_refusesAt ?_
      rintro _ _ rfl
      rfl

theorem refuses_string {stop : Nat} {cause : Malformed} {refused : Bytes}
    (h : MalformedString stop cause refused) :
    string.RefusesAt stop (.malformed cause) refused := by
  have hpacked := reads_announced_literal 3 (by decide)
  cases h with
  | reserved h => exact .bind (refuses_announced h)
  | literal hlow hhigh =>
      refine (reads_announced_literal _ hhigh).bind_last_refusesAt ?_
      obtain ⟨more, rfl⟩ := Nat.exists_eq_add_of_le' hlow
      rintro _ _ rfl
      rfl
  | packedLength h => exact hpacked.bind_refusesAt (.bind (refuses_length h))
  | fullLength hfront h =>
      refine hpacked.bind_refusesAt ?_
      exact (reads_length hfront).bind_refusesAt (.bind (refuses_length h))
  | packed hfront hback hheldPacked _ _ hcause =>
      refine hpacked.bind_refusesAt ?_
      refine (reads_length hfront).bind_refusesAt ?_
      refine (reads_length hback).bind_refusesAt ?_
      refine (reads_allocate hheldPacked).bind_last_refusesAt ?_
      rw [hcause]
      exact Refuses.fail.at stop

/-! ### Nothing else leads there -/

section Sound

variable {cursor after : Cursor} {need : Need} {cause : Malformed}

theorem cutLength_of_announced (h : announced.run cursor = .short need after) :
    ∃ taken, CutLength taken after.rest ∧ cursor.rest = taken ++ after.rest := by
  rcases short_of_bind h with h | ⟨first, middle, hfirst, h⟩
  · obtain ⟨hnone, rfl⟩ := short_of_byte h
    exact ⟨[], hnone ▸ .first, rfl⟩
  have hrest := done_of_byte hfirst
  dsimp only at h
  split at h
  · cases h
  · rename_i hform
    rcases short_of_bind h with h | ⟨_, _, _, hpure⟩
    · obtain ⟨hnone, rfl⟩ := short_of_byte h
      exact ⟨[first], hnone ▸ .fourteen hform, hrest⟩
    · cases hpure
  · split at h
    · rename_i hword
      obtain ⟨hless, rfl⟩ := short_of_take (short_of_map (short_of_map h))
      exact ⟨[first], hword ▸ .word hless, hrest⟩
    · split at h
      · rename_i hlong
        obtain ⟨hless, rfl⟩ := short_of_take (short_of_map (short_of_map h))
        exact ⟨[first], hlong ▸ .long hless, hrest⟩
      · cases h
  · cases h

theorem reserved_of_announced (h : announced.run cursor = .failed (.malformed cause) after) :
    ∃ first, IsReserved first ∧ cause = .lengthForm first (after.offset - 1) ∧
      cursor.rest = first :: after.rest := by
  rcases failed_of_bind h with h | ⟨first, middle, hfirst, h⟩
  · exact absurd h (Accepts.byte _ _ _)
  have hrest := done_of_byte hfirst
  dsimp only at h
  split at h
  · cases h
  · exact absurd h (Accepts.byte.map _ _ _ _)
  · rename_i hform
    split at h
    · exact absurd h (((Accepts.take 4).map _).map _ _ _ _)
    · rename_i hword
      split at h
      · exact absurd h (((Accepts.take 8).map _).map _ _ _ _)
      · rename_i hlong
        cases h
        have hnotWord : first.toNat ≠ 0x80 := fun heq => hword (UInt8.toNat_inj.1 heq)
        have hnotLong : first.toNat ≠ 0x81 := fun heq => hlong (UInt8.toNat_inj.1 heq)
        exact ⟨first, ⟨by omega, by omega⟩, rfl, hrest⟩
  · cases h

theorem cutLength_of_short (h : length.run cursor = .short need after) :
    ∃ taken, CutLength taken after.rest ∧ cursor.rest = taken ++ after.rest := by
  rcases short_of_bind h with h | ⟨found, middle, _, h⟩
  · exact cutLength_of_announced h
  · cases found <;> cases h

theorem malformedLength_of_failed (h : length.run cursor = .failed (.malformed cause) after) :
    ∃ refused, MalformedLength after.offset cause refused ∧ cursor.rest = refused ++ after.rest := by
  rcases failed_of_bind h with h | ⟨found, middle, hfound, h⟩
  · obtain ⟨first, hreserved, rfl, hrest⟩ := reserved_of_announced h
    exact ⟨[first], .reserved hreserved, hrest⟩
  · obtain ⟨form, hform, hrest⟩ := announces_of_done hfound
    cases hform with
    | length => cases h
    | literal hkind =>
        cases h
        exact ⟨_, .literal hkind, hrest⟩

theorem short_of_allocate {count : Nat} (h : (allocate count).run cursor = .short need after) :
    count < Word.count 63 ∧ cursor.rest.length < count ∧ after = cursor := by
  unfold allocate at h
  split at h
  · cases h
  · exact ⟨by omega, short_of_take h⟩

theorem not_malformed_allocate {count : Nat} :
    (allocate count).run cursor ≠ .failed (.malformed cause) after := by
  intro h
  unfold allocate at h
  split at h
  · cases h
  · exact Accepts.take count _ _ _ h

theorem lt_of_decompress {packed : Bytes} {full : Nat}
    (h : Lzf.decompress packed full ≠ .error (.beyondMemory full)) : full < Word.count 63 :=
  Nat.lt_of_not_le fun hlarge => h (decompress_eq_beyondMemory_iff.2 ⟨rfl, hlarge⟩)

theorem integer_of_done {width : Nat} {value : Bytes} (hwidth : 0 < width)
    (h : (integerText width).run cursor = .done value after) :
    ∃ number bytes, value = Decimal.intBytes number ∧ IntegerForm width number bytes ∧
      cursor.rest = bytes ++ after.rest := by
  obtain ⟨number, last, hnumber, hvalue⟩ := done_of_bind h
  cases hvalue
  obtain ⟨bytes, hbytes, hrest⟩ := done_of_signedLittle hwidth hnumber
  exact ⟨number, bytes, rfl, hbytes, hrest⟩

theorem short_of_integer {width : Nat} (h : (integerText width).run cursor = .short need after) :
    cursor.rest.length < width ∧ after = cursor :=
  short_of_take (short_of_map (short_of_map h))

theorem accepts_integer (width : Nat) : (integerText width).Accepts :=
  ((Accepts.take width).map _).map _

theorem cutString_of_compressed (h : compressed.run cursor = .short need after) :
    ∃ taken, CutString (0xC3 :: taken) after.rest ∧ cursor.rest = taken ++ after.rest := by
  rcases short_of_bind h with h | ⟨size, second, hsize, h⟩
  · obtain ⟨taken, hcut, hrest⟩ := cutLength_of_short h
    exact ⟨taken, .packedLength hcut, hrest⟩
  obtain ⟨front, hfront, hsecond⟩ := lengthForm_of_done hsize
  rw [hsecond]
  rcases short_of_bind h with h | ⟨full, third, hfull, h⟩
  · obtain ⟨taken, hcut, hrest⟩ := cutLength_of_short h
    exact ⟨front ++ taken, .fullLength hfront hcut, by rw [hrest, List.append_assoc]⟩
  obtain ⟨back, hback, hthird⟩ := lengthForm_of_done hfull
  rw [hthird]
  rcases short_of_bind h with h | ⟨packed, last, _, h⟩
  · obtain ⟨hheld, hless, rfl⟩ := short_of_allocate h
    exact ⟨front ++ back, .packed hfront hback hheld hless, (List.append_assoc ..).symm⟩
  · exact absurd h not_short_ofExcept

theorem cutString_of_short (h : string.run cursor = .short need after) :
    ∃ taken, CutString taken after.rest ∧ cursor.rest = taken ++ after.rest := by
  rcases short_of_bind h with h | ⟨found, middle, hfound, h⟩
  · obtain ⟨taken, hcut, hrest⟩ := cutLength_of_announced h
    exact ⟨taken, .length hcut, hrest⟩
  obtain ⟨form, hform, hrest⟩ := announces_of_done hfound
  rw [hrest]
  cases hform with
  | length hform =>
      obtain ⟨hheld, hless, rfl⟩ := short_of_allocate h
      exact ⟨form, .plain hform hheld hless, rfl⟩
  | literal =>
      split at h
      · contradiction
      · rename_i hkind
        cases hkind
        obtain ⟨hless, rfl⟩ := short_of_integer h
        have hnone : after.rest = [] := List.length_eq_zero_iff.1 (by omega)
        exact ⟨_, hnone ▸ .byte, rfl⟩
      · rename_i hkind
        cases hkind
        obtain ⟨hless, rfl⟩ := short_of_integer h
        exact ⟨_, .short hless, rfl⟩
      · rename_i hkind
        cases hkind
        obtain ⟨hless, rfl⟩ := short_of_integer h
        exact ⟨_, .word hless, rfl⟩
      · rename_i hkind
        cases hkind
        obtain ⟨taken, hcut, hmiddle⟩ := cutString_of_compressed h
        exact ⟨_, hcut, by rw [hmiddle]; rfl⟩
      · cases h

theorem malformedString_of_compressed
    (h : compressed.run cursor = .failed (.malformed cause) after) :
    ∃ refused, MalformedString after.offset cause (0xC3 :: refused) ∧
      cursor.rest = refused ++ after.rest := by
  rcases failed_of_bind h with h | ⟨size, second, hsize, h⟩
  · obtain ⟨refused, hbad, hrest⟩ := malformedLength_of_failed h
    exact ⟨refused, .packedLength hbad, hrest⟩
  obtain ⟨front, hfront, hsecond⟩ := lengthForm_of_done hsize
  rw [hsecond]
  rcases failed_of_bind h with h | ⟨full, third, hfull, h⟩
  · obtain ⟨refused, hbad, hrest⟩ := malformedLength_of_failed h
    exact ⟨front ++ refused, .fullLength hfront hbad, by rw [hrest, List.append_assoc]⟩
  obtain ⟨back, hback, hthird⟩ := lengthForm_of_done hfull
  rw [hthird]
  rcases failed_of_bind h with h | ⟨packed, last, hpacked, hlater⟩
  · exact absurd h not_malformed_allocate
  obtain ⟨hheldPacked, rfl, hlast⟩ := done_of_allocate hpacked
  obtain ⟨hresult, rfl⟩ := failed_of_ofExcept hlater
  have hheld : full < Word.count 63 := lt_of_decompress (by rw [hresult]; nofun)
  have hnone : ¬ ∃ value, Lzf.Compresses packed value ∧ value.length = full := by
    rintro ⟨value, hcompresses, rfl⟩
    rw [hcompresses.decompress_eq hheld] at hresult
    cases hresult
  refine ⟨front ++ (back ++ packed), .packed hfront hback hheldPacked hheld hnone hresult, ?_⟩
  rw [hlast, List.append_assoc, List.append_assoc]

theorem malformedString_of_failed (h : string.run cursor = .failed (.malformed cause) after) :
    ∃ refused, MalformedString after.offset cause refused ∧ cursor.rest = refused ++ after.rest := by
  rcases failed_of_bind h with h | ⟨found, middle, hfound, h⟩
  · obtain ⟨first, hreserved, rfl, hrest⟩ := reserved_of_announced h
    exact ⟨[first], .reserved hreserved, hrest⟩
  obtain ⟨form, hform, hrest⟩ := announces_of_done hfound
  rw [hrest]
  cases hform with
  | length hform => exact absurd h not_malformed_allocate
  | @literal kind hhigh =>
      split at h
      · contradiction
      · exact absurd h (accepts_integer 1 _ _ _)
      · exact absurd h (accepts_integer 2 _ _ _)
      · exact absurd h (accepts_integer 4 _ _ _)
      · rename_i hkind
        cases hkind
        obtain ⟨refused, hbad, hmiddle⟩ := malformedString_of_compressed h
        exact ⟨_, hbad, by rw [hmiddle]; rfl⟩
      · rename_i hzero hone htwo hthree hkind
        cases hkind
        cases h
        have hlow : 4 ≤ kind := by
          rw [imp_false] at hzero hone htwo hthree
          omega
        exact ⟨[UInt8.ofNat (192 + kind)], .literal hlow hhigh, rfl⟩

theorem stringForm_of_compressed {value : Bytes} (h : compressed.run cursor = .done value after) :
    ∃ form, StringForm value (0xC3 :: form) ∧ cursor.rest = form ++ after.rest := by
  obtain ⟨size, second, hsize, h⟩ := done_of_bind h
  obtain ⟨full, third, hfull, h⟩ := done_of_bind h
  obtain ⟨packed, last, hpacked, hlater⟩ := done_of_bind h
  obtain ⟨front, hfront, hsecond⟩ := lengthForm_of_done hsize
  obtain ⟨back, hback, hthird⟩ := lengthForm_of_done hfull
  obtain ⟨hheldPacked, rfl, hlast⟩ := done_of_allocate hpacked
  obtain ⟨hresult, rfl⟩ := done_of_ofExcept hlater
  obtain ⟨hcompresses, rfl⟩ := Lzf.compresses_of_decompress hresult
  have hheld : value.length < Word.count 63 := lt_of_decompress (by rw [hresult]; nofun)
  refine ⟨front ++ (back ++ packed), .compressed hcompresses hfront hback hheldPacked hheld, ?_⟩
  rw [hsecond, hthird, hlast, List.append_assoc, List.append_assoc]

theorem stringForm_of_done {value : Bytes} (h : string.run cursor = .done value after) :
    ∃ form, StringForm value form ∧ cursor.rest = form ++ after.rest := by
  obtain ⟨found, middle, hfound, h⟩ := done_of_bind h
  obtain ⟨form, hform, hrest⟩ := announces_of_done hfound
  rw [hrest]
  cases hform with
  | length hform =>
      obtain ⟨hheld, rfl, hmiddle⟩ := done_of_allocate h
      exact ⟨form ++ value, .plain hform hheld, by rw [hmiddle, List.append_assoc]⟩
  | literal =>
      split at h
      · contradiction
      · rename_i hkind
        cases hkind
        obtain ⟨number, bytes, rfl, hbytes, hmiddle⟩ := integer_of_done (by decide) h
        exact ⟨_, .byte hbytes, by rw [hmiddle]; rfl⟩
      · rename_i hkind
        cases hkind
        obtain ⟨number, bytes, rfl, hbytes, hmiddle⟩ := integer_of_done (by decide) h
        exact ⟨_, .short hbytes, by rw [hmiddle]; rfl⟩
      · rename_i hkind
        cases hkind
        obtain ⟨number, bytes, rfl, hbytes, hmiddle⟩ := integer_of_done (by decide) h
        exact ⟨_, .word hbytes, by rw [hmiddle]; rfl⟩
      · rename_i hkind
        cases hkind
        obtain ⟨packed, hpacked, hmiddle⟩ := stringForm_of_compressed h
        exact ⟨_, hpacked, by rw [hmiddle]; rfl⟩
      · cases h

end Sound

/-! ### The four outcomes -/

end Decoder

/-- What lies between two places of a stream. -/
def Cursor.Spans (cursor : Cursor) (bytes : Bytes) (after : Cursor) : Prop :=
  cursor.rest = bytes ++ after.rest ∧ after.offset = cursor.offset + bytes.length

namespace Reader

variable {ε α : Type} {reader : Reader ε α} {bytes : Bytes} {cursor after : Cursor}

/-- Wherever the reader stops, the bytes before that place determine its offset. -/
theorem spans_of_run {outcome : Outcome ε α} (h : reader.run cursor = outcome)
    (hrest : cursor.rest = bytes ++ outcome.cursor.rest) : cursor.Spans bytes outcome.cursor := by
  obtain ⟨used, hused, hoffset⟩ := reader.reaches cursor
  rw [h] at hused hoffset
  rw [List.append_cancel_right (hused.symm.trans hrest)] at hoffset
  exact ⟨hrest, hoffset⟩

theorem Reads.run_eq {value : α} (h : reader.Reads value bytes) (hspans : cursor.Spans bytes after) :
    reader.run cursor = .done value after := by
  have hrun := h cursor.offset after.rest
  rw [← hspans.1, ← hspans.2] at hrun
  exact hrun

theorem RefusesAt.run_eq {fault : ε} (h : reader.RefusesAt after.offset fault bytes)
    (hspans : cursor.Spans bytes after) : reader.run cursor = .failed fault after := by
  have hrun := h cursor.offset after.rest hspans.2.symm
  rw [← hspans.1] at hrun
  exact hrun

theorem Lacks.exists_run_eq (h : reader.Lacks bytes after.rest) (hspans : cursor.Spans bytes after) :
    ∃ need, reader.run cursor = .short need after := by
  have hrun := h cursor.offset
  rw [← hspans.1, ← hspans.2] at hrun
  exact hrun

end Reader

namespace Decoder

open Reader

section Outcomes

variable {cursor after : Cursor}

theorem done_string_iff {value : Bytes} :
    string.run cursor = .done value after ↔
      ∃ form, StringForm value form ∧ cursor.Spans form after := by
  constructor
  · intro h
    obtain ⟨form, hform, hrest⟩ := stringForm_of_done h
    exact ⟨form, hform, spans_of_run h hrest⟩
  · rintro ⟨form, hform, hspans⟩
    exact (reads_string hform).run_eq hspans

theorem short_string_iff :
    (∃ need, string.run cursor = .short need after) ↔
      ∃ taken, CutString taken after.rest ∧ cursor.Spans taken after := by
  constructor
  · rintro ⟨need, h⟩
    obtain ⟨taken, hcut, hrest⟩ := cutString_of_short h
    exact ⟨taken, hcut, spans_of_run h hrest⟩
  · rintro ⟨taken, hcut, hspans⟩
    exact (lacks_string hcut).exists_run_eq hspans

theorem failed_string_iff {cause : Malformed} :
    string.run cursor = .failed (.malformed cause) after ↔
      ∃ refused, MalformedString after.offset cause refused ∧ cursor.Spans refused after := by
  constructor
  · intro h
    obtain ⟨refused, hbad, hrest⟩ := malformedString_of_failed h
    exact ⟨refused, hbad, spans_of_run h hrest⟩
  · rintro ⟨refused, hbad, hspans⟩
    exact (refuses_string hbad).run_eq hspans

end Outcomes

/-- The readers that take a fixed number of bytes. -/
inductive IsPrimitive : {α : Type} → Decoder α → Prop where
  | byte : IsPrimitive Reader.byte
  | take (count : Nat) : IsPrimitive (Reader.take count)
  | little (width : Nat) : IsPrimitive (Reader.little width)
  | big (width : Nat) : IsPrimitive (Reader.big width)
  | signedLittle (width : Nat) : IsPrimitive (Reader.signedLittle width)

theorem IsPrimitive.accepts {α : Type} {decoder : Decoder α} (h : IsPrimitive decoder) :
    decoder.Accepts := by
  cases h with
  | byte => exact .byte
  | take count => exact .take count
  | little width | big width | signedLittle width => exact (Accepts.take width).map _

theorem IsPrimitive.stays {α : Type} {decoder : Decoder α} (h : IsPrimitive decoder) {need : Need}
    {cursor after : Cursor} (hrun : decoder.run cursor = .short need after) : after = cursor := by
  cases h with
  | byte => exact (short_of_byte hrun).2
  | take count => exact (short_of_take hrun).2
  | little width | big width | signedLittle width => exact (short_of_take (short_of_map hrun)).2

section Decode

variable {α : Type} {decoder : Decoder α} {input : Bytes} {cursor after : Cursor}

theorem decode_eq_ok_iff {value : α} :
    (Source.ofBytes input).decode decoder cursor = (.ok value, after) ↔
      decoder.run cursor = .done value after := by
  unfold Source.decode
  cases decoder.run cursor <;> simp

theorem shortage_ofBytes (offset : Nat) :
    (Source.ofBytes input).shortage offset = .io (.streamEnded offset) :=
  rfl

theorem decode_eq_ended_iff :
    (Source.ofBytes input).decode decoder cursor = (.error (.io (.streamEnded after.offset)), after) ↔
      ∃ need, decoder.run cursor = .short need after := by
  unfold Source.decode
  cases decoder.run cursor with
  | done => simp
  | short => simp +contextual [shortage_ofBytes]
  | failed fault => cases fault <;> simp [Fault.error]

theorem decode_eq_format_iff {cause : Malformed} :
    (Source.ofBytes input).decode decoder cursor = (.error (.format cause), after) ↔
      decoder.run cursor = .failed (.malformed cause) after := by
  unfold Source.decode
  cases decoder.run cursor with
  | done => simp
  | short => simp [shortage_ofBytes]
  | failed fault => cases fault <;> simp [Fault.error]

theorem decode_eq_beyondMemory_iff {length : Nat} :
    ((Source.ofBytes input).decode decoder cursor).1 = .error (.beyondMemory length) ↔
      decoder.Crashes cursor length := by
  unfold Source.decode Crashes
  cases decoder.run cursor with
  | done => simp
  | short => simp [shortage_ofBytes]
  | failed fault => cases fault <;> simp [Fault.error]

/-- A decoder yields a value, or the stream ends, or its bytes or their number are not accepted. -/
theorem decode_cases (input : Bytes) (decoder : Decoder α) (cursor : Cursor) :
    (∃ value after, (Source.ofBytes input).decode decoder cursor = (.ok value, after)) ∨
      (∃ after, (Source.ofBytes input).decode decoder cursor =
        (.error (.io (.streamEnded after.offset)), after)) ∨
      (∃ cause after, (Source.ofBytes input).decode decoder cursor =
        (.error (.format cause), after)) ∨
      ∃ length,
        ((Source.ofBytes input).decode decoder cursor).1 = .error (.beyondMemory length) := by
  unfold Source.decode
  cases decoder.run cursor with
  | done value after => exact .inl ⟨value, after, rfl⟩
  | short need after => exact .inr (.inl ⟨after, rfl⟩)
  | failed fault after =>
      cases fault with
      | malformed cause => exact .inr (.inr (.inl ⟨cause, after, rfl⟩))
      | beyondMemory length => exact .inr (.inr (.inr ⟨length, rfl⟩))

end Decode

/-- **Exactly the strings.** A string is read off exactly the streams that begin with a form of it;
a stream that ends inside a form is told to have ended behind its last whole part; every other one is
malformed, unless its string cannot be held. A read that fails has moved nowhere. -/
theorem string_exact (input : Bytes) (cursor : Cursor) :
    (∀ value after, (Source.ofBytes input).decode string cursor = (.ok value, after) ↔
      ∃ form, StringForm value form ∧ cursor.Spans form after) ∧
    (∀ after : Cursor, (Source.ofBytes input).decode string cursor =
        (.error (.io (.streamEnded after.offset)), after) ↔
      ∃ taken, CutString taken after.rest ∧ cursor.Spans taken after) ∧
    (∀ cause after, (Source.ofBytes input).decode string cursor = (.error (.format cause), after) ↔
      ∃ refused, MalformedString after.offset cause refused ∧ cursor.Spans refused after) ∧
    ((∃ value after, (Source.ofBytes input).decode string cursor = (.ok value, after)) ∨
      (∃ after, (Source.ofBytes input).decode string cursor =
        (.error (.io (.streamEnded after.offset)), after)) ∨
      (∃ cause after, (Source.ofBytes input).decode string cursor = (.error (.format cause), after)) ∨
      ∃ length, Unholdable length cursor.rest) ∧
    ∀ {α : Type} (read : Decoder α), IsPrimitive read → ∀ error after,
      (Source.ofBytes input).decode read cursor = (.error error, after) → after = cursor := by
  refine ⟨fun value after => ?_, fun after => ?_, fun cause after => ?_, ?_, ?_⟩
  · exact decode_eq_ok_iff.trans done_string_iff
  · exact decode_eq_ended_iff.trans short_string_iff
  · exact decode_eq_format_iff.trans failed_string_iff
  · rcases decode_cases input string cursor with hok | hended | hformat | ⟨length, hcrash⟩
    · exact .inl hok
    · exact .inr (.inl hended)
    · exact .inr (.inr (.inl hformat))
    · exact .inr (.inr (.inr ⟨length, crashes_string_iff.1 (decode_eq_beyondMemory_iff.1 hcrash)⟩))
  · intro α read hprimitive error after hfailed
    unfold Source.decode at hfailed
    split at hfailed
    · cases hfailed
    · rename_i hrun
      cases hfailed
      exact hprimitive.stays hrun
    · rename_i hrun
      exact absurd hrun (hprimitive.accepts _ _ _)

/-- The byte that is there of a string of two is not read, and neither is one of its length. -/
example :
    (Source.ofBytes []).decode string ⟨7, [0x81, 0, 0, 0, 0, 0, 0, 0, 2, 97]⟩ =
        (.error (.io (.streamEnded 16)), ⟨16, [97]⟩) ∧
      (Source.ofBytes []).decode string ⟨7, [0x81, 0, 0, 0]⟩ =
        (.error (.io (.streamEnded 8)), ⟨8, [0, 0, 0]⟩) :=
  ⟨rfl, rfl⟩

end Decoder

end RedisSnapshot
