import RedisSnapshot.Proofs.Accepted.Found
import RedisSnapshot.Proofs.Forms.Packed.Zipmap
import RedisSnapshot.Proofs.Modest

/-!
# What is read as a zipmap

A byte of a zipmap can be a length, an end mark, a number of unused bytes or one of them, and only
its place tells which. Nothing is read as a zipmap but its forms, so no byte is taken for another
kind: an end mark ends the pairs only where a field would begin, and unused bytes may be any bytes.
-/

namespace RedisSnapshot.Packed.Zipmap

open Decoder Reader

section Pairs

variable {cursor after : Cursor}

theorem sizeForm_of_done {size : Nat} (h : length?.run cursor = .done (some size) after) :
    ∃ bytes, SizeForm size bytes ∧ cursor.rest = bytes ++ after.rest := by
  obtain ⟨first, middle, hfirst, h⟩ := done_of_bind h
  have hlt := first.toNat_lt
  rw [done_of_byte hfirst]
  dsimp only at h
  split at h
  · cases h
  rename_i hend
  split at h
  · rename_i hlarge
    obtain ⟨found, last, hfound, hvalue⟩ := done_of_bind h
    cases hvalue
    obtain ⟨hsmall, hrest⟩ := done_of_little hfound
    have hbyte : first = 0xFE := UInt8.toNat_inj.1 hlarge
    rw [hrest, hbyte]
    exact ⟨_, .word hsmall, rfl⟩
  · rename_i hlarge
    cases h
    change first.toNat ≠ 255 at hend
    change first.toNat ≠ 254 at hlarge
    have hsmall : first.toNat < 254 := by omega
    have hform : SizeForm first.toNat [UInt8.ofNat first.toNat] := .byte hsmall
    rw [UInt8.ofNat_toNat] at hform
    exact ⟨[first], hform, rfl⟩

theorem endMark_of_length (h : length?.run cursor = .done none after) :
    cursor.rest = [0xFF] ++ after.rest := by
  obtain ⟨first, middle, hfirst, h⟩ := done_of_bind h
  rw [done_of_byte hfirst]
  dsimp only at h
  split at h
  · rename_i hend
    cases h
    have hbyte : first = 0xFF := UInt8.toNat_inj.1 hend
    rw [hbyte]
    rfl
  · split at h
    · obtain ⟨_, _, _, hvalue⟩ := done_of_bind h
      cases hvalue
    · cases h

theorem pairForm_of_done {pair : Bytes × Bytes} (h : pair?.run cursor = .done (some pair) after) :
    ∃ bytes, PairForm pair bytes ∧ cursor.rest = bytes ++ after.rest := by
  obtain ⟨fieldLength, second, hfieldLength, h⟩ := done_of_bind h
  cases fieldLength with
  | none => cases h
  | some fieldLength =>
      obtain ⟨field, third, hfield, h⟩ := done_of_bind h
      obtain ⟨valueLength, fourth, hvalueLength, h⟩ := done_of_bind h
      cases valueLength with
      | none => cases h
      | some valueLength =>
          obtain ⟨unused, fifth, hunused, h⟩ := done_of_bind h
          obtain ⟨value, sixth, hvalue, h⟩ := done_of_bind h
          obtain ⟨room, seventh, hroom, h⟩ := done_of_bind h
          cases h
          obtain ⟨front, hfront, hsecond⟩ := sizeForm_of_done hfieldLength
          obtain ⟨rfl, hthird⟩ := done_of_take hfield
          obtain ⟨back, hback, hfourth⟩ := sizeForm_of_done hvalueLength
          obtain ⟨rfl, hsixth⟩ := done_of_take hvalue
          obtain ⟨hunusedLength, hlast⟩ := done_of_take hroom
          refine ⟨_, .mk hfront hback hunusedLength, ?_⟩
          rw [hsecond, hthird, hfourth, done_of_byte hunused, hsixth, hlast]
          simp only [List.append_assoc, List.cons_append]

theorem endMark_of_done (h : pair?.run cursor = .done none after) :
    cursor.rest = [0xFF] ++ after.rest := by
  obtain ⟨fieldLength, second, hfieldLength, h⟩ := done_of_bind h
  cases fieldLength with
  | none =>
      cases h
      exact endMark_of_length hfieldLength
  | some fieldLength =>
      obtain ⟨field, third, _, h⟩ := done_of_bind h
      obtain ⟨valueLength, fourth, _, h⟩ := done_of_bind h
      cases valueLength with
      | none => cases h
      | some valueLength =>
          obtain ⟨_, _, _, h⟩ := done_of_bind h
          obtain ⟨_, _, _, h⟩ := done_of_bind h
          obtain ⟨_, _, _, h⟩ := done_of_bind h
          cases h

end Pairs

/-- What is read is a form of what it is read as. -/
theorem form_of_decode {blob : Bytes} {pairs : List (Bytes × Bytes)} (h : decode blob = .ok pairs) :
    Form pairs blob := by
  obtain ⟨after, h⟩ := done_of_readBlob h
  obtain ⟨declared, second, hdeclared, h⟩ := done_of_bind h
  obtain ⟨found, third, hfound, h⟩ := done_of_bind h
  split at h
  · rename_i hcount
    cases h
    have hrow : ∃ body, Row PairForm pairs body ∧
        second.rest = body ++ ([0xFF] ++ after.rest) := by
      refine done_of_collect (fun hrun => ?_) endMark_of_done hfound
      obtain ⟨bytes, hform, hrest⟩ := pairForm_of_done hrun
      exact ⟨bytes, hform.reads.1, hform, hrest⟩
    obtain ⟨body, hbody, hrest⟩ := hrow
    have hblob : blob = declared :: (body ++ [0xFF]) ++ after.rest := by
      have hfirst : blob = declared :: second.rest := done_of_byte hdeclared
      rw [hfirst, hrest]
      simp only [List.cons_append, List.append_assoc]
    rw [hblob]
    exact .mk hcount hbody
  · cases h

theorem decode_eq_ok_iff {blob : Bytes} {pairs : List (Bytes × Bytes)} :
    decode blob = .ok pairs ↔ Form pairs blob :=
  ⟨form_of_decode, Form.decode_eq⟩

/-! ### An end mark behind a field -/

theorem refuses_field {field front : Bytes} (hfront : SizeForm field.length front) :
    pair?.Refuses (.malformed .zipmapEnded) (front ++ (field ++ [0xFF])) := by
  have hend : length?.Reads none [0xFF] := Reads.byte_bind (Reads.pure none)
  refine hfront.reads.2.bind_refuses ?_
  refine Reads.bind_refuses (Reads.take rfl) ?_
  exact hend.bind_refuses Refuses.fail

theorem refuses_entries {pairs : List (Bytes × Bytes)} {body field front : Bytes} (declared : UInt8)
    (hbody : Row PairForm pairs body) (hfront : SizeForm field.length front) :
    entries.Refuses (.malformed .zipmapEnded)
      (declared :: (body ++ (front ++ (field ++ [0xFF])))) := by
  have hpairs := Refuses.collect (hbody.imp fun _ _ hform => hform.reads) (refuses_field hfront)
  exact (Reads.byte declared).bind_refuses hpairs.bind

/-- **Exactly the zipmaps.** What is read as pairs is a form of a zipmap with these pairs, and
everything else is malformed, as it is for want of a value if an end mark stands in front of one. -/
theorem zipmap_exact :
    (∀ blob pairs, decode blob = .ok pairs ↔ Form pairs blob) ∧
    (∀ blob, (¬ ∃ pairs, Form pairs blob) ↔ ∃ cause, decode blob = .error (.malformed cause)) ∧
    ∀ (declared : UInt8) (pairs : List (Bytes × Bytes)) (body front field more : Bytes),
      Row PairForm pairs body → SizeForm field.length front →
        decode (declared :: (body ++ (front ++ (field ++ [0xFF]))) ++ more) =
          .error (.malformed .zipmapEnded) := by
  refine ⟨fun _ _ => decode_eq_ok_iff, ?_, ?_⟩
  · intro blob
    rw [← (held_decode blob).malformed_iff]
    simp only [decode_eq_ok_iff]
  · intro declared pairs body front field more hbody hfront
    exact readBlob_of_refuses (refuses_entries declared hbody hfront) more

/-- Unused bytes that look like an end mark and a wide length, in a zipmap that something follows; and
an end mark in place of a value. -/
theorem zipmap_exact_room :
    decode [1, 1, 97, 1, 2, 120, 0xFF, 0xFE, 0xFF, 9] = .ok [([97], [120])] ∧
      Form [([97], [120])] [1, 1, 97, 1, 2, 120, 0xFF, 0xFE, 0xFF, 9] ∧
      Row PairForm [] [] ∧ SizeForm 1 [1] ∧
      decode [1, 1, 97, 0xFF, 2, 120, 0xFF] = .error (.malformed .zipmapEnded) := by
  obtain ⟨hexact, _, hended⟩ := zipmap_exact
  have hfound : decode [1, 1, 97, 1, 2, 120, 0xFF, 0xFE, 0xFF, 9] = .ok [([97], [120])] := by
    cbv
  have hsize : SizeForm 1 [1] := .byte (by decide)
  exact ⟨hfound, (hexact _ _).1 hfound, .nil, hsize, hended 1 [] [] [1] [97] [2, 120, 0xFF] .nil hsize⟩

end RedisSnapshot.Packed.Zipmap
