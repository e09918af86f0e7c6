import RedisSnapshot.Packed.Zipmap
import RedisSnapshot.Proofs.Forms.Field

/-!
# The forms of a zipmap

A field and a value stand behind their lengths, which may be wider than they need to be, and behind
a value there is room of any content that is not in use.
-/

namespace RedisSnapshot.Packed.Zipmap

open Decoder Reader

inductive SizeForm : Nat → Bytes → Prop where
  | byte {size : Nat} (h : size < largeMark) : SizeForm size [UInt8.ofNat size]
  | word {size : Nat} (h : size < Nat.pow 256 4) : SizeForm size (0xFE :: Word.toLittle 4 size)

inductive PairForm : Bytes × Bytes → Bytes → Prop where
  | mk {field value front back room : Bytes} {unused : UInt8}
      (hfield : SizeForm field.length front) (hvalue : SizeForm value.length back)
      (hroom : room.length = unused.toNat) :
      PairForm (field, value) (front ++ (field ++ (back ++ (unused :: (value ++ room)))))

inductive Form (pairs : List (Bytes × Bytes)) : Bytes → Prop where
  | mk {body more : Bytes} {declared : UInt8}
      (hdeclared : largeMark ≤ declared.toNat ∨ pairs.length = declared.toNat)
      (hbody : Row PairForm pairs body) : Form pairs (declared :: (body ++ [0xFF]) ++ more)

theorem SizeForm.reads {size : Nat} {bytes : Bytes} (h : SizeForm size bytes) :
    bytes ≠ [] ∧ length?.Reads (some size) bytes := by
  cases h with
  | byte h =>
      have hlarge : size ≠ largeMark := Nat.ne_of_lt h
      have hend : size ≠ endMark := Nat.ne_of_lt (Nat.lt_succ_of_lt h)
      have hfirst : (UInt8.ofNat size).toNat = size :=
        Word.toNat_byte (Nat.lt_trans h (by decide))
      refine ⟨by simp, ?_⟩
      apply Reads.byte_bind
      simp only [hfirst]
      rw [if_neg hend, if_neg hlarge]
      exact Reads.pure _
  | word h =>
      refine ⟨by simp, ?_⟩
      apply Reads.byte_bind
      rw [if_neg (by decide), if_pos (by decide)]
      exact (Reads.little h).bind_last (Reads.pure _)

theorem PairForm.reads {pair : Bytes × Bytes} {bytes : Bytes} (h : PairForm pair bytes) :
    bytes ≠ [] ∧ pair?.Reads (some pair) bytes := by
  obtain ⟨hfield, hvalue, hroom⟩ := h
  refine ⟨List.append_ne_nil_of_left_ne_nil hfield.reads.1 _, ?_⟩
  apply Reads.bind hfield.reads.2
  apply Reads.bind (Reads.take rfl)
  apply Reads.bind hvalue.reads.2
  apply Reads.byte_bind
  apply Reads.bind (Reads.take rfl)
  exact (Reads.take hroom).bind_last (Reads.pure _)

theorem reads_endMark : pair?.Reads none [0xFF] :=
  Reads.bind_last (Reads.byte_bind (Reads.pure none)) (Reads.pure none)

/-- **Zipmaps.** Every form of a zipmap is decoded to its pairs. -/
theorem Form.decode_eq {pairs : List (Bytes × Bytes)} {blob : Bytes} (h : Form pairs blob) :
    decode blob = .ok pairs := by
  obtain ⟨hdeclared, hbody⟩ := h
  apply readBlob_of_reads
  apply Reads.byte_bind
  apply Reads.bind_last (Reads.collect (hbody.imp fun _ _ hform => hform.reads) reads_endMark)
  rw [if_pos hdeclared]
  exact Reads.pure pairs

end RedisSnapshot.Packed.Zipmap
