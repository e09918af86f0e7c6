import RedisSnapshot.Packed.Intset
import RedisSnapshot.Proofs.Forms.Field

/-!
# The forms of an intset

All members have the same width, which is one that holds each of them.
-/

namespace RedisSnapshot.Packed.Intset

open Decoder Reader

inductive Form : List Bytes → Bytes → Prop where
  | mk {width : Nat} {values : List Int} {body more : Bytes}
      (hwidth : width = 2 ∨ width = 4 ∨ width = 8) (hcount : values.length < Nat.pow 256 4)
      (hbody : Row (IntegerForm width) values body) :
      Form (values.map Decimal.intBytes)
        (Word.toLittle 4 width ++ Word.toLittle 4 values.length ++ (body ++ more))

theorem reads_head {width count : Nat} (hwidth : width < Nat.pow 256 4)
    (hcount : count < Nat.pow 256 4) :
    head.Reads (width, count) (Word.toLittle 4 width ++ Word.toLittle 4 count) :=
  (Reads.little hwidth).bind ((Reads.little hcount).bind_last (Reads.pure _))

theorem reads_members {width : Nat} {values : List Int} {body : Bytes} (hwidth : 0 < width)
    (hbody : Row (IntegerForm width) values body) :
    (members width values.length).Reads (values.map Decimal.intBytes) body := by
  apply Reads.times _ (List.length_map _)
  exact hbody.map fun _ _ hform => (hform.reads hwidth).map Decimal.intBytes

/-- **Intsets.** Every form of an intset is decoded to the decimal text of its members. -/
theorem Form.decode_eq {elements : List Bytes} {blob : Bytes} (h : Form elements blob) :
    decode blob = .ok elements := by
  obtain @⟨width, values, body, more, hwidth, hcount, hbody⟩ := h
  have hpos : 0 < width := by omega
  have hlt : width < Nat.pow 256 4 := Nat.lt_of_le_of_lt (m := 8) (by omega) (by decide)
  have hlength : body.length = values.length * width :=
    hbody.length_eq fun _ _ hform => hform.length_eq
  have hrest : (Word.toLittle 4 width ++ Word.toLittle 4 values.length ++ (body ++ more)).drop 8 =
      body ++ more := List.drop_left' (by simp)
  rw [decode, readBlob_of_reads (reads_head hlt hcount), hrest]
  change (if _ then _ else _) = _
  rw [if_neg (by omega), if_neg (by rw [List.length_append]; omega)]
  exact readBlob_of_reads (reads_members hpos hbody) more

end RedisSnapshot.Packed.Intset
