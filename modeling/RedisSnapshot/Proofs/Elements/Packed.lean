import RedisSnapshot.Proofs.Accepted.Listpack
import RedisSnapshot.Proofs.Accepted.String
import RedisSnapshot.Proofs.Accepted.Ziplist
import RedisSnapshot.Proofs.Accepted.Zipmap
import RedisSnapshot.Proofs.Decimal
import RedisSnapshot.Proofs.Forms.Packed.Pairs

/-!
# How many elements bytes can hold

Every entry of a packed container takes two bytes of it at least, whatever number of them the
container declares: one says what the entry is, and another measures this entry or the one before
it. A compressed string is no more than eighty-eight times as long as its tokens, because a
reference in three bytes brings 264 at the most. Together they bound the elements behind a string in
a snapshot by the bytes of the string there.
-/

namespace RedisSnapshot

namespace Lzf

/-- Three bytes that bring 264 are the best that a token can do. -/
theorem Token.Brings.length_le {output added : Bytes} {token : Token}
    (h : token.Brings output added) : added.length ≤ 88 * token.bytes.length := by
  cases h with
  | literal hpos hle =>
      rw [Token.bytes, List.length_cons]
      omega
  | reference hshortest hlongest _ _ _ hlength _ =>
      rw [Token.bytes]
      split
      · change _ ≤ 88 * 2
        omega
      · change _ ≤ 88 * 3
        omega

theorem Expands.length_final_le {output final : Bytes} {tokens : List Token}
    (h : Expands output tokens final) :
    final.length ≤ output.length + 88 * (tokens.flatMap Token.bytes).length := by
  induction h with
  | nil => exact Nat.le_add_right _ _
  | cons head _ ih =>
      have hadded := head.length_le
      rw [List.length_append] at ih
      rw [List.flatMap_cons, List.length_append]
      omega

theorem Compresses.length_le {encoded value : Bytes} (h : Compresses encoded value) :
    value.length ≤ 88 * encoded.length := by
  obtain ⟨tokens, hexpands, rfl⟩ := h
  have hfinal := hexpands.length_final_le
  rwa [List.length_nil, Nat.zero_add] at hfinal

end Lzf

namespace Decimal

theorem length_digits_le {n width : Nat} (hpos : 0 < width) (h : n < 10 ^ width) :
    (digits n).length ≤ width := by
  by_cases hzero : n = 0
  · subst hzero
    rw [digits, if_pos (by decide)]
    exact hpos
  · have hpower : 10 ^ ((digits n).length - 1) < 10 ^ width :=
      Nat.lt_of_le_of_lt (pow_length_le (Nat.pos_of_ne_zero hzero)) h
    have hlength := (Nat.pow_lt_pow_iff_right (by decide)).1 hpower
    omega

theorem length_intBytes_le {m : Int} {width : Nat} (hpos : 0 < width)
    (hlow : -((10 ^ width : Nat) : Int) < m) (hhigh : m < (10 ^ width : Nat)) :
    (intBytes m).length ≤ width + 1 := by
  cases m with
  | ofNat n =>
      rw [intBytes, bytes, List.length_map]
      exact Nat.le_succ_of_le (length_digits_le hpos (Int.ofNat_lt.1 hhigh))
  | negSucc n =>
      rw [intBytes, List.length_cons, bytes, List.length_map]
      exact Nat.succ_le_succ (length_digits_le hpos (by omega))

end Decimal

/-! ### Strings -/

theorem LengthForm.length_pos {count : Nat} {bytes : Bytes} (h : LengthForm count bytes) :
    0 < bytes.length := by
  cases h <;> exact Nat.succ_pos _

/-- An integer of at most four bytes has no more than eleven characters. -/
theorem IntegerForm.length_intBytes_le {width : Nat} {value : Int} {bytes : Bytes}
    (h : IntegerForm width value bytes) (hwidth : width ≤ 4) :
    (Decimal.intBytes value).length ≤ 11 := by
  obtain ⟨⟨hlow, hhigh⟩, _⟩ := h
  have hcount : Word.count (8 * width - 1) ≤ Word.count 31 :=
    Nat.pow_le_pow_right (by decide) (by omega)
  have hlarge : Word.count 31 < 10 ^ 10 := by decide
  exact Decimal.length_intBytes_le (by decide) (by omega) (by omega)

/-- Eighty-eight for every byte of its form are enough for all bytes of a string, and another
eighty-eight are left over. -/
theorem StringForm.length_le {value bytes : Bytes} (h : StringForm value bytes) :
    88 + value.length ≤ 88 * bytes.length := by
  cases h with
  | plain hlength _ =>
      have hpos := hlength.length_pos
      rw [List.length_append]
      omega
  | byte h | short h | word h =>
      have htext := h.length_intBytes_le (by decide)
      rw [List.length_cons, h.length_eq]
      omega
  | compressed hpacked _ _ _ _ =>
      have hfull := hpacked.length_le
      rw [List.length_cons, List.length_append, List.length_append]
      omega

/-! ### Packed containers -/

namespace Packed

theorem ok_of_bind {α β : Type} {result : Except Fault α} {next : α → Except Fault β} {value : β}
    (h : result >>= next = .ok value) : ∃ first, result = .ok first ∧ next first = .ok value := by
  cases result with
  | ok first => exact ⟨first, rfl, h⟩
  | error fault => cases h

theorem length_of_pairs {entries : List Bytes} {found : List (Bytes × Bytes)}
    (h : pairs entries = .ok found) : entries.length = 2 * found.length := by
  unfold pairs at h
  split at h
  · rename_i heven
    cases h
    calc entries.length = (flatten (pairUp entries)).length := by rw [flatten_pairUp heven]
      _ = 2 * (pairUp entries).length := length_flatten _
  · cases h

/-- A pair has what two entries take. -/
theorem four_mul_length_of_pairs {decode : Bytes → Except Fault (List Bytes)} {blob : Bytes}
    {found : List (Bytes × Bytes)}
    (hdecode : ∀ {entries}, decode blob = .ok entries → 2 * entries.length ≤ blob.length)
    (h : decode blob >>= pairs = .ok found) : 4 * found.length ≤ blob.length := by
  obtain ⟨entries, hentries, hpairs⟩ := ok_of_bind h
  have hle := hdecode hentries
  have hlength := length_of_pairs hpairs
  omega

namespace Ziplist

theorem ContentForm.length_pos {element bytes : Bytes} (h : ContentForm element bytes) :
    0 < bytes.length := by
  cases h <;> exact Nat.succ_pos _

theorem EntryForm.two_le_length {element bytes : Bytes} (h : EntryForm element bytes) :
    2 ≤ bytes.length := by
  obtain @⟨previous, content, hprevious, hcontent⟩ := h
  have hfront : 0 < previous.length := by
    cases hprevious <;> exact Nat.succ_pos _
  have hback := hcontent.length_pos
  rw [List.length_append]
  omega

theorem two_mul_length_le {blob : Bytes} {elements : List Bytes} (h : decode blob = .ok elements) :
    2 * elements.length ≤ blob.length := by
  obtain ⟨_, _, _, hbody⟩ := form_of_decode h
  have hle := hbody.mul_length_le fun _ _ => EntryForm.two_le_length
  simp only [List.length_append]
  omega

theorem four_mul_length_le {blob : Bytes} {found : List (Bytes × Bytes)}
    (h : decodePairs blob = .ok found) : 4 * found.length ≤ blob.length :=
  four_mul_length_of_pairs two_mul_length_le h

end Ziplist

namespace Listpack

theorem backLengthWidth_pos (size : Nat) : 0 < backLengthWidth size := by
  generalize hwidth : backLengthWidth size = width
  cases backLengthWidth_eq_iff.1 hwidth <;> decide

/-- The field behind an entry is there even if the entry is only a header. -/
theorem EntryForm.two_le_length {element bytes : Bytes} (h : EntryForm element bytes) :
    2 ≤ bytes.length := by
  obtain @⟨content, back, hcontent, hback⟩ := h
  obtain ⟨first, rest, rfl, _⟩ := hcontent.reads
  have hwidth := backLengthWidth_pos (first :: rest).length
  rw [List.length_append, List.length_cons]
  omega

theorem two_mul_length_le {blob : Bytes} {elements : List Bytes} (h : decode blob = .ok elements) :
    2 * elements.length ≤ blob.length := by
  obtain ⟨_, _, _, hbody⟩ := form_of_decode h
  have hle := hbody.mul_length_le fun _ _ => EntryForm.two_le_length
  simp only [List.length_append]
  omega

theorem four_mul_length_le {blob : Bytes} {found : List (Bytes × Bytes)}
    (h : decodePairs blob = .ok found) : 4 * found.length ≤ blob.length :=
  four_mul_length_of_pairs two_mul_length_le h

end Listpack

namespace Zipmap

theorem SizeForm.length_pos {size : Nat} {bytes : Bytes} (h : SizeForm size bytes) :
    0 < bytes.length :=
  List.length_pos_iff.2 h.reads.1

/-- Two lengths and the number of unused bytes are there even if field and value are empty. -/
theorem PairForm.three_le_length {pair : Bytes × Bytes} {bytes : Bytes} (h : PairForm pair bytes) :
    3 ≤ bytes.length := by
  obtain ⟨hfield, hvalue, _⟩ := h
  have hfront := hfield.length_pos
  have hback := hvalue.length_pos
  simp only [List.length_append, List.length_cons]
  omega

theorem three_mul_length_le {blob : Bytes} {found : List (Bytes × Bytes)}
    (h : decode blob = .ok found) : 3 * found.length ≤ blob.length := by
  obtain ⟨_, hbody⟩ := form_of_decode h
  have hle := hbody.mul_length_le fun _ _ => PairForm.three_le_length
  simp only [List.length_append, List.length_cons]
  omega

end Zipmap

namespace Intset

open Decoder Reader

theorem length_of_members {width count : Nat} {blob : Bytes} {found : List Bytes}
    (h : readBlob (members width count) blob = .ok found) : found.length = count := by
  obtain ⟨after, hrun⟩ := done_of_readBlob h
  have hmember : ∀ {member : Bytes} {cursor after : Cursor},
      (Decimal.intBytes <$> signedLittle width : Decoder Bytes).run cursor = .done member after →
        ∃ used : Bytes, True ∧ cursor.rest = used ++ after.rest := by
    intro member cursor after hvalue
    have hreaches := (Decimal.intBytes <$> signedLittle width : Decoder Bytes).reaches cursor
    rw [hvalue] at hreaches
    obtain ⟨used, hused, _⟩ := hreaches
    exact ⟨used, trivial, hused⟩
  exact (done_of_times hmember hrun).1

/-- The declared number of members is believed only if the bytes that are there suffice for it. -/
theorem two_mul_length_le {blob : Bytes} {found : List Bytes} (h : decode blob = .ok found) :
    2 * found.length ≤ blob.length := by
  obtain ⟨⟨width, count⟩, _, h⟩ := ok_of_bind h
  dsimp only at h
  split at h
  · cases h
  · rename_i hwidth
    split at h
    · cases h
    · rename_i hroom
      rw [List.length_drop] at hroom
      rw [length_of_members h]
      have hleast : 2 * count ≤ count * width := by
        rw [Nat.mul_comm count]
        exact Nat.mul_le_mul_right count (by omega)
      omega

end Intset

end Packed

end RedisSnapshot
