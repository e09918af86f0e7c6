import Mathlib.Data.Nat.Digits.Defs
import RedisSnapshot.Decoder
import RedisSnapshot.Proofs.Forms.Word

/-!
# A place in a packed byte string

Whoever holds a packed byte string may go on after a read that was short. An operation finds all of
the bytes that it needs and goes behind them, or it changes nothing, and whatever came before it the
place stays within the bytes. Lengths come from the bytes and may be anything that a machine word
holds, also next to a place where the sum is no word any more.
-/

namespace RedisSnapshot

namespace Word

theorem little_eq_ofDigits (bytes : Bytes) :
    little bytes = Nat.ofDigits 256 (bytes.map UInt8.toNat) := by
  induction bytes with
  | nil => rfl
  | cons byte rest ih => rw [little, ih, List.map_cons, Nat.ofDigits_cons]

theorem big_eq_ofDigits (bytes : Bytes) :
    big bytes = Nat.ofDigits 256 (bytes.reverse.map UInt8.toNat) := by
  rw [← little_eq_ofDigits, ← big_reverse, List.reverse_reverse]

/-- The sum of two words, if it is a word. -/
def sum? (bits first second : Nat) : Option Nat :=
  if first + second < count bits then some (first + second) else none

end Word

/-! ### Readers of what is held -/

namespace Decoder

variable {α β γ : Type}

theorem reaches_decodeBlob (decoder : Decoder α) (cursor : Cursor) :
    cursor.Reaches (decodeBlob decoder cursor).2 := by
  have hreaches := decoder.reaches cursor
  unfold decodeBlob
  split <;> rename_i hrun <;> rwa [hrun] at hreaches

theorem decodeBlob_map (f : α → β) (decoder : Decoder α) (cursor : Cursor) :
    decodeBlob (f <$> decoder) cursor =
      ((decodeBlob decoder cursor).1.map f, (decodeBlob decoder cursor).2) := by
  change decodeBlob (decoder >>= fun value => pure (f value)) cursor = _
  unfold decodeBlob
  rw [Reader.run_bind]
  cases decoder.run cursor with
  | done value after => rfl
  | short need after => cases need <;> rfl
  | failed fault after => rfl

theorem decodeBlob_map_map (g : β → γ) (f : α → β) (decoder : Decoder α) (cursor : Cursor) :
    decodeBlob (g <$> f <$> decoder) cursor = decodeBlob ((g ∘ f) <$> decoder) cursor := by
  rw [decodeBlob_map, decodeBlob_map, decodeBlob_map]
  cases (decodeBlob decoder cursor).1 <;> rfl

theorem decodeBlob_take (count : Nat) (cursor : Cursor) :
    decodeBlob (Reader.take count) cursor =
      if count ≤ cursor.rest.length then
        (.ok (cursor.rest.take count), ⟨cursor.offset + count, cursor.rest.drop count⟩)
      else
        (.error (.malformed (.blobSpan count cursor.offset cursor.rest.length)), cursor) := by
  have hlength : (cursor.rest.take count).length = count ↔ count ≤ cursor.rest.length := by
    rw [List.length_take]
    omega
  unfold decodeBlob Reader.take
  by_cases h : count ≤ cursor.rest.length
  · simp only [if_pos (hlength.2 h), if_pos h]
  · simp only [if_neg (mt hlength.1 h), if_neg h]

theorem decodeBlob_map_take (f : Bytes → β) (count : Nat) (cursor : Cursor) :
    decodeBlob (f <$> Reader.take count) cursor =
      if count ≤ cursor.rest.length then
        (.ok (f (cursor.rest.take count)), ⟨cursor.offset + count, cursor.rest.drop count⟩)
      else
        (.error (.malformed (.blobSpan count cursor.offset cursor.rest.length)), cursor) := by
  rw [decodeBlob_map, decodeBlob_take]
  by_cases h : count ≤ cursor.rest.length
  · rw [if_pos h, if_pos h]
    rfl
  · rw [if_neg h, if_neg h]
    rfl

end Decoder

namespace Blob

/-! ### Operations -/

inductive Operation where
  | byte
  | slice (count : Nat)
  | skip (count : Nat)
  | little (width : Nat)
  | big (width : Nat)

inductive Answer where
  | number (value : Nat)
  | bytes (found : Bytes)
  | nothing
deriving DecidableEq

namespace Operation

def decoder : Operation → Decoder Answer
  | byte => (fun found => .number found.toNat) <$> Reader.byte
  | slice count => .bytes <$> Reader.take count
  | skip count => (fun _ => .nothing) <$> Reader.take count
  | little width => .number <$> Reader.little width
  | big width => .number <$> Reader.big width

def perform (operation : Operation) (cursor : Cursor) : Except Fault Answer × Cursor :=
  Decoder.decodeBlob operation.decoder cursor

/-- How many bytes an operation needs. -/
def need : Operation → Nat
  | byte => 1
  | slice count | skip count => count
  | little width | big width => width

/-- What the bytes that an operation needs are to it. -/
def answer : Operation → Bytes → Answer
  | byte, found | little _, found => .number (Nat.ofDigits 256 (found.map UInt8.toNat))
  | big _, found => .number (Nat.ofDigits 256 (found.reverse.map UInt8.toNat))
  | slice _, found => .bytes found
  | skip _, _ => .nothing

/-- What is said where the bytes do not suffice. -/
def shortage (operation : Operation) (cursor : Cursor) : Malformed :=
  match operation with
  | byte => .blobByte cursor.offset
  | slice _ | skip _ | little _ | big _ =>
      .blobSpan operation.need cursor.offset cursor.rest.length

/-- An operation answers with what it needs and goes behind it, or it leaves everything as it is. -/
theorem perform_eq (operation : Operation) (cursor : Cursor) :
    operation.perform cursor =
      if operation.need ≤ cursor.rest.length then
        (.ok (operation.answer (cursor.rest.take operation.need)),
          ⟨cursor.offset + operation.need, cursor.rest.drop operation.need⟩)
      else
        (.error (.malformed (operation.shortage cursor)), cursor) := by
  cases operation with
  | byte =>
      obtain ⟨offset, _ | ⟨found, rest⟩⟩ := cursor
      · rfl
      · have hneed : byte.need ≤ (found :: rest).length :=
          Nat.succ_le_succ (Nat.zero_le rest.length)
        rw [if_pos hneed]
        rfl
  | slice count => exact Decoder.decodeBlob_map_take Answer.bytes count cursor
  | skip count => exact Decoder.decodeBlob_map_take (fun _ => Answer.nothing) count cursor
  | little width =>
      simp only [answer, ← Word.little_eq_ofDigits]
      rw [perform, decoder, Reader.little, Decoder.decodeBlob_map_map]
      exact Decoder.decodeBlob_map_take (Answer.number ∘ Word.little) width cursor
  | big width =>
      simp only [answer, ← Word.big_eq_ofDigits]
      rw [perform, decoder, Reader.big, Decoder.decodeBlob_map_map]
      exact Decoder.decodeBlob_map_take (Answer.number ∘ Word.big) width cursor

theorem reaches_perform (operation : Operation) (cursor : Cursor) :
    cursor.Reaches (operation.perform cursor).2 :=
  Decoder.reaches_decodeBlob operation.decoder cursor

end Operation

/-! ### One operation after another -/

/-- The answers to operations one after another, of which none is left out after a fault, and the
place behind them all. -/
def performAll : List Operation → Cursor → List (Except Fault Answer) × Cursor
  | [], cursor => ([], cursor)
  | operation :: later, cursor =>
      let first := operation.perform cursor
      let others := performAll later first.2
      (first.1 :: others.1, others.2)

theorem performAll_append (earlier later : List Operation) (cursor : Cursor) :
    performAll (earlier ++ later) cursor =
      ((performAll earlier cursor).1 ++ (performAll later (performAll earlier cursor).2).1,
        (performAll later (performAll earlier cursor).2).2) := by
  induction earlier generalizing cursor with
  | nil => rfl
  | cons operation earlier ih => rw [List.cons_append, performAll, ih]; rfl

theorem reaches_performAll (operations : List Operation) (cursor : Cursor) :
    cursor.Reaches (performAll operations cursor).2 := by
  induction operations generalizing cursor with
  | nil => exact .refl cursor
  | cons operation later ih => exact (operation.reaches_perform cursor).trans (ih _)

/-- What lies before a place and what lies behind it are the bytes that are held. -/
theorem eq_drop_of_reaches {blob : Bytes} {place : Cursor} (h : (Cursor.start blob).Reaches place) :
    place.offset ≤ blob.length ∧ place.rest = blob.drop place.offset := by
  obtain ⟨used, hused, hoffset⟩ := h
  have hblob : blob = used ++ place.rest := hused
  have hplace : place.offset = used.length := hoffset.trans (Nat.zero_add _)
  rw [hblob, hplace, List.drop_left]
  exact ⟨by simp, rfl⟩

/-- The place behind so many bytes as the machine finds it: by a sum of two words that must be a
word again, and must not lie behind the last of the bytes. -/
def stop? (blob : Bytes) (place : Cursor) (need : Nat) : Option Nat :=
  (Word.sum? 64 place.offset need).filter (· ≤ blob.length)

theorem stop?_eq {blob : Bytes} {place : Cursor} (need : Nat) (hblob : blob.length < Word.count 64)
    (hplace : place.offset + place.rest.length = blob.length) :
    stop? blob place need =
      if need ≤ place.rest.length then some (place.offset + need) else none := by
  unfold stop? Word.sum?
  by_cases hneed : need ≤ place.rest.length
  · have hstop : place.offset + need ≤ blob.length := by omega
    have hword : place.offset + need < Word.count 64 := Nat.lt_of_le_of_lt hstop hblob
    rw [if_pos hneed, if_pos hword, Option.filter_some, if_pos (decide_eq_true hstop)]
  · have hstop : ¬ place.offset + need ≤ blob.length := by omega
    rw [if_neg hneed]
    -- A sum that is no word lies behind the bytes too, since their number is a word.
    by_cases hword : place.offset + need < Word.count 64
    · rw [if_pos hword, Option.filter_some, if_neg (by simpa using hstop)]
    · rw [if_neg hword, Option.filter_none]

/-- **Operations stay within the bytes and fail as a whole.** Whatever has been asked for before,
also in vain, what has been read and what remains are all of the bytes; another operation answers
with the bytes at its place exactly if what it needs remains, and then goes behind them; otherwise
it says what is missing and stays where it is. The sum that decides this in the machine comes to the
same, also where it is no word. -/
theorem performAll_snoc (blob : Bytes) (earlier : List Operation) (operation : Operation) :
    let answers := (performAll earlier (.start blob)).1
    let place := (performAll earlier (.start blob)).2
    place.offset ≤ blob.length ∧
      place.offset + place.rest.length = blob.length ∧
      performAll (earlier ++ [operation]) (.start blob) =
        (if operation.need ≤ place.rest.length then
          (answers ++
              [.ok (operation.answer ((blob.drop place.offset).take operation.need))],
            ⟨place.offset + operation.need, blob.drop (place.offset + operation.need)⟩)
        else
          (answers ++ [.error (.malformed (operation.shortage place))], place)) ∧
      (blob.length < Word.count 64 →
        stop? blob place operation.need =
          if operation.need ≤ place.rest.length then some (place.offset + operation.need)
          else none) := by
  intro answers place
  have hreaches : (Cursor.start blob).Reaches place := reaches_performAll earlier (.start blob)
  obtain ⟨hoffset, hrest⟩ := eq_drop_of_reaches hreaches
  have htotal : place.offset + place.rest.length = blob.length := by
    rw [hreaches.total_eq]
    exact Nat.zero_add _
  refine ⟨hoffset, htotal, ?_, fun hblob => stop?_eq operation.need hblob htotal⟩
  have hlast : performAll (earlier ++ [operation]) (.start blob) =
      (answers ++ [(operation.perform place).1], (operation.perform place).2) :=
    performAll_append earlier [operation] (.start blob)
  rw [hlast, operation.perform_eq]
  by_cases hneed : operation.need ≤ place.rest.length
  · rw [if_pos hneed, if_pos hneed, hrest, List.drop_drop]
  · rw [if_neg hneed, if_neg hneed]

/-- Two reads in vain, of which the second would end behind the last of all words. -/
theorem performAll_snoc_vain :
    let blob : Bytes := [1, 2, 3]
    let most : Nat := 0xFFFFFFFFFFFFFFFF
    blob.length < Word.count 64 ∧
      performAll ([.byte, .slice 3] ++ [.slice most]) (.start blob) =
        ([.ok (.number 1), .error (.malformed (.blobSpan 3 1 2)),
            .error (.malformed (.blobSpan most 1 2))], ⟨1, [2, 3]⟩) ∧
      stop? blob ⟨1, [2, 3]⟩ most = none := by
  intro blob most
  have hblob : blob.length < Word.count 64 := by decide
  have hplace : (performAll [.byte, .slice 3] (.start blob)).2 = ⟨1, [2, 3]⟩ := rfl
  obtain ⟨_, _, hlast, hstop⟩ := performAll_snoc blob [.byte, .slice 3] (.slice most)
  have hshort : ¬ most ≤ 2 := by decide
  rw [hplace] at hlast hstop
  exact ⟨hblob, hlast.trans (if_neg hshort), (hstop hblob).trans (if_neg hshort)⟩

end Blob

end RedisSnapshot
