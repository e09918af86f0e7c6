import RedisSnapshot.Proofs.Composed
import RedisSnapshot.Proofs.Reads

/-!
# Decoders look at no bytes but those that they take

Where a value stands in a snapshot shows in errors and nowhere else, and the bytes behind it do not
show at all. So a value that was decoded somewhere is decoded in the same way from the same bytes
wherever they stand.
-/

namespace RedisSnapshot

namespace Reader

variable {ε α β σ : Type}

/-- What the reader yields it reads from the bytes that it has taken. -/
def IsExact (reader : Reader ε α) : Prop :=
  ∀ (cursor after : Cursor) (value : α), reader.run cursor = .done value after →
    ∃ used, cursor.rest = used ++ after.rest ∧ reader.Reads value used

theorem IsExact.reads {reader : Reader ε α} {value : α} {encoded : Bytes} (h : reader.IsExact)
    (hrun : reader.run (.start encoded) = .done value ⟨encoded.length, []⟩) :
    reader.Reads value encoded := by
  obtain ⟨used, hused, hreads⟩ := h _ _ _ hrun
  have hall : encoded = used := hused.trans (List.append_nil used)
  rwa [hall]

theorem IsExact.pure (value : α) : (Pure.pure value : Reader ε α).IsExact := by
  intro cursor after found hrun
  cases hrun
  exact ⟨[], rfl, Reads.pure value⟩

theorem IsExact.bind {reader : Reader ε α} {next : α → Reader ε β} (h : reader.IsExact)
    (hnext : ∀ value, (next value).IsExact) : (reader >>= next).IsExact := by
  intro cursor after found hrun
  obtain ⟨value, middle, hfirst, hlater⟩ := done_of_bind hrun
  obtain ⟨front, hfront, hreads⟩ := h _ _ _ hfirst
  obtain ⟨back, hback, hnextReads⟩ := hnext value _ _ _ hlater
  exact ⟨front ++ back, by rw [hfront, hback, List.append_assoc], hreads.bind hnextReads⟩

theorem IsExact.map {reader : Reader ε α} (f : α → β) (h : reader.IsExact) :
    (f <$> reader).IsExact :=
  h.bind fun value => .pure (f value)

theorem IsExact.fail (fault : ε) : (Reader.fail fault : Reader ε α).IsExact := by
  intro cursor after found hrun
  cases hrun

/-- A reader that only asks where it is to say so in its error. -/
theorem IsExact.fail_at (fault : Nat → ε) :
    (Reader.offset >>= fun offset => Reader.fail (fault offset) : Reader ε α).IsExact := by
  intro cursor after found hrun
  cases hrun

theorem IsExact.ofExcept (result : Except ε α) : (Reader.ofExcept result).IsExact := by
  cases result with
  | ok value => exact .pure value
  | error fault => exact .fail fault

theorem IsExact.byte : (Reader.byte : Reader ε UInt8).IsExact := by
  rintro ⟨offset, _ | ⟨first, rest⟩⟩ after found hrun
  · cases hrun
  · cases hrun
    exact ⟨[first], rfl, Reads.byte first⟩

theorem IsExact.take (count : Nat) : (Reader.take count : Reader ε Bytes).IsExact := by
  intro cursor after found hrun
  simp only [Reader.take] at hrun
  split at hrun
  · rename_i hlength
    cases hrun
    exact ⟨cursor.rest.take count, (List.take_append_drop count cursor.rest).symm,
      Reads.take hlength⟩
  · cases hrun

theorem IsExact.iterate {step : σ → Reader ε σ} (h : ∀ state, (step state).IsExact) (count : Nat)
    (state : σ) : (Reader.iterate step count state).IsExact := by
  induction count generalizing state with
  | zero => exact .pure state
  | succ count ih => exact .bind (h state) ih

end Reader

namespace Decoder

open Reader

theorem isExact_announced : announced.IsExact := by
  refine .bind .byte fun first => ?_
  dsimp only
  split
  · exact .pure _
  · exact .bind .byte fun _ => .pure _
  · split
    · exact .bind (.map _ (.take 4)) fun _ => .pure _
    · split
      · exact .bind (.map _ (.take 8)) fun _ => .pure _
      · exact .fail_at _
  · exact .pure _

theorem isExact_length : length.IsExact := by
  refine .bind isExact_announced fun found => ?_
  cases found with
  | length count => exact .pure count
  | literal kind => exact .fail_at _

theorem isExact_allocate (count : Nat) : (allocate count).IsExact := by
  unfold allocate
  split
  · exact .fail _
  · exact .take count

theorem isExact_string : string.IsExact := by
  refine .bind isExact_announced fun found => ?_
  split
  · exact isExact_allocate _
  · exact .bind (.map _ (.take 1)) fun _ => .pure _
  · exact .bind (.map _ (.take 2)) fun _ => .pure _
  · exact .bind (.map _ (.take 4)) fun _ => .pure _
  · refine .bind isExact_length fun compressed => .bind isExact_length fun full => ?_
    exact .bind (isExact_allocate compressed) fun _ => .ofExcept _
  · exact .fail_at _

/-- **No decoder looks ahead.** -/
theorem Composed.isExact {α : Type} {decoder : Decoder α} (h : Composed decoder) :
    decoder.IsExact := by
  induction h with
  | length => exact isExact_length
  | string => exact isExact_string
  | byte => exact .byte
  | take count => exact .take count
  | malformed cause => exact .fail _
  | malformed_at cause => exact .fail_at _
  | ofExcept _ => exact .ofExcept _
  | pure value => exact .pure value
  | bind _ _ ih ihnext => exact .bind ih ihnext
  | iterate _ count state ih => exact .iterate ih count state

end Decoder

end RedisSnapshot
