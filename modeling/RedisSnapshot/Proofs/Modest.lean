import RedisSnapshot.Proofs.Reads
import RedisSnapshot.Value

/-!
# Decoders that never want for memory

A packed container lies in memory as a whole. Whatever it declares, its decoders take no more than
what it has, so whatever is wrong with it is found out and told. The same holds of lengths
themselves, and of every step by which something is made of bytes that have been read.
-/

namespace RedisSnapshot

/-- The fault is one of the bytes and not of the room that they would take. -/
def Fault.IsMalformed : Fault → Prop
  | malformed _ => True
  | beyondMemory _ => False

/-- The result is not an error for want of memory. -/
def Held {α : Type} (result : Except Fault α) : Prop :=
  ∀ fault, result = .error fault → fault.IsMalformed

namespace Decoder

open Reader

/-- The decoder never fails for want of memory. -/
def IsModest {α : Type} (decoder : Decoder α) : Prop :=
  ∀ (cursor after : Cursor) (fault : Fault),
    decoder.run cursor = .failed fault after → fault.IsMalformed

namespace IsModest

variable {α β σ : Type} {decoder : Decoder α}

theorem pure (value : α) : (Pure.pure value : Decoder α).IsModest := by
  intro cursor after fault hrun
  cases hrun

theorem malformed (cause : Malformed) : (malformed cause : Decoder α).IsModest := by
  intro cursor after fault hrun
  cases hrun
  trivial

theorem malformed_at (cause : Nat → Malformed) :
    IsModest (offset >>= fun offset => Decoder.malformed (cause offset) : Decoder α) := by
  intro cursor after fault hrun
  cases hrun
  trivial

theorem ofExcept {result : Except Fault α} (h : Held result) :
    IsModest (Reader.ofExcept result) := by
  cases result with
  | ok value => exact pure value
  | error found =>
      intro cursor after fault hrun
      cases hrun
      exact h _ rfl

theorem byte : IsModest Reader.byte := by
  rintro ⟨offset, _ | ⟨first, rest⟩⟩ after fault hrun <;> cases hrun

theorem take (count : Nat) : IsModest (Reader.take count) := by
  intro cursor after fault hrun
  simp only [Reader.take] at hrun
  split at hrun <;> cases hrun

theorem bind {next : α → Decoder β} (h : decoder.IsModest)
    (hnext : ∀ value, (next value).IsModest) : IsModest (decoder >>= next) := by
  intro cursor after fault hrun
  rcases failed_of_bind hrun with hfirst | ⟨value, middle, _, hlater⟩
  · exact h _ _ _ hfirst
  · exact hnext value _ _ _ hlater

theorem map (f : α → β) (h : decoder.IsModest) : IsModest (f <$> decoder) :=
  h.bind fun value => .pure (f value)

theorem iterate {step : σ → Decoder σ} (h : ∀ state, (step state).IsModest) (count : Nat)
    (state : σ) : IsModest (Reader.iterate step count state) := by
  induction count generalizing state with
  | zero => exact .pure state
  | succ count ih => exact .bind (h state) ih

theorem times (h : decoder.IsModest) (count : Nat) : IsModest (Reader.times count decoder) :=
  (iterate (fun found => h.map (· :: found)) count []).map _

theorem untilDone {step : σ → Decoder (σ × Bool)} (h : ∀ state, (step state).IsModest)
    (state : σ) : IsModest (Reader.untilDone step state) := by
  intro cursor after fault hrun
  change untilDoneRun step state cursor = _ at hrun
  fun_induction untilDoneRun step state cursor with
  | case1 state cursor later next heq _ ih => exact ih hrun
  | case2 | case3 | case4 => cases hrun
  | case5 state cursor found next heq =>
      cases hrun
      exact h state _ _ _ heq

theorem collect {next? : Decoder (Option α)} (h : next?.IsModest) :
    IsModest (Reader.collect next?) := by
  refine (untilDone (fun found => h.bind fun next => ?_) []).map _
  cases next with
  | some value => exact .pure _
  | none => exact .pure _

end IsModest

theorem isModest_announced : announced.IsModest := by
  refine .bind .byte fun first => ?_
  dsimp only
  split
  · exact .pure _
  · exact .bind .byte fun _ => .pure _
  · split
    · exact .bind (.map _ (.take 4)) fun _ => .pure _
    · split
      · exact .bind (.map _ (.take 8)) fun _ => .pure _
      · exact .malformed_at _
  · exact .pure _

theorem isModest_length : length.IsModest := by
  refine .bind isModest_announced fun found => ?_
  cases found with
  | length count => exact .pure count
  | literal kind => exact .malformed_at _

end Decoder

namespace Held

variable {α β : Type}

theorem ok (value : α) : Held (.ok value) :=
  nofun

theorem malformed (cause : Malformed) : Held (.error (.malformed cause) : Except Fault α) := by
  rintro _ ⟨⟩
  trivial

theorem bind {result : Except Fault α} {next : α → Except Fault β} (h : Held result)
    (hnext : ∀ value, Held (next value)) : Held (result >>= next) := by
  cases result with
  | ok value => exact hnext value
  | error fault =>
      rintro _ ⟨⟩
      exact h fault rfl

theorem mapM {f : α → Except Fault β} (h : ∀ value, Held (f value)) (values : List α) :
    Held (values.mapM f) := by
  induction values with
  | nil => exact .ok []
  | cons value values ih =>
      rw [List.mapM_cons]
      exact (h value).bind fun _ => ih.bind fun _ => .ok _

theorem readBlob {decoder : Decoder α} (h : decoder.IsModest) (blob : Bytes) :
    Held (Decoder.readBlob decoder blob) := by
  unfold Decoder.readBlob Decoder.decodeBlob
  split
  · exact .ok _
  · exact .malformed _
  · exact .malformed _
  · rename_i fault after hrun
    rintro _ ⟨⟩
    exact h _ _ _ hrun

/-- Where memory is no matter, there is a value or something is malformed. -/
theorem malformed_iff {result : Except Fault α} (h : Held result) :
    (¬ ∃ value, result = .ok value) ↔ ∃ cause, result = .error (.malformed cause) := by
  cases result with
  | ok value => simp
  | error fault =>
      cases fault with
      | malformed cause => simp
      | beyondMemory length => exact (h _ rfl).elim

end Held

theorem Binary64.held_ofText (text : Bytes) : Held (Binary64.ofText text) := by
  unfold Binary64.ofText
  split
  · exact .malformed _
  · split
    · exact .ok _
    · exact .malformed _

theorem Decoder.held_scores (pairs : List (Bytes × Bytes)) : Held (scores pairs) := by
  refine Held.mapM (fun pair => ?_) pairs
  exact (Binary64.held_ofText pair.2).bind fun _ => .ok _

theorem Stream.held_decodeNode (master : StreamId) (entries : List Bytes) :
    Held (Stream.decodeNode master entries) := by
  unfold Stream.decodeNode
  split
  · exact .ok _
  · exact .malformed _

namespace Packed

open Reader Decoder

theorem held_pairs (entries : List Bytes) : Held (pairs entries) := by
  unfold pairs
  split
  · exact .ok _
  · exact .malformed _

namespace Intset

theorem isModest_head : head.IsModest :=
  .bind (.map _ (.take 4)) fun _ => .bind (.map _ (.take 4)) fun _ => .pure _

theorem held_decode (blob : Bytes) : Held (decode blob) := by
  refine (Held.readBlob isModest_head blob).bind fun found => ?_
  dsimp only
  split
  · exact .malformed _
  · split
    · exact .malformed _
    · exact .readBlob (.times (.map _ (.map _ (.take _))) _) _

end Intset

namespace Ziplist

theorem isModest_integer (encoding : UInt8) : (integer encoding).IsModest := by
  unfold integer
  split
  · exact .map _ (.take 2)
  split
  · exact .map _ (.take 4)
  split
  · exact .map _ (.take 8)
  split
  · exact .map _ (.take 3)
  split
  · exact .map _ .byte
  split
  · exact .pure _
  · exact .malformed _

theorem isModest_entry : entry.IsModest := by
  refine .bind .byte fun encoding => ?_
  dsimp only
  split
  · exact .take _
  · exact .bind .byte fun _ => .take _
  · exact .bind (.map _ (.take 4)) fun _ => .take _
  · exact .bind (isModest_integer _) fun _ => .pure _

theorem isModest_entry? : entry?.IsModest := by
  refine .bind .byte fun previous => ?_
  split
  · exact .pure _
  · split
    · exact .bind (.take 4) fun _ => .bind isModest_entry fun _ => .pure _
    · exact .bind isModest_entry fun _ => .pure _

theorem isModest_countedStep (declared : Nat) (found : List Bytes) :
    (countedStep declared found).IsModest := by
  refine .bind isModest_entry? fun next => ?_
  cases next with
  | some value => exact .pure _
  | none => exact .malformed _

theorem isModest_entries : entries.IsModest := by
  refine .bind (.take 4) fun _ => .bind (.take 4) fun _ => .bind (.map _ (.take 2)) fun count => ?_
  split
  · exact .collect isModest_entry?
  · refine .bind (.iterate (isModest_countedStep count) count []) fun _ => .bind .byte fun _ => ?_
    split
    · exact .pure _
    · exact .malformed _

theorem held_decode (blob : Bytes) : Held (decode blob) :=
  .readBlob isModest_entries blob

theorem held_decodePairs (blob : Bytes) : Held (decodePairs blob) :=
  (held_decode blob).bind held_pairs

end Ziplist

namespace Listpack

theorem isModest_sized (first : UInt8) : (sized first).IsModest := by
  unfold sized
  dsimp only
  split
  · exact .pure _
  split
  · exact .bind (.take _) fun _ => .pure _
  split
  · exact .bind .byte fun _ => .pure _
  split
  · exact .bind .byte fun _ => .bind (.take _) fun _ => .pure _
  split
  · exact .bind (.map _ (.take 4)) fun _ => .bind (.take _) fun _ => .pure _
  split
  · exact .bind (.map _ (.take 2)) fun _ => .pure _
  split
  · exact .bind (.map _ (.take 3)) fun _ => .pure _
  split
  · exact .bind (.map _ (.take 4)) fun _ => .pure _
  split
  · exact .bind (.map _ (.take 8)) fun _ => .pure _
  · exact .malformed _

theorem isModest_entry? : entry?.IsModest := by
  refine .bind .byte fun first => ?_
  split
  · exact .pure _
  · exact .bind (isModest_sized first) fun _ => .bind (.take _) fun _ => .pure _

theorem isModest_entries : entries.IsModest := by
  refine .bind (.take 4) fun _ => .bind (.map _ (.take 2)) fun declared => ?_
  refine .bind (.collect isModest_entry?) fun found => ?_
  split
  · exact .pure _
  · exact .malformed _

theorem held_decode (blob : Bytes) : Held (decode blob) :=
  .readBlob isModest_entries blob

theorem held_decodePairs (blob : Bytes) : Held (decodePairs blob) :=
  (held_decode blob).bind held_pairs

end Listpack

namespace Zipmap

theorem isModest_length? : length?.IsModest := by
  refine .bind .byte fun first => ?_
  dsimp only
  split
  · exact .pure _
  · split
    · exact .bind (.map _ (.take 4)) fun _ => .pure _
    · exact .pure _

theorem isModest_pair? : pair?.IsModest := by
  refine .bind isModest_length? fun fieldLength => ?_
  split
  · refine .bind (.take _) fun _ => .bind isModest_length? fun valueLength => ?_
    split
    · exact .bind .byte fun _ => .bind (.take _) fun _ => .bind (.take _) fun _ => .pure _
    · exact .malformed _
  · exact .pure _

theorem isModest_entries : entries.IsModest := by
  refine .bind .byte fun first => .bind (.collect isModest_pair?) fun found => ?_
  split
  · exact .pure _
  · exact .malformed _

theorem held_decode (blob : Bytes) : Held (decode blob) :=
  .readBlob isModest_entries blob

end Zipmap

end Packed

end RedisSnapshot
