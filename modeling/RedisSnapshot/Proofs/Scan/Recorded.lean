import RedisSnapshot.Snapshot

/-!
# What a scan tells

The receiver here takes every record, is never cancelled and writes down all it is told. What it has
written down in the end is what any scan that is not interfered with tells its receiver.
-/

namespace RedisSnapshot.Scan

inductive Event where
  | record (record : Record)
  | finished

def recorder : Receiver (StateM (List Event)) where
  take record := fun told => (.ok (), told ++ [.record record])
  finish := fun told => (.ok (), told ++ [.finished])
  isCancelled := fun told => (false, told)

def recordedItems (withAux : Bool) (source : Source) (banner : String) (progress : Progress)
    (cursor : Cursor) (told : List Event) : Scan × List Event :=
  (items recorder withAux source banner progress cursor).run told

/-- A whole scan, and everything that it has told in the order in which it was told. -/
def recorded (withAux : Bool) (source : Source) : Scan × List Event :=
  (run recorder withAux source).run []

theorem deliver_recorder (records : List Record) (told : List Event) :
    deliver recorder records told = (.ok (), told ++ records.map .record) := by
  induction records generalizing told with
  | nil =>
      rw [List.map_nil, List.append_nil]
      rfl
  | cons record records ih =>
      change deliver recorder records (told ++ [.record record]) = _
      rw [ih, List.map_cons, List.append_assoc, List.singleton_append]

section Items

variable {withAux : Bool} {source : Source} {banner : String} {progress : Progress}
  {cursor after : Cursor} {told : List Event}

theorem isCancelled_recorder : recorder.isCancelled = pure false :=
  rfl

theorem recordedItems_of_short {need : Need} (h : Item.decoder.run cursor = .short need after) :
    recordedItems withAux source banner progress cursor told =
      (⟨.error (source.shortage after.offset), banner, progress.keys, after.offset⟩, told) := by
  rw [recordedItems, items, isCancelled_recorder, pure_bind, if_neg (by decide)]
  split <;> rename_i heq <;> rw [h] at heq <;> cases heq
  rfl

theorem recordedItems_of_failed {fault : Fault} (h : Item.decoder.run cursor = .failed fault after) :
    recordedItems withAux source banner progress cursor told =
      (⟨.error fault.error, banner, progress.keys, after.offset⟩, told) := by
  rw [recordedItems, items, isCancelled_recorder, pure_bind, if_neg (by decide)]
  split <;> rename_i heq <;> rw [h] at heq <;> cases heq
  rfl

theorem recordedItems_of_ending (h : Item.decoder.run cursor = .done .ending after) :
    recordedItems withAux source banner progress cursor told =
      (⟨.ok (), banner, progress.keys, after.offset⟩, told ++ [.finished]) := by
  rw [recordedItems, items, isCancelled_recorder, pure_bind, if_neg (by decide)]
  split
  · simp_all
  · simp_all
  · rename_i heq
    rw [h] at heq
    cases heq
    rfl
  · simp_all

theorem recordedItems_of_item {item : Item} (h : Item.decoder.run cursor = .done item after)
    (hitem : item ≠ .ending) :
    recordedItems withAux source banner progress cursor told =
      recordedItems withAux source banner (progress.advance withAux item).1 after
        (told ++ (progress.advance withAux item).2.map .record) := by
  rw [recordedItems, items, isCancelled_recorder, pure_bind, if_neg (by decide)]
  split
  · simp_all
  · simp_all
  · simp_all
  · rename_i heq
    rw [h] at heq
    cases heq
    rw [StateT.run_bind]
    change (deliver recorder _ told >>= _) = _
    rw [deliver_recorder]
    rfl

end Items

section Header

variable {withAux : Bool} {source : Source} {after : Cursor}

theorem recorded_of_short {need : Need} (h : Decoder.header.run source.start = .short need after) :
    recorded withAux source =
      (⟨.error (source.shortage after.offset), none, 0, after.offset⟩, []) := by
  rw [recorded, run, Source.decode, h]
  rfl

theorem recorded_of_failed {fault : Fault}
    (h : Decoder.header.run source.start = .failed fault after) :
    recorded withAux source = (⟨.error fault.error, none, 0, after.offset⟩, []) := by
  rw [recorded, run, Source.decode, h]
  rfl

theorem recorded_of_header {header : Bytes}
    (h : Decoder.header.run source.start = .done header after) :
    recorded withAux source = recordedItems withAux source (Text.lossy header) .start after [] := by
  rw [recorded, run, Source.decode, h]
  rfl

end Header

end RedisSnapshot.Scan
