import Mathlib.Data.List.Forall2
import RedisSnapshot.Proofs.Lines.Full
import RedisSnapshot.Proofs.Lines.Shown

/-!
# Lines are framed, and each is its record

No text of a document has a line end in it, whatever bytes are in the names and values, so that what
was written comes apart at its line ends into one line for each record. Each line is read back, as a
document that shows its record.
-/

namespace RedisSnapshot

/-- A line that holds nothing below the blank and is an object that shows the record. -/
def Record.IsLine (record : Record) (line : Bytes) : Prop :=
  (∀ byte ∈ line, 0x20 ≤ byte.toNat) ∧
    ∃ members, Document.ofBytes? line = some (.object members) ∧ record.IsShown members

theorem Record.isLine (record : Record) : record.IsLine (Text.bytes record.jsonLine) := by
  obtain ⟨members, hdocument, hshown⟩ := record.exists_shown
  refine ⟨Text.le_of_mem_bytes record.json.printable_text, members, ?_, hshown⟩
  rw [jsonLine, Json.ofBytes?_text, hdocument]

namespace LineForm

/-- What is written as lines comes apart into what each line comes apart into, with nothing behind
the last one. -/
theorem splitOn_lines (form : LineForm) (records : List Record) :
    (form.lines records).splitOn 10 =
      (records.flatMap fun record => (Text.bytes (form.line record)).splitOn 10) ++ [[]] := by
  induction records with
  | nil => rfl
  | cons record records ih =>
      have hlines : form.lines (record :: records) =
          Text.bytes (form.line record) ++ 10 :: form.lines records := by
        rw [lines, List.flatMap_cons, List.append_assoc]
        rfl
      rw [hlines, List.splitOn_append_cons_self, ih, List.flatMap_cons, List.append_assoc]

theorem splitOn_lines_of_not_mem {form : LineForm} {records : List Record}
    (h : ∀ record ∈ records, 10 ∉ Text.bytes (form.line record)) :
    (form.lines records).splitOn 10 =
      (records.map fun record => Text.bytes (form.line record)) ++ [[]] := by
  have hwhole : ∀ record ∈ records, (Text.bytes (form.line record)).splitOn 10 =
      [Text.bytes (form.line record)] := fun record hmem => List.splitOn_eq_singleton (h record hmem)
  rw [form.splitOn_lines, List.flatMap_congr hwhole, List.map_eq_flatMap]

end LineForm

namespace LineWriter

section Unlimited

variable {form : LineForm} {writer : LineWriter}

theorem write_of_unlimited (h : writer.sink.room = none) (record : Record) :
    ∃ after : LineWriter, writer.write form record = (.ok (), after) ∧ after.sink.room = none ∧
      after.sink.contents = writer.sink.contents ++ form.lines [record] ∧
      after.lines = writer.lines + 1 := by
  have hwrite : ∀ (chunks : List Bytes) (bytes : Bytes),
      Sink.write ⟨chunks, none⟩ bytes = (.ok (), ⟨bytes :: chunks, none⟩) := fun _ _ => rfl
  obtain ⟨⟨chunks, room⟩, lines⟩ := writer
  cases h
  refine ⟨⟨⟨[10] :: Text.bytes (form.line record) :: chunks, none⟩, lines + 1⟩, ?_, rfl, ?_, rfl⟩
  · rw [write, hwrite]
    dsimp only
    rw [hwrite]
  · rw [Sink.contents_cons, Sink.contents_cons, List.append_assoc, LineForm.lines,
      List.flatMap_singleton]

theorem mapM_take_of_unlimited (h : writer.sink.room = none) (isCancelled : Bool)
    (records : List Record) :
    ∃ after : LineWriter,
      (records.mapM (receiver form isCancelled).take).run writer =
        (records.map fun _ => .ok (), after) ∧
      after.sink.contents = writer.sink.contents ++ form.lines records ∧
      after.lines = writer.lines + records.length := by
  induction records generalizing writer with
  | nil => exact ⟨writer, rfl, (List.append_nil _).symm, rfl⟩
  | cons record records ih =>
      obtain ⟨next, hwrite, hroom, hcontents, hlines⟩ := @write_of_unlimited form _ h record
      obtain ⟨after, hlater, hafter, hcount⟩ := ih hroom
      refine ⟨after, ?_, ?_, ?_⟩
      · exact Scan.mapM_cons_of_eq hwrite hlater
      · rw [hafter, hcontents, List.append_assoc, ← form.lines_append]
        rfl
      · rw [hcount, hlines, List.length_cons]
        omega

end Unlimited

/-- **Lines are well framed and faithful.** On a sink that never fails every record is taken, and what
the sink then holds comes apart at its line ends into one line for each record, in their order: an
object without control characters that is read back as what the record is. -/
theorem sink_framed (isCancelled : Bool) (records : List Record) :
    ∃ (writer : LineWriter) (lines : List Bytes),
      (records.mapM (receiver .json isCancelled).take).run (.ofSink .unlimited) =
        (records.map fun _ => .ok (), writer) ∧
      writer.lines = records.length ∧
      writer.sink.contents.splitOn 10 = lines ++ [[]] ∧
      List.Forall₂ Record.IsLine records lines := by
  obtain ⟨writer, hrun, hcontents, hlines⟩ :=
    @mapM_take_of_unlimited .json (.ofSink .unlimited) rfl isCancelled records
  have hline : ∀ record, 10 ∉ Text.bytes (LineForm.json.line record) := fun record hmem =>
    absurd (record.isLine.1 10 hmem) (by decide)
  refine ⟨writer, _, hrun, hlines.trans (Nat.zero_add _), ?_,
    List.forall₂_map_right_iff.2 (List.forall₂_same.2 fun record _ => record.isLine)⟩
  rw [hcontents]
  exact LineForm.splitOn_lines_of_not_mem fun record _ => hline record

end LineWriter

end RedisSnapshot
