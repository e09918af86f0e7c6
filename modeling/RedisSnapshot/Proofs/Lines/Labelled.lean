import RedisSnapshot.Proofs.Lines.Framed
import RedisSnapshot.Proofs.Text.LineEnds

/-!
# Labelled lines and the line ends in their records

A labelled line shows names, strings and the elements of lists and sets as they stand; pairs and
entries are shown within a document, which has no line ends. So a record is one line if there is no
line end in what is shown of it as it stands, and each that there is breaks the line once more.
-/

namespace RedisSnapshot

/-- The parts of a value that a labelled line shows as they stand. -/
def Value.plainParts : Value → List Bytes
  | string bytes => [bytes]
  | list elements => elements
  | set members => members
  | hash _ | sortedSet _ | stream _ => []

def Record.plainParts : Record → List Bytes
  | keyed key value => key.name :: value.plainParts
  | selectDb _ | resizeDb .. => []
  | aux field value => [field, value]

/-- How many times the line of a record is broken. -/
def Record.breaks (record : Record) : Nat :=
  record.plainParts.flatten.count 10

theorem Record.breaks_eq_zero_iff {record : Record} :
    record.breaks = 0 ↔ ∀ part ∈ record.plainParts, 10 ∉ part := by
  rw [breaks, List.count_eq_zero, List.mem_flatten]
  constructor
  · intro hnone part hpart hmem
    exact hnone ⟨part, hpart, hmem⟩
  · rintro hparts ⟨part, hpart, hmem⟩
    exact hparts part hpart hmem

/-! ### The line ends in a line -/

theorem Value.lineEnds_text (value : Value) :
    Text.lineEnds value.text = value.plainParts.flatten.count 10 := by
  have helements : ∀ elements : List Bytes,
      Text.lineEnds (",".intercalate (elements.map Text.lossy)) = elements.flatten.count 10 := by
    intro elements
    rw [Text.lineEnds_intercalate, List.map_map, List.count_flatten]
    congr 1
    apply List.map_congr_left
    intro element _
    exact Text.lineEnds_lossy element
  have hdocument : ∀ json : Json, Text.lineEnds json.text = 0 := fun json =>
    Text.lineEnds_of_printable json.printable_text
  cases value with
  | string bytes => simpa [text, plainParts] using Text.lineEnds_lossy bytes
  | list elements => exact helements elements
  | set members => exact helements members
  | hash fields => exact hdocument _
  | sortedSet members => exact hdocument _
  | stream log => exact hdocument _

theorem Record.lineEnds_labelledLine (record : Record) :
    Text.lineEnds record.labelledLine = record.breaks := by
  have hnumber : ∀ value : Int, Text.lineEnds (Decimal.intText value) = 0 := fun value =>
    Text.lineEnds_of_printable (Json.printable_token (Document.isToken_intText value))
  have hnatural : ∀ value : Nat, Text.lineEnds (Decimal.text value) = 0 := fun value =>
    hnumber value
  have hlabels : Text.lineEnds "type:" = 0 ∧ Text.lineEnds "|key:" = 0 ∧
      Text.lineEnds "|value:" = 0 ∧ Text.lineEnds "|expire:" = 0 ∧ Text.lineEnds "info " = 0 ∧
      Text.lineEnds ":" = 0 := by decide
  have htitles : Text.lineEnds "info select:" = 0 ∧ Text.lineEnds "info resize db:" = 0 := by decide
  obtain ⟨htype, hkey, hvalue, hexpire, hinfo, hcolon⟩ := hlabels
  cases record with
  | keyed key value =>
      have hname : Text.lineEnds value.typeName = 0 := by
        cases value <;> rw [Value.typeName] <;> decide
      simp [labelledLine, title, valueText, htype, hkey, hvalue, hexpire, hname, hnumber,
        Value.lineEnds_text, Text.lineEnds_lossy, breaks, plainParts]
  | selectDb index =>
      simp [labelledLine, title, valueText, htitles, hnatural, breaks, plainParts]
  | resizeDb keys expiring =>
      have htexts : Text.lineEnds "\x7bDBSize: " = 0 ∧ Text.lineEnds ", ExpireSize: " = 0 ∧
          Text.lineEnds "\x7d" = 0 := by decide
      simp [labelledLine, title, valueText, htitles, htexts, hnatural, breaks, plainParts]
  | aux field value =>
      simp [labelledLine, title, valueText, hinfo, hcolon, Text.lineEnds_lossy, breaks, plainParts]

/-! ### Coming apart at line ends -/

theorem length_splitOn (text : Bytes) : (text.splitOn 10).length = text.count 10 + 1 := by
  induction text with
  | nil => rfl
  | cons byte text ih =>
      rw [List.splitOn_cons_eq_if_modifyHead, List.count_cons]
      split
      · rw [List.length_cons, ih]
      · rw [List.length_modifyHead, ih, Nat.add_zero]

theorem LineForm.count_lines (form : LineForm) (records : List Record) :
    (form.lines records).count 10 =
      records.length + (records.map fun record => (Text.bytes (form.line record)).count 10).sum := by
  induction records with
  | nil => rfl
  | cons record records ih =>
      have hlines : form.lines (record :: records) =
          form.lines [record] ++ form.lines records := form.lines_append [record] records
      rw [hlines, List.count_append, ih, List.map_cons, List.sum_cons, lines, List.flatMap_singleton,
        List.count_append, List.count_singleton_self, List.length_cons]
      omega

namespace LineWriter

/-- **Labelled lines.** On a sink that never fails every record is taken and counted. What the sink
then holds comes apart into the pieces of the records' lines, in their order. A record's line is in
one piece more than there are line ends in its plain parts, and so every record is one line if, and
only if, no plain part of any of them has a line end in it. -/
theorem labelled_lines (isCancelled : Bool) (records : List Record) :
    ∃ writer : LineWriter,
      (records.mapM (receiver .labelled isCancelled).take).run (.ofSink .unlimited) =
        (records.map fun _ => .ok (), writer) ∧
      writer.lines = records.length ∧
      writer.sink.contents.splitOn 10 =
        (records.flatMap fun record => (Text.bytes record.labelledLine).splitOn 10) ++ [[]] ∧
      (∀ record : Record,
        ((Text.bytes record.labelledLine).splitOn 10).length = record.breaks + 1) ∧
      writer.sink.contents.count 10 = writer.lines + (records.map Record.breaks).sum ∧
      (writer.sink.contents.splitOn 10 =
          (records.map fun record => Text.bytes record.labelledLine) ++ [[]] ↔
        ∀ record ∈ records, ∀ part ∈ record.plainParts, 10 ∉ part) := by
  obtain ⟨writer, hrun, hcontents, hlines⟩ :=
    @mapM_take_of_unlimited .labelled (.ofSink .unlimited) rfl isCancelled records
  have hcontents : writer.sink.contents = LineForm.lines .labelled records := hcontents
  have hlines : writer.lines = records.length := hlines.trans (Nat.zero_add _)
  have hline : ∀ record : Record, (Text.bytes record.labelledLine).count 10 = record.breaks :=
    fun record => (Text.count_bytes _).trans record.lineEnds_labelledLine
  have hcount : writer.sink.contents.count 10 = writer.lines + (records.map Record.breaks).sum := by
    rw [hcontents, hlines, LineForm.count_lines]
    simp only [LineForm.line, hline]
  refine ⟨writer, hrun, hlines, ?_, fun record => ?_, hcount, ?_, ?_⟩
  · rw [hcontents]
    exact LineForm.splitOn_lines .labelled records
  · rw [length_splitOn, hline]
  · intro hone record hmem
    have hlength := congrArg List.length hone
    rw [length_splitOn, hcount, List.length_append, List.length_map, hlines,
      List.length_singleton] at hlength
    have hsum : (records.map Record.breaks).sum = 0 := by omega
    have hnone := List.sum_eq_zero_iff_forall_eq_nat.1 hsum _ (List.mem_map_of_mem hmem)
    exact Record.breaks_eq_zero_iff.1 hnone
  · intro hparts
    rw [hcontents]
    apply LineForm.splitOn_lines_of_not_mem
    intro record hmem
    apply List.count_eq_zero.1
    exact (hline record).trans (Record.breaks_eq_zero_iff.2 (hparts record hmem))

example : (Record.keyed ⟨[107], 0⟩ (.string [97, 10, 98])).breaks = 1 := by decide

end LineWriter

end RedisSnapshot
