import RedisSnapshot.Lines
import RedisSnapshot.Proofs.Scan.Watched
import RedisSnapshot.Proofs.Text.Utf8

/-!
# Lines on a sink that fills up

A line goes out in two writes, and a sink may be full in front of either or anywhere inside. Whatever
is written, the sink holds as many of the first bytes of all lines as it has room for: neither write
is empty, and so none fits any more once one did not. The lines that are taken are then the first
ones, and they are the ones that are counted.
-/

namespace RedisSnapshot

namespace Sink

/-- What a sink has come to that had room for so many bytes when all this was written to it. -/
structure Holds (limit : Nat) (failure : IoFailure) (written : Bytes) (sink : Sink) : Prop where
  contents : sink.contents = written.take limit
  room : sink.room = some (limit - written.length, failure)

section Holds

variable {limit : Nat} {failure : IoFailure} {written : Bytes} {sink : Sink}

theorem holds_limited (limit : Nat) (failure : IoFailure) :
    Holds limit failure [] (.limited limit failure) :=
  ⟨List.take_nil.symm, rfl⟩

theorem contents_cons (bytes : Bytes) (chunks : List Bytes) (room : Option (Nat × IoFailure)) :
    contents ⟨bytes :: chunks, room⟩ = contents ⟨chunks, room⟩ ++ bytes := by
  rw [contents, contents, List.reverse_cons, List.flatten_append, List.flatten_singleton]

theorem Holds.write (h : Holds limit failure written sink) {bytes : Bytes} (hne : bytes ≠ []) :
    ∃ after, sink.write bytes =
        (if (written ++ bytes).length ≤ limit then .ok () else .error failure, after) ∧
      Holds limit failure (written ++ bytes) after := by
  have hpositive := List.length_pos_of_ne_nil hne
  have hcontents : ∀ room,
      Sink.contents ⟨bytes.take (limit - written.length) :: sink.chunks, room⟩ =
      (written ++ bytes).take limit := by
    intro room
    rw [contents_cons, List.take_append, ← h.contents]
    rfl
  rw [Sink.write, h.room, List.length_append]
  dsimp only
  by_cases hfits : bytes.length ≤ limit - written.length
  · rw [if_pos hfits, if_pos (by omega)]
    refine ⟨_, rfl, ?_, ?_⟩
    · rw [← hcontents, List.take_of_length_le hfits]
    · rw [List.length_append, Nat.sub_sub]
  · rw [if_neg hfits, if_neg (by omega)]
    refine ⟨_, rfl, hcontents _, ?_⟩
    rw [List.length_append, Nat.sub_eq_zero_of_le (by omega : limit ≤ written.length + bytes.length)]

/-- What comes behind a write that did not fit makes no difference. -/
theorem Holds.append_of_full (h : Holds limit failure written sink) (hfull : limit ≤ written.length)
    (more : Bytes) : Holds limit failure (written ++ more) sink := by
  refine ⟨?_, ?_⟩
  · rw [h.contents, List.take_append_of_le_length hfull]
  · rw [h.room, List.length_append, Nat.sub_eq_zero_of_le hfull,
      Nat.sub_eq_zero_of_le (Nat.le_add_right_of_le hfull)]

end Holds

end Sink

namespace LineForm

variable (form : LineForm)

/-- All records, each as a line with its end. -/
def lines (records : List Record) : Bytes :=
  records.flatMap fun record => Text.bytes (form.line record) ++ [10]

/-- Even the line of a record without a name begins with a brace or a label. -/
theorem bytes_line_ne_nil (record : Record) : Text.bytes (form.line record) ≠ [] := by
  have hbegins : ∀ first rest : String, Text.bytes first ≠ [] → Text.bytes (first ++ rest) ≠ [] := by
    intro first rest hfirst
    rw [Text.bytes_append]
    exact List.append_ne_nil_of_left_ne_nil hfirst _
  cases form with
  | json =>
      have hobject : ∀ members, Text.bytes (Json.text (.object members)) ≠ [] := by
        intro members
        rw [Json.text]
        exact hbegins _ _ (hbegins _ _ (by decide))
      cases record <;> exact hobject _
  | labelled =>
      cases record with
      | keyed key value => iterate 7 refine hbegins _ _ ?_
                           decide
      | _ => exact hbegins _ _ (hbegins _ _ (hbegins _ _ (by decide)))

theorem lines_append (front later : List Record) :
    form.lines (front ++ later) = form.lines front ++ form.lines later :=
  List.flatMap_append

theorem lines_concat (records : List Record) (record : Record) :
    form.lines (records ++ [record]) =
      form.lines records ++ Text.bytes (form.line record) ++ [10] := by
  rw [lines_append, List.append_assoc, lines, lines, List.flatMap_singleton]

end LineForm

namespace LineWriter

/-- How the last of these records is answered by a writer with so much room for all of them. -/
def answer (form : LineForm) (limit : Nat) (failure : IoFailure) (records : List Record) :
    Except Error Unit :=
  if (form.lines records).length ≤ limit then .ok () else .error (.io failure)

/-- The answers to all of these records. -/
def answers (form : LineForm) (limit : Nat) (failure : IoFailure) (records : List Record) :
    List (Except Error Unit) :=
  (List.range records.length).map fun index =>
    answer form limit failure (records.take (index + 1))

section Write

variable {form : LineForm} {limit : Nat} {failure : IoFailure} {records : List Record}
  {writer : LineWriter}

theorem write_of_holds (h : writer.sink.Holds limit failure (form.lines records)) (record : Record) :
    ∃ after : LineWriter,
      writer.write form record = (answer form limit failure (records ++ [record]), after) ∧
      after.sink.Holds limit failure (form.lines (records ++ [record])) ∧
      after.lines =
        writer.lines + if (answer form limit failure (records ++ [record])).isOk then 1 else 0 := by
  obtain ⟨first, htext, hfirst⟩ := h.write (form.bytes_line_ne_nil record)
  obtain ⟨second, hend, hsecond⟩ := hfirst.write (List.cons_ne_nil 10 [])
  rw [← form.lines_concat] at hend hsecond
  have hlength : (form.lines (records ++ [record])).length =
      (form.lines records ++ Text.bytes (form.line record)).length + 1 := by
    rw [form.lines_concat]
    exact List.length_append
  rw [answer]
  by_cases htextFits : (form.lines records ++ Text.bytes (form.line record)).length ≤ limit
  · rw [if_pos htextFits] at htext
    by_cases hfits : (form.lines (records ++ [record])).length ≤ limit
    · rw [if_pos hfits] at hend ⊢
      refine ⟨⟨second, writer.lines + 1⟩, ?_, hsecond, rfl⟩
      rw [write, htext]
      dsimp only
      rw [hend]
    · rw [if_neg hfits] at hend ⊢
      refine ⟨⟨second, writer.lines⟩, ?_, hsecond, rfl⟩
      rw [write, htext]
      dsimp only
      rw [hend]
  · -- The line end is not written then, and would not fit.
    rw [if_neg htextFits] at htext
    rw [if_neg (by omega)]
    refine ⟨⟨first, writer.lines⟩, ?_, ?_, rfl⟩
    · rw [write, htext]
    · rw [form.lines_concat]
      exact hfirst.append_of_full (by omega) [10]

theorem answers_concat (records : List Record) (record : Record) :
    answers form limit failure (records ++ [record]) =
      answers form limit failure records ++ [answer form limit failure (records ++ [record])] := by
  rw [answers, List.length_append, List.length_singleton, List.range_succ, List.map_append,
    List.map_singleton, List.take_of_length_le (by simp)]
  congr 1
  refine List.map_congr_left fun index hindex => ?_
  rw [List.take_append_of_le_length (List.mem_range.1 hindex)]

/-- A writer that goes on after errors. -/
theorem mapM_take (isCancelled : Bool) (records : List Record) :
    ∃ after : LineWriter,
      (records.mapM (receiver form isCancelled).take).run (.ofSink (.limited limit failure)) =
        (answers form limit failure records, after) ∧
      after.sink.Holds limit failure (form.lines records) ∧
      after.lines = (answers form limit failure records).countP (·.isOk) := by
  induction records using List.reverseRecOn with
  | nil => exact ⟨_, rfl, Sink.holds_limited limit failure, rfl⟩
  | append_singleton records record ih =>
      obtain ⟨writer, hbefore, hholds, hlines⟩ := ih
      obtain ⟨after, hwrite, hafter, hcount⟩ := write_of_holds hholds record
      refine ⟨after, ?_, hafter, ?_⟩
      · have hlast : ([record].mapM (receiver form isCancelled).take).run writer =
            ([answer form limit failure (records ++ [record])], after) :=
          Scan.mapM_cons_of_eq hwrite rfl
        rw [StateT.run] at hbefore hlast
        rw [List.mapM_append, answers_concat, StateT.run, Scan.bind_of_eq hbefore,
          Scan.bind_of_eq hlast]
        rfl
      · rw [hcount, hlines, answers_concat, List.countP_append, List.countP_singleton]

/-- Records whose lines all fit are all taken. -/
theorem deliver_of_fits (isCancelled : Bool) (h : (form.lines records).length ≤ limit) :
    ∃ after : LineWriter,
      Scan.deliver (receiver form isCancelled) records (.ofSink (.limited limit failure)) =
        (.ok (), after) ∧
      after.sink.Holds limit failure (form.lines records) ∧ after.lines = records.length := by
  induction records using List.reverseRecOn with
  | nil => exact ⟨_, rfl, Sink.holds_limited limit failure, rfl⟩
  | append_singleton records record ih =>
      have hfront : (form.lines records).length ≤ limit := by
        rw [form.lines_append, List.length_append] at h
        exact Nat.le_trans (Nat.le_add_right _ _) h
      obtain ⟨writer, hbefore, hholds, hlines⟩ := ih hfront
      obtain ⟨after, hwrite, hafter, hcount⟩ := write_of_holds hholds record
      have htake : (receiver form isCancelled).take record writer = (.ok (), after) := by
        rw [answer, if_pos h] at hwrite
        exact hwrite
      refine ⟨after, ?_, hafter, ?_⟩
      · rw [Scan.deliver_append_of_ok hbefore, Scan.deliver, Scan.bind_of_eq htake]
        rfl
      · rw [hcount, hlines, answer, if_pos h, List.length_append]
        rfl

/-- Among records whose lines do not all fit there is a first one whose line does not. -/
theorem exists_first_over (h : limit < (form.lines records).length) :
    ∃ front record later, records = front ++ record :: later ∧
      (form.lines front).length ≤ limit ∧ limit < (form.lines (front ++ [record])).length := by
  induction records using List.reverseRecOn with
  | nil => exact absurd h (Nat.not_lt_zero _)
  | append_singleton records record ih =>
      rcases Nat.lt_or_ge limit (form.lines records).length with hover | hfits
      · obtain ⟨front, other, later, rfl, hfront, hother⟩ := ih hover
        exact ⟨front, other, later ++ [record], by rw [List.append_assoc]; rfl, hfront, hother⟩
      · exact ⟨records, record, [], rfl, hfits, h⟩

end Write

/-- **Lines on a full disk.** A sink that has room for so many bytes holds as many of the first bytes
of all lines. A record is taken exactly if everything through the end of its line fits, and those that
are taken are counted. A scan ends at the first record that is not taken, with the failure of the
sink, which then holds what it would hold if the scan had gone on. -/
theorem sink_full (form : LineForm) (limit : Nat) (failure : IoFailure) :
    (∀ records isCancelled, ∃ writer : LineWriter,
        (records.mapM (receiver form isCancelled).take).run (.ofSink (.limited limit failure)) =
          (answers form limit failure records, writer) ∧
        writer.sink.contents = (form.lines records).take limit ∧
        writer.lines = (answers form limit failure records).countP (·.isOk)) ∧
      ∀ withAux source, ∃ (scan : Scan) (writer : LineWriter),
        Scan.writeLines form withAux false source (.limited limit failure) = (scan, writer) ∧
        writer.sink.contents = (form.lines (Scan.handed withAux source)).take limit ∧
        (((form.lines (Scan.handed withAux source)).length ≤ limit ∧
            scan = (Scan.recorded withAux source).1 ∧
            writer.lines = (Scan.handed withAux source).length) ∨
          ∃ front record later late, Scan.handed withAux source = front ++ record :: later ∧
            (form.lines front).length ≤ limit ∧
            limit < (form.lines (front ++ [record])).length ∧
            late <+: later ∧ Scan.StopsBehind withAux source (.io failure) front record late scan ∧
            scan.bannerOrError = .error (.io failure) ∧ writer.lines = front.length) := by
  refine ⟨fun records isCancelled => ?_, fun withAux source => ?_⟩
  · obtain ⟨writer, hrun, hholds, hlines⟩ :=
      @mapM_take form limit failure isCancelled records
    exact ⟨writer, hrun, hholds.contents, hlines⟩
  · rcases Nat.lt_or_ge limit (form.lines (Scan.handed withAux source)).length with hover | hfits
    · obtain ⟨front, record, later, hhanded, hfront, hlast⟩ := exists_first_over hover
      obtain ⟨writer, hdeliver, hholds, hlines⟩ :=
        @deliver_of_fits form limit failure front false hfront
      obtain ⟨after, hwrite, hafter, hcount⟩ := write_of_holds hholds record
      rw [answer, if_neg (Nat.not_le_of_lt hlast)] at hwrite hcount
      obtain ⟨late, scan, hlate, hstops, hrun⟩ :=
        Scan.run_of_refused (fun _ => rfl) hhanded hdeliver hwrite
      refine ⟨scan, after, hrun, ?_, .inr ⟨front, record, later, late, hhanded, hfront, hlast, hlate,
        hstops, ?_, hcount.trans hlines⟩⟩
      · rw [hafter.contents, hhanded, List.append_cons front record later,
          form.lines_append _ later, List.take_append_of_le_length (Nat.le_of_lt hlast)]
      · cases hstops
        rfl
    · obtain ⟨writer, hdeliver, hholds, hlines⟩ :=
        @deliver_of_fits form limit failure _ false hfits
      exact ⟨_, writer, Scan.run_of_taken (fun _ => rfl) (fun _ => rfl) hdeliver, hholds.contents,
        .inl ⟨hfits, rfl, hlines⟩⟩

end LineWriter

end RedisSnapshot
