import RedisSnapshot.Proofs.Scan.Taken

/-!
# Scans that are stopped

A receiver stops a scan by refusing a record, or by having the scan cancelled. A refusal counts at
once. Whether it is cancelled the scan asks only in front of an item, so that the records of an item
are handed over to the last, and nothing behind the item is read: neither the next item nor that the
snapshot or the stream ends there. In both cases the receiver is not told of an end.
-/

namespace RedisSnapshot.Scan

def Event.record? : Event → Option Record
  | record found => some found
  | finished => none

/-- The records that a scan hands to a receiver which takes them all. -/
def handed (withAux : Bool) (source : Source) : List Record :=
  (recorded withAux source).2.filterMap Event.record?

/-- What a receiver has been handed, whether it has been told of the end, and whether it has had the
scan cancelled. -/
structure Log where
  records : List Record
  finished : Bool
  fired : Bool

/-- How a receiver acts on the last of all the records that it has been handed: what it answers, and
whether it has the scan cancelled. When it is told of the end it answers once more. It may keep what
it likes in mind, but it knows of nothing else than these records. -/
structure Conduct where
  answers : List Record → Except Error Unit
  fires : List Record → Bool
  ends : List Record → Except Error Unit

namespace Conduct

def receiver (conduct : Conduct) : Receiver (StateM Log) where
  take record := fun log =>
    let records := log.records ++ [record]
    (conduct.answers records, ⟨records, log.finished, log.fired || conduct.fires records⟩)
  finish := fun log => (conduct.ends log.records, { log with finished := true })
  isCancelled := fun log => (log.fired, log)

/-- None of the records is refused, and none has the scan cancelled. -/
def IsQuiet (conduct : Conduct) (records : List Record) : Prop :=
  ∀ front, front ≠ [] → front <+: records →
    conduct.answers front = .ok () ∧ conduct.fires front = false

end Conduct

/-- A scan of the stream comes past the header and these items, if nothing stops it. -/
inductive Passes (source : Source) (header : Bytes) : List Item → Cursor → Prop where
  | header {cursor : Cursor} (h : Decoder.header.run source.start = .done header cursor) :
      Passes source header [] cursor
  | item {items : List Item} {item : Item} {cursor after : Cursor}
      (h : Passes source header items cursor) (hrun : Item.decoder.run cursor = .done item after)
      (hitem : item ≠ .ending) : Passes source header (items ++ [item]) after

/-- A scan that ends with this error behind the item that the record comes from. In front of the
record come these, some of them from earlier items, and behind it those that the item still has. -/
inductive StopsBehind (withAux : Bool) (source : Source) (error : Error) (front : List Record)
    (record : Record) (late : List Record) : Scan → Prop where
  | mk {header : Bytes} {items : List Item} {item : Item} {cursor : Cursor} {early : List Record}
      (hpasses : Passes source header (items ++ [item]) cursor)
      (hfront : front = Item.recordsOf withAux [] items ++ early)
      (hitem : item.recordsBehind withAux items = early ++ record :: late) :
      StopsBehind withAux source error front record late
        ⟨.error error, Text.lossy header, (items ++ [item]).countP Item.isKey, cursor.offset⟩

/-! ### Where a record comes from -/

section Passes

variable {withAux : Bool} {source : Source} {header : Bytes} {items : List Item} {item : Item}
  {cursor after : Cursor}

theorem recordsOf_concat (withAux : Bool) (items : List Item) (item : Item) :
    Item.recordsOf withAux [] (items ++ [item]) =
      Item.recordsOf withAux [] items ++ item.recordsBehind withAux items := by
  rw [Item.recordsOf_append, Item.recordsOf, Item.recordsOf, List.nil_append, List.append_nil]

theorem Passes.recorded_eq (h : Passes source header items cursor) :
    recorded withAux source = recordedItems withAux source (Text.lossy header) (.behind items) cursor
      ((Item.recordsOf withAux [] items).map .record) := by
  induction h with
  | header h => exact recorded_of_header h
  | item _ hrun hitem ih =>
      rw [ih, recordedItems_of_item hrun hitem, Item.advance_behind, recordsOf_concat,
        List.map_append]

theorem record?_map (records : List Record) :
    (records.map Event.record).filterMap Event.record? = records := by
  rw [List.filterMap_map]
  exact List.filterMap_some

theorem Passes.recordsOf_handed (h : Passes source header items cursor) :
    Item.recordsOf withAux [] items <+: handed withAux source := by
  have htold : (Item.recordsOf withAux [] items).map .record <+: (recorded withAux source).2 := by
    rw [h.recorded_eq]
    exact told_prefix_recordedItems cursor _ _
  have hrecords := htold.filterMap Event.record?
  rwa [record?_map] at hrecords

theorem exists_header_of_handed (h : handed withAux source ≠ []) :
    ∃ header cursor, Passes source header [] cursor := by
  cases hrun : Decoder.header.run source.start with
  | done header cursor => exact ⟨header, cursor, .header hrun⟩
  | short need cursor => exact absurd (by rw [handed, recorded_of_short hrun]; rfl) h
  | failed fault cursor => exact absurd (by rw [handed, recorded_of_failed hrun]; rfl) h

/-- Where the scan reads no further item, it has handed over what there is. -/
theorem Passes.handed_eq (h : Passes source header items cursor)
    (hover : ∀ item after, Item.decoder.run cursor = .done item after → item = .ending) :
    handed withAux source = Item.recordsOf withAux [] items := by
  have hrecorded : recorded withAux source = _ := h.recorded_eq
  cases hrun : Item.decoder.run cursor with
  | short need after => rw [handed, hrecorded, recordedItems_of_short hrun, record?_map]
  | failed fault after => rw [handed, hrecorded, recordedItems_of_failed hrun, record?_map]
  | done item after =>
      cases hover item after hrun
      rw [handed, hrecorded, recordedItems_of_ending hrun, List.filterMap_append, record?_map]
      exact List.append_nil _

/-- A record that is handed over behind some items comes from a later one. -/
theorem exists_item_of_handed {front later : List Record} {record : Record}
    (h : handed withAux source = front ++ record :: later) (cursor : Cursor) :
    ∀ items, Passes source header items cursor → Item.recordsOf withAux [] items <+: front →
      ∃ items item cursor after early late,
        Passes source header items cursor ∧ Item.decoder.run cursor = .done item after ∧
          item ≠ .ending ∧ front = Item.recordsOf withAux [] items ++ early ∧
            item.recordsBehind withAux items = early ++ record :: late := by
  induction cursor using items_induction with
  | hstep cursor ih =>
      intro items hpasses hpart
      by_cases hover : ∀ item after, Item.decoder.run cursor = .done item after → item = .ending
      · have hle := hpart.length_le
        rw [← hpasses.handed_eq hover, h, List.length_append, List.length_cons] at hle
        omega
      · push Not at hover
        obtain ⟨item, after, hrun, hitem⟩ := hover
        have hlater := hpasses.item hrun hitem
        have hreached : Item.recordsOf withAux [] (items ++ [item]) <+: handed withAux source :=
          hlater.recordsOf_handed
        rw [h] at hreached
        by_cases hlength : (Item.recordsOf withAux [] (items ++ [item])).length ≤ front.length
        · have hbefore : Item.recordsOf withAux [] (items ++ [item]) <+: front :=
            List.prefix_of_prefix_length_le hreached (List.prefix_append _ _) hlength
          exact ih item after hrun _ hlater hbefore
        · -- The item has more records than are in front of this one, so this is one of them.
          have hrecord : front ++ [record] <+: Item.recordsOf withAux [] (items ++ [item]) := by
            refine List.prefix_of_prefix_length_le ⟨later, ?_⟩ hreached ?_
            · rw [List.append_assoc, List.singleton_append]
            · rw [List.length_append, List.length_singleton]
              omega
          obtain ⟨early, rfl⟩ := hpart
          obtain ⟨late, hlate⟩ := hrecord
          rw [recordsOf_concat, List.append_assoc, List.append_assoc] at hlate
          exact ⟨items, item, cursor, after, early, late, hpasses, hrun, hitem, rfl,
            (List.append_cancel_left hlate).symm⟩

theorem exists_item {front later : List Record} {record : Record}
    (h : handed withAux source = front ++ record :: later) :
    ∃ header items item cursor after early late,
      Passes source header items cursor ∧ Item.decoder.run cursor = .done item after ∧
        item ≠ .ending ∧ front = Item.recordsOf withAux [] items ++ early ∧
          item.recordsBehind withAux items = early ++ record :: late ∧ late <+: later := by
  obtain ⟨header, start, hstart⟩ := exists_header_of_handed (by rw [h]; simp)
  obtain ⟨items, item, cursor, after, early, late, hpasses, hrun, hitem, rfl, hbehind⟩ :=
    exists_item_of_handed h start [] hstart List.nil_prefix
  refine ⟨header, items, item, cursor, after, early, late, hpasses, hrun, hitem, rfl, hbehind, ?_⟩
  have hreached : Item.recordsOf withAux [] (items ++ [item]) <+: handed withAux source :=
    (hpasses.item hrun hitem).recordsOf_handed
  rw [h, recordsOf_concat, hbehind, ← List.append_assoc, List.prefix_append_right_inj] at hreached
  exact (List.cons_prefix_cons.1 hreached).2

end Passes

/-! ### What a receiver does to the scan -/

namespace Conduct

variable {conduct : Conduct} {withAux : Bool} {source : Source}

theorem IsQuiet.nil (conduct : Conduct) : conduct.IsQuiet [] :=
  fun _ hfront hpart => absurd (List.prefix_nil.1 hpart) hfront

theorem IsQuiet.of_prefix {front records : List Record} (h : conduct.IsQuiet records)
    (hpart : front <+: records) : conduct.IsQuiet front :=
  fun first hfirst hmore => h first hfirst (hmore.trans hpart)

theorem isCancelled_eq (conduct : Conduct) (log : Log) :
    conduct.receiver.isCancelled log = (log.fired, log) :=
  rfl

theorem deliver_cons {before : List Record} {fired : Bool} {record : Record}
    {records : List Record} :
    deliver conduct.receiver (record :: records) ⟨before, false, fired⟩ =
      let log : Log := ⟨before ++ [record], false, fired || conduct.fires (before ++ [record])⟩
      match conduct.answers (before ++ [record]) with
      | .ok () => deliver conduct.receiver records log
      | .error error => (.error error, log) := by
  have htaken : conduct.receiver.take record ⟨before, false, fired⟩ =
      (conduct.answers (before ++ [record]),
        ⟨before ++ [record], false, fired || conduct.fires (before ++ [record])⟩) := rfl
  rw [deliver, bind_of_eq htaken]
  cases conduct.answers (before ++ [record]) <;> rfl

/-- Records of which none is refused are all taken, and the scan stays as cancelled as it was if none
of them changes that. -/
theorem deliver_steady {before records : List Record} {fired : Bool}
    (h : ∀ front, front ≠ [] → front <+: records →
      conduct.answers (before ++ front) = .ok () ∧
        (fired || conduct.fires (before ++ front)) = fired) :
    deliver conduct.receiver records ⟨before, false, fired⟩ =
      (.ok (), ⟨before ++ records, false, fired⟩) := by
  induction records generalizing before with
  | nil =>
      rw [List.append_nil]
      rfl
  | cons record records ih =>
      obtain ⟨hanswers, hfires⟩ := h [record] (List.cons_ne_nil _ _) ⟨records, rfl⟩
      have hlater := @ih (before ++ [record]) fun front _ hpart => by
        rw [List.append_assoc]
        exact h (record :: front) (List.cons_ne_nil _ _) (List.cons_prefix_cons.2 ⟨rfl, hpart⟩)
      rw [deliver_cons, hanswers, hfires, List.append_cons before record records]
      exact hlater

theorem deliver_quiet {before records : List Record} (h : conduct.IsQuiet (before ++ records)) :
    deliver conduct.receiver records ⟨before, false, false⟩ =
      (.ok (), ⟨before ++ records, false, false⟩) :=
  deliver_steady fun front hfront hpart =>
    h (before ++ front) (List.append_ne_nil_of_right_ne_nil _ hfront)
      ((List.prefix_append_right_inj before).2 hpart)

/-- Behind records that change nothing the receiver goes on from what they have left. -/
theorem deliver_behind {before early records : List Record}
    (h : conduct.IsQuiet (before ++ early)) :
    deliver conduct.receiver (early ++ records) ⟨before, false, false⟩ =
      deliver conduct.receiver records ⟨before ++ early, false, false⟩ := by
  rw [deliver_append, bind_of_eq (deliver_quiet h)]

/-- As long as nothing stops it, the scan comes to the item that it would come to anyway. -/
theorem run_of_quiet {header : Bytes} {items : List Item} {cursor : Cursor}
    (h : Passes source header items cursor)
    (hquiet : conduct.IsQuiet (Item.recordsOf withAux [] items)) :
    run conduct.receiver withAux source ⟨[], false, false⟩ =
      Scan.items conduct.receiver withAux source (Text.lossy header) (.behind items) cursor
        ⟨Item.recordsOf withAux [] items, false, false⟩ := by
  induction h with
  | header h =>
      rw [run, Source.decode, h]
      rfl
  | @item items item cursor after _ hrun hitem ih =>
      rw [recordsOf_concat] at hquiet ⊢
      rw [ih (hquiet.of_prefix (List.prefix_append _ _)), items_of_item hrun hitem,
        bind_of_eq (conduct.isCancelled_eq _), if_neg Bool.false_ne_true, Item.advance_behind,
        bind_of_eq (deliver_quiet hquiet)]

theorem deliver_refused {before early late : List Record} {record : Record} {error : Error}
    (hquiet : conduct.IsQuiet (before ++ early))
    (hanswers : conduct.answers (before ++ early ++ [record]) = .error error) :
    deliver conduct.receiver (early ++ record :: late) ⟨before, false, false⟩ =
      (.error error, ⟨before ++ early ++ [record], false,
        conduct.fires (before ++ early ++ [record])⟩) := by
  rw [deliver_behind hquiet, deliver_cons, hanswers]
  rfl

theorem deliver_fired {before early late : List Record} {record : Record}
    (hquiet : conduct.IsQuiet (before ++ early))
    (hfires : conduct.fires (before ++ early ++ [record]) = true)
    (haccepts : ∀ front, front <+: before ++ early ++ record :: late →
      conduct.answers front = .ok ()) :
    deliver conduct.receiver (early ++ record :: late) ⟨before, false, false⟩ =
      (.ok (), ⟨before ++ early ++ record :: late, false, true⟩) := by
  rw [List.append_cons (before ++ early) record late] at haccepts ⊢
  rw [deliver_behind hquiet, deliver_cons, haccepts _ (List.prefix_append _ _), hfires]
  refine deliver_steady fun front _ hpart => ⟨haccepts _ ?_, rfl⟩
  exact (List.prefix_append_right_inj _).2 hpart

theorem items_of_fired {banner : String} {progress : Progress} {cursor : Cursor}
    {records : List Record} {finished : Bool} :
    Scan.items conduct.receiver withAux source banner progress cursor ⟨records, finished, true⟩ =
      (⟨.error .cancelled, banner, progress.keys, cursor.offset⟩, ⟨records, finished, true⟩) := by
  rw [Scan.items, bind_of_eq (conduct.isCancelled_eq ⟨records, finished, true⟩), if_pos rfl]
  rfl

theorem run_of_delivered {header : Bytes} {items : List Item} {item : Item} {cursor after : Cursor}
    {result : Except Error Unit} {log : Log} (hpasses : Passes source header items cursor)
    (hrun : Item.decoder.run cursor = .done item after) (hitem : item ≠ .ending)
    (hquiet : conduct.IsQuiet (Item.recordsOf withAux [] items)) :
    deliver conduct.receiver (item.recordsBehind withAux items)
        ⟨Item.recordsOf withAux [] items, false, false⟩ = (result, log) →
      run conduct.receiver withAux source ⟨[], false, false⟩ =
        match result with
        | .ok () => Scan.items conduct.receiver withAux source (Text.lossy header)
            (.behind (items ++ [item])) after log
        | .error error =>
            (⟨.error error, Text.lossy header, (items ++ [item]).countP Item.isKey, after.offset⟩,
              log) := by
  intro hdeliver
  rw [run_of_quiet hpasses hquiet, items_of_item hrun hitem, bind_of_eq (conduct.isCancelled_eq _),
    if_neg Bool.false_ne_true, Item.advance_behind, bind_of_eq hdeliver]
  cases result <;> rfl

end Conduct

open Conduct in
/-- **Stopped scans.** Whatever a stream holds, a receiver that refuses a record has been handed the
records up to this one, and its error is that of the scan. One that has the scan cancelled is still
handed what the item has left, and the scan ends there as cancelled, whatever comes next. A scan that
is cancelled from the start reads the header and no more. None of them is told of an end. -/
theorem run_stopped (withAux : Bool) (source : Source) (conduct : Conduct) :
    (∀ front record later error, handed withAux source = front ++ record :: later →
      conduct.IsQuiet front → conduct.answers (front ++ [record]) = .error error →
        ∃ late scan, late <+: later ∧ StopsBehind withAux source error front record late scan ∧
          run conduct.receiver withAux source ⟨[], false, false⟩ =
            (scan, ⟨front ++ [record], false, conduct.fires (front ++ [record])⟩)) ∧
      (∀ front record later, handed withAux source = front ++ record :: later →
        conduct.IsQuiet front → conduct.fires (front ++ [record]) = true →
          (∀ records, records <+: handed withAux source → conduct.answers records = .ok ()) →
            ∃ late scan, late <+: later ∧
              StopsBehind withAux source .cancelled front record late scan ∧
                run conduct.receiver withAux source ⟨[], false, false⟩ =
                  (scan, ⟨front ++ record :: late, false, true⟩)) ∧
      ∀ header cursor, Decoder.header.run source.start = .done header cursor →
        run conduct.receiver withAux source ⟨[], false, true⟩ =
          (⟨.error .cancelled, Text.lossy header, 0, cursor.offset⟩, ⟨[], false, true⟩) := by
  refine ⟨?_, ?_, ?_⟩
  · intro front record later error hhanded hquiet hanswers
    obtain ⟨header, items, item, cursor, after, early, late, hpasses, hrun, hitem, rfl, hbehind,
      hlate⟩ := exists_item hhanded
    refine ⟨late, _, hlate, .mk (hpasses.item hrun hitem) rfl hbehind, ?_⟩
    rw [run_of_delivered hpasses hrun hitem (hquiet.of_prefix (List.prefix_append _ _))
      (hbehind ▸ deliver_refused hquiet hanswers)]
  · intro front record later hhanded hquiet hfires haccepts
    obtain ⟨header, items, item, cursor, after, early, late, hpasses, hrun, hitem, rfl, hbehind,
      hlate⟩ := exists_item hhanded
    refine ⟨late, _, hlate, .mk (hpasses.item hrun hitem) rfl hbehind, ?_⟩
    have hitem_accepts : ∀ records, records <+: Item.recordsOf withAux [] items ++ early ++
        record :: late → conduct.answers records = .ok () := by
      intro records hpart
      refine haccepts records (hpart.trans ?_)
      rw [hhanded, List.prefix_append_right_inj, List.cons_prefix_cons]
      exact ⟨rfl, hlate⟩
    rw [run_of_delivered hpasses hrun hitem (hquiet.of_prefix (List.prefix_append _ _))
      (hbehind ▸ deliver_fired hquiet hfires hitem_accepts)]
    exact items_of_fired
  · intro header cursor hheader
    rw [run, Source.decode, hheader]
    exact items_of_fired

/-- A list in two nodes, each a record of its own, and the end of the snapshot. -/
def twoNodes : Source :=
  ⟨headerOf 9 ++ ([18, 1, 107, 2, 1, 1, 97, 1, 1, 98] ++ [0xFF]), none, none⟩

/-- The first record is refused. -/
def Conduct.refusing : Conduct where
  answers _ := .error (.io .deadline)
  fires _ := false
  ends _ := .ok ()

/-- Nothing is refused, and the first record has the scan cancelled. -/
def Conduct.cancelling : Conduct where
  answers _ := .ok ()
  fires _ := true
  ends _ := .ok ()

theorem header_twoNodes : Decoder.header.run twoNodes.start =
    .done (headerOf 9) ⟨9, [18, 1, 107, 2, 1, 1, 97, 1, 1, 98] ++ [0xFF]⟩ :=
  rfl

theorem handed_twoNodes : handed false twoNodes =
    [.keyed ⟨[107], 0⟩ (.list [[97]]), .keyed ⟨[107], 0⟩ (.list [[98]])] := by
  have hname : StringForm [107] [1, 107] :=
    @StringForm.plain [107] [1] (.six (by decide)) (Nat.lt_of_sub_eq_succ rfl)
  have hkey : ItemForm (.key [107] [.list [[97]], .list [[98]]])
      [18, 1, 107, 2, 1, 1, 97, 1, 1, 98] := .key hname rfl
  have hrecorded : recorded false twoNodes = _ :=
    (recorded_of_header header_twoNodes).trans (recordedItems_of_row (.cons hkey .nil) [] 9 [] [])
  have hall := congrArg (fun found => found.2.filterMap Event.record?) hrecorded
  exact hall

/-- Refused at the first node the scan is over. Cancelled there it hands over the second one as well,
and does not see that the snapshot ends behind it. -/
theorem run_stopped_twoNodes :
    (∃ late scan, StopsBehind false twoNodes (.io .deadline) []
        (.keyed ⟨[107], 0⟩ (.list [[97]])) late scan ∧
      run Conduct.refusing.receiver false twoNodes ⟨[], false, false⟩ =
        (scan, ⟨[.keyed ⟨[107], 0⟩ (.list [[97]])], false, false⟩)) ∧
      (∃ scan, StopsBehind false twoNodes .cancelled [] (.keyed ⟨[107], 0⟩ (.list [[97]]))
          [.keyed ⟨[107], 0⟩ (.list [[98]])] scan ∧
        run Conduct.cancelling.receiver false twoNodes ⟨[], false, false⟩ =
          (scan, ⟨[.keyed ⟨[107], 0⟩ (.list [[97]]), .keyed ⟨[107], 0⟩ (.list [[98]])], false,
            true⟩)) ∧
      run Conduct.refusing.receiver false twoNodes ⟨[], false, true⟩ =
        (⟨.error .cancelled, Text.lossy (headerOf 9), 0, 9⟩, ⟨[], false, true⟩) := by
  have hkey : Item.decoder.run ⟨9, [18, 1, 107, 2, 1, 1, 97, 1, 1, 98] ++ [0xFF]⟩ =
      .done (.key [107] [.list [[97]], .list [[98]]]) ⟨19, [0xFF]⟩ := rfl
  obtain ⟨hrefused, -, hbeforehand⟩ := run_stopped false twoNodes .refusing
  obtain ⟨-, hcancelled, -⟩ := run_stopped false twoNodes .cancelling
  refine ⟨?_, ?_, hbeforehand _ _ header_twoNodes⟩
  · obtain ⟨late, scan, -, hstops, hrun⟩ :=
      hrefused [] _ _ _ handed_twoNodes (.nil _) rfl
    exact ⟨late, scan, hstops, hrun⟩
  · obtain ⟨late, scan, -, hstops, hrun⟩ :=
      hcancelled [] _ _ handed_twoNodes (.nil _) rfl fun _ _ => rfl
    have hdeliver : deliver Conduct.cancelling.receiver
        [.keyed ⟨[107], 0⟩ (.list [[97]]), .keyed ⟨[107], 0⟩ (.list [[98]])] ⟨[], false, false⟩ =
          (.ok (), ⟨[.keyed ⟨[107], 0⟩ (.list [[97]]), .keyed ⟨[107], 0⟩ (.list [[98]])], false,
            true⟩) := rfl
    have hboth : run Conduct.cancelling.receiver false twoNodes ⟨[], false, false⟩ = _ :=
      Conduct.run_of_delivered (.header header_twoNodes) hkey nofun (.nil _) hdeliver
    rw [hrun, Conduct.items_of_fired] at hboth
    obtain ⟨-, hlog⟩ := Prod.mk.inj hboth
    obtain ⟨-, rfl⟩ := List.cons.inj (Log.mk.inj hlog).1
    exact ⟨scan, hstops, hrun⟩

end RedisSnapshot.Scan
