import RedisSnapshot.Proofs.Scan.Items
import RedisSnapshot.Proofs.Scan.Prefix

/-!
# Scans that break off

A snapshot that is malformed or ends early has complete items up to some place, and there none. A
scan of it has told exactly the records of these items, those of a key all at once, so that the key
at which it breaks off has told nothing, however much of its value could be read.
-/

namespace RedisSnapshot

/-- The complete items of a snapshot, up to the first place behind its header where there is none.
Where there is no header either there are no items. -/
inductive CompleteItems (input : Bytes) : List Item → Prop where
  | behind {header front encoded tail : Bytes} {items : List Item}
      (hinput : input = front ++ (encoded ++ tail)) (hheader : Decoder.header.Reads header front)
      (hitems : Row Item.decoder.Reads items encoded)
      (htail : ∀ item front, front <+: tail → ¬ Item.decoder.Reads item front) :
      CompleteItems input items
  | headless (h : ∀ header front, front <+: input → ¬ Decoder.header.Reads header front) :
      CompleteItems input []

theorem Row.reads_unique {items others : List Item} {encoded other tail rest : Bytes}
    (hitems : Row Item.decoder.Reads items encoded) (hothers : Row Item.decoder.Reads others other)
    (htail : ∀ item front, front <+: tail → ¬ Item.decoder.Reads item front)
    (hrest : ∀ item front, front <+: rest → ¬ Item.decoder.Reads item front)
    (h : encoded ++ tail = other ++ rest) : items = others := by
  induction hitems generalizing others other with
  | nil =>
      -- Where only one of the rows goes on, there is an item where the other has found none.
      cases hothers with
      | nil => rfl
      | cons head _ =>
          rw [List.append_assoc] at h
          exact absurd head (htail _ _ ⟨_, h.symm⟩)
  | cons head _ ih =>
      cases hothers with
      | nil =>
          rw [List.append_assoc] at h
          exact absurd head (hrest _ _ ⟨_, h⟩)
      | cons other hlater =>
          rw [List.append_assoc, List.append_assoc] at h
          obtain ⟨rfl, _, hbehind⟩ := head.unique other h
          rw [ih hlater hbehind]

theorem CompleteItems.unique {input : Bytes} {items others : List Item}
    (hitems : CompleteItems input items) (hothers : CompleteItems input others) : items = others := by
  cases hitems with
  | behind hinput hheader hrow htail =>
      cases hothers with
      | behind hother hsecond hlater hrest =>
          obtain ⟨_, _, hbehind⟩ := hheader.unique hsecond (hinput.symm.trans hother)
          exact hrow.reads_unique hlater htail hrest hbehind
      | headless hnone => exact absurd hheader (hnone _ _ ⟨_, hinput.symm⟩)
  | headless hnone =>
      cases hothers with
      | behind hother hsecond _ _ => exact absurd hsecond (hnone _ _ ⟨_, hother.symm⟩)
      | headless _ => rfl

namespace Scan

open Reader

theorem not_reads_of_unsettled {ε α : Type} {reader : Reader ε α} {cursor : Cursor}
    (h : ∀ value after, reader.run cursor ≠ .done value after) (value : α) (front : Bytes)
    (hfront : front <+: cursor.rest) : ¬ reader.Reads value front := by
  obtain ⟨back, hback⟩ := hfront
  intro hreads
  have hrun := hreads cursor.offset back
  rw [hback] at hrun
  exact h _ _ hrun

theorem recordedItems_of_no_item {withAux : Bool} {source : Source} {banner : String}
    {progress : Progress} {cursor : Cursor} {told : List Event}
    (h : ∀ item after, Item.decoder.run cursor ≠ .done item after) :
    ∃ error offset, recordedItems withAux source banner progress cursor told =
      (⟨.error error, banner, progress.keys, offset⟩, told) := by
  cases hrun : Item.decoder.run cursor with
  | short need after => exact ⟨_, _, recordedItems_of_short hrun⟩
  | failed fault after => exact ⟨_, _, recordedItems_of_failed hrun⟩
  | done item after => exact absurd hrun (h item after)

theorem recorded_of_no_header {withAux : Bool} {source : Source}
    (h : ∀ header after, Decoder.header.run source.start ≠ .done header after) :
    ∃ error offset, recorded withAux source = (⟨.error error, none, 0, offset⟩, []) := by
  cases hrun : Decoder.header.run source.start with
  | short need after => exact ⟨_, _, recorded_of_short hrun⟩
  | failed fault after => exact ⟨_, _, recorded_of_failed hrun⟩
  | done header after => exact absurd hrun (h header after)

/-- From any place on, what is told is what the complete items there give. -/
theorem recordedItems_of_error {withAux : Bool} {source : Source} {banner : String} {error : Error}
    (cursor : Cursor) : ∀ (before : List Item) (told : List Event),
      (recordedItems withAux source banner (.behind before) cursor told).1.result = .error error →
        ∃ (items : List Item) (encoded tail : Bytes), cursor.rest = encoded ++ tail ∧
          Row Item.decoder.Reads items encoded ∧ .ending ∉ items ∧
          (∀ item front, front <+: tail → ¬ Item.decoder.Reads item front) ∧
          (recordedItems withAux source banner (.behind before) cursor told).2 =
            told ++ (Item.recordsOf withAux before items).map .record ∧
          (recordedItems withAux source banner (.behind before) cursor told).1.keys =
            (before ++ items).countP Item.isKey := by
  induction cursor using items_induction with
  | hstep cursor ih =>
      intro before told herror
      by_cases hdone : ∃ item after, Item.decoder.run cursor = .done item after
      · obtain ⟨item, after, hrun⟩ := hdone
        have hitem : item ≠ .ending := by
          rintro rfl
          rw [recordedItems_of_ending hrun] at herror
          cases herror
        rw [recordedItems_of_item hrun hitem, Item.advance_behind] at herror ⊢
        obtain ⟨used, hused, hreads⟩ := Item.composed_decoder.isExact _ _ _ hrun
        obtain ⟨items, encoded, tail, hrest, hrow, hopen, htail, htold, hkeys⟩ :=
          ih item after hrun _ _ herror
        refine ⟨item :: items, used ++ encoded, tail, ?_, .cons hreads hrow, ?_, htail, ?_, ?_⟩
        · rw [hused, hrest, List.append_assoc]
        · rw [List.mem_cons, not_or]
          exact ⟨hitem.symm, hopen⟩
        · rw [htold, Item.recordsOf, List.map_append, List.append_assoc]
        · rw [hkeys, List.append_assoc, List.singleton_append]
      · simp only [not_exists] at hdone
        obtain ⟨found, offset, heq⟩ := recordedItems_of_no_item hdone
        rw [heq]
        have hnone := not_reads_of_unsettled hdone
        refine ⟨[], [], cursor.rest, rfl, .nil, List.not_mem_nil, hnone, ?_, ?_⟩
        · exact (List.append_nil told).symm
        · rw [List.append_nil]
          rfl

/-- **Broken snapshots.** A scan that ends in an error has told the records of the complete items in
front of the place where it broke off, in order, and nothing else. The end is not among them, so it
has not told that it has finished, and its keys are those of these items. -/
theorem recorded_of_error {withAux : Bool} {source : Source} {error : Error}
    (h : (recorded withAux source).1.result = .error error) :
    ∃ items, CompleteItems source.input items ∧ .ending ∉ items ∧
      (∀ others, CompleteItems source.input others → others = items) ∧
      (recorded withAux source).2 = (Item.recordsOf withAux [] items).map .record ∧
      (recorded withAux source).1.keys = items.countP Item.isKey ∧
      .finished ∉ (recorded withAux source).2 := by
  have hfound : ∃ items, CompleteItems source.input items ∧ .ending ∉ items ∧
      (recorded withAux source).2 = (Item.recordsOf withAux [] items).map .record ∧
      (recorded withAux source).1.keys = items.countP Item.isKey := by
    by_cases hdone : ∃ header after, Decoder.header.run source.start = .done header after
    · obtain ⟨header, after, hrun⟩ := hdone
      rw [recorded_of_header hrun] at h ⊢
      obtain ⟨front, hfront, hreads⟩ := Decoder.composed_header.isExact _ _ _ hrun
      obtain ⟨items, encoded, tail, hrest, hrow, hopen, htail, htold, hkeys⟩ :=
        recordedItems_of_error after [] [] h
      rw [hrest] at hfront
      exact ⟨items, .behind hfront hreads hrow htail, hopen, htold, hkeys⟩
    · simp only [not_exists] at hdone
      obtain ⟨found, offset, heq⟩ := @recorded_of_no_header withAux _ hdone
      rw [heq]
      exact ⟨[], .headless (not_reads_of_unsettled hdone), List.not_mem_nil, rfl, rfl⟩
  obtain ⟨items, hitems, hopen, htold, hkeys⟩ := hfound
  refine ⟨items, hitems, hopen, fun others hothers => hothers.unique hitems, htold, hkeys, ?_⟩
  rw [htold, List.mem_map]
  rintro ⟨record, _, hrecord⟩
  cases hrecord

/-- A key, and behind it a list of two nodes, the second of which has no known container. -/
def brokenList : Bytes :=
  magic ++ [48, 48, 48, 57, 0, 1, 97, 1, 98, 18, 1, 107, 2, 1, 1, 120, 9, 1, 121, 0xFF]

theorem recorded_of_error_list :
    (recorded false (.ofBytes brokenList)).1.result =
        .error (.format (.quicklistContainer 9)) ∧
      (recorded false (.ofBytes brokenList)).2 = [.record (.keyed ⟨[97], 0⟩ (.string [98]))] ∧
      ∃ items, CompleteItems brokenList items ∧ .ending ∉ items ∧
        (∀ others, CompleteItems brokenList others → others = items) ∧
        (recorded false (.ofBytes brokenList)).2 = (Item.recordsOf false [] items).map .record ∧
        (recorded false (.ofBytes brokenList)).1.keys = items.countP Item.isKey ∧
        .finished ∉ (recorded false (.ofBytes brokenList)).2 := by
  have hheader : Decoder.header.run (Source.ofBytes brokenList).start =
      .done (magic ++ [48, 48, 48, 57])
        ⟨9, [0, 1, 97, 1, 98, 18, 1, 107, 2, 1, 1, 120, 9, 1, 121, 0xFF]⟩ := rfl
  have hkey : Item.decoder.run
      ⟨9, [0, 1, 97, 1, 98, 18, 1, 107, 2, 1, 1, 120, 9, 1, 121, 0xFF]⟩ =
        .done (.key [97] [.string [98]]) ⟨14, [18, 1, 107, 2, 1, 1, 120, 9, 1, 121, 0xFF]⟩ := rfl
  have hlist : Item.decoder.run ⟨14, [18, 1, 107, 2, 1, 1, 120, 9, 1, 121, 0xFF]⟩ =
      .failed (.malformed (.quicklistContainer 9)) ⟨24, [0xFF]⟩ := rfl
  have hwhole : recorded false (.ofBytes brokenList) =
      (⟨.error (.format (.quicklistContainer 9)), Text.lossy (magic ++ [48, 48, 48, 57]), 1, 24⟩,
        [.record (.keyed ⟨[97], 0⟩ (.string [98]))]) := by
    rw [recorded_of_header hheader, recordedItems_of_item hkey nofun,
      recordedItems_of_failed hlist]
    rfl
  have hresult : (recorded false (.ofBytes brokenList)).1.result =
      .error (.format (.quicklistContainer 9)) := congrArg (·.1.result) hwhole
  exact ⟨hresult, congrArg Prod.snd hwhole, recorded_of_error hresult⟩

end Scan

end RedisSnapshot
