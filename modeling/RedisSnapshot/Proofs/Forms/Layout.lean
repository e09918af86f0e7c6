import RedisSnapshot.Proofs.Forms.Node
import RedisSnapshot.Proofs.IdMap

/-!
# The layout of a stream node

A node is laid out with the differences between the ids of its entries and its own, each part of an id
by itself. An id behind that of the node can have the smaller sequence number, if its time is the
later one, and the difference between the two is negative then. Such an entry cannot be decoded, and
with it the node; a node that has none of these decodes to the entries that it was made from.
-/

namespace RedisSnapshot

namespace Stream

namespace NodeReader

variable {α β : Type}

/-- The reader fails for this cause when it comes to these elements, whatever stands behind them. -/
def Refuses (reader : NodeReader α) (cause : Malformed) (elements : List Bytes) : Prop :=
  ∀ rest, reader.run (elements ++ rest) = .error cause

theorem Refuses.append {reader : NodeReader α} {cause : Malformed} {elements : List Bytes}
    (h : reader.Refuses cause elements) (later : List Bytes) :
    reader.Refuses cause (elements ++ later) := by
  intro rest
  rw [List.append_assoc]
  exact h (later ++ rest)

theorem Refuses.bind {reader : NodeReader α} {cause : Malformed} {elements : List Bytes}
    (h : reader.Refuses cause elements) (next : α → NodeReader β) :
    (reader >>= next).Refuses cause elements := by
  intro rest
  rw [StateT.run_bind, h]
  rfl

/-- What comes first is taken, and what comes next is refused. -/
theorem Takes.bind_refuses {reader : NodeReader α} {next : α → NodeReader β} {first : α}
    {cause : Malformed} {front back : List Bytes} (hfront : reader.Takes first front)
    (hback : (next first).Refuses cause back) : (reader >>= next).Refuses cause (front ++ back) := by
  intro rest
  rw [List.append_assoc, hfront.run_bind]
  exact hback rest

theorem refuses_count {value : Int} (h : Word.Fits 64 value) (hneg : value < 0) :
    count.Refuses .nodeCount [Decimal.intBytes value] := by
  cases value with
  | ofNat value => exact absurd hneg (Int.not_lt.2 (Int.natCast_nonneg value))
  | negSucc value => exact (takes_integer h).bind_refuses fun _ => rfl

/-- A row of steps fails at the first of them that does. -/
theorem refuses_timesOnto {step : NodeReader α} {cause : Malformed} {accepted : α → Prop}
    {values : List α} {pieces : List (List Bytes)}
    (h : List.Forall₂ (fun value piece => (accepted value → step.Takes value piece) ∧
      (¬ accepted value → step.Refuses cause piece)) values pieces)
    (hrefused : ∃ value ∈ values, ¬ accepted value) (found : List α) :
    (timesOnto step values.length found).Refuses cause pieces.flatten := by
  induction h generalizing found with
  | nil =>
      obtain ⟨_, hmem, _⟩ := hrefused
      cases hmem
  | @cons value piece values pieces hvalue _ ih =>
      obtain ⟨htakes, hrefuses⟩ := hvalue
      by_cases haccepted : accepted value
      · have hlater : ∃ value ∈ values, ¬ accepted value := by
          obtain ⟨other, hmem, hother⟩ := hrefused
          rcases List.mem_cons.1 hmem with rfl | hmem
          · exact absurd haccepted hother
          · exact ⟨other, hmem, hother⟩
        exact (htakes haccepted).bind_refuses (ih hlater (value :: found))
      · exact ((hrefuses haccepted).bind _).append _

end NodeReader

/-! ### How a node is laid out -/

/-- How far a word lies ahead of another, which is less than nothing if it lies behind. -/
def ahead (base word : UInt64) : Int :=
  word.toNat - base.toNat

/-- The fields of an entry are its own, or it shares those of the node and has only their values. -/
inductive FieldElements (nodeFields : List Bytes) (fields : List (Bytes × Bytes)) :
    Bool → List Bytes → Prop where
  | own (hheld : fields.length < Word.count 63) :
      FieldElements nodeFields fields false
        (Decimal.bytes fields.length :: Packed.flatten fields)
  | shared (hfields : fields.map Prod.fst = nodeFields) :
      FieldElements nodeFields fields true (fields.map Prod.snd)

inductive EntryLayout (node : StreamId) (nodeFields : List Bytes) :
    StreamId × Entry → List Bytes → Prop where
  | mk {id : StreamId} {entry : Entry} {flags : Int} {shared : Bool} {body : List Bytes}
      {back : Bytes} (hflags : Marks flags entry.deleted shared)
      (hms : Word.Fits 64 (ahead node.ms id.ms)) (hseq : Word.Fits 64 (ahead node.seq id.seq))
      (hbody : FieldElements nodeFields entry.fields shared body) :
      EntryLayout node nodeFields (id, entry)
        (Decimal.intBytes flags :: Decimal.intBytes (ahead node.ms id.ms) ::
          Decimal.intBytes (ahead node.seq id.seq) :: (body ++ [back]))

inductive NodeLayout (node : StreamId) (entries : List (StreamId × Entry)) : List Bytes → Prop where
  | mk {present deleted : Nat} {fields : List Bytes} {terminator : Bytes}
      {pieces : List (List Bytes)} (hcount : present + deleted = entries.length)
      (hheld : entries.length < Word.count 63) (hfields : fields.length < Word.count 63)
      (hpieces : List.Forall₂ (EntryLayout node fields) entries pieces) :
      NodeLayout node entries
        (Decimal.bytes present :: Decimal.bytes deleted :: Decimal.bytes fields.length ::
          (fields ++ terminator :: pieces.flatten))

/-- Neither part of the id is below that of the node. -/
def IsAhead (node : StreamId) (entry : StreamId × Entry) : Prop :=
  0 ≤ ahead node.ms entry.1.ms ∧ 0 ≤ ahead node.seq entry.1.seq

theorem ahead_nonneg_iff {base word : UInt64} : 0 ≤ ahead base word ↔ base ≤ word := by
  rw [ahead, UInt64.le_iff_toNat_le]
  omega

/-- An id that is not below the node's has not the smaller time. -/
theorem isAhead_iff {node : StreamId} {entry : StreamId × Entry} (h : ¬ entry.1 < node) :
    IsAhead node entry ↔ node.seq ≤ entry.1.seq := by
  have hms : node.ms ≤ entry.1.ms := by
    rw [StreamId.lt_iff, UInt64.lt_iff_toNat_lt] at h
    rw [UInt64.le_iff_toNat_le]
    omega
  rw [IsAhead, ahead_nonneg_iff, ahead_nonneg_iff]
  exact and_iff_right hms

theorem exists_ahead_eq {base word : UInt64} (hnonneg : 0 ≤ ahead base word)
    (hfits : Word.Fits 64 (ahead base word)) :
    ∃ distance, ahead base word = (distance : Nat) ∧ base.toNat + distance = word.toNat ∧
      distance < Word.count 63 := by
  obtain ⟨distance, hdistance⟩ := Int.eq_ofNat_of_zero_le hnonneg
  have hlt : (distance : Int) < Word.count 63 := hdistance ▸ hfits.2
  refine ⟨distance, hdistance, ?_, Int.ofNat_lt.1 hlt⟩
  rw [ahead] at hdistance
  omega

theorem EntryLayout.entryElements {node : StreamId} {nodeFields : List Bytes}
    {entry : StreamId × Entry} {elements : List Bytes} (h : EntryLayout node nodeFields entry elements)
    (hahead : IsAhead node entry) : EntryElements node nodeFields entry elements := by
  obtain @⟨id, entry, flags, shared, body, back, hflags, hms, hseq, hbody⟩ := h
  obtain ⟨ms, hmsEq, hmsSum, hmsLt⟩ := exists_ahead_eq hahead.1 hms
  obtain ⟨seq, hseqEq, hseqSum, hseqLt⟩ := exists_ahead_eq hahead.2 hseq
  have hid : Distance node id ms seq := ⟨hmsSum, hseqSum, hmsLt, hseqLt⟩
  rw [hmsEq, hseqEq]
  cases hbody with
  | own hheld => exact .own hflags hid hheld
  | shared hfields => exact .shared hflags hid hfields

open NodeReader in
/-- A difference below nothing is no count, be it that of the times or that of the sequence numbers. -/
theorem EntryLayout.refused {node : StreamId} {nodeFields : List Bytes} {entry : StreamId × Entry}
    {elements : List Bytes} (h : EntryLayout node nodeFields entry elements)
    (hbehind : ¬ IsAhead node entry) : (nodeEntry node nodeFields).Refuses .nodeCount elements := by
  obtain @⟨id, entry, flags, shared, body, back, hflags, hms, hseq, hbody⟩ := h
  rw [← List.singleton_append]
  refine (takes_integer hflags.fits).bind_refuses ?_
  by_cases hmsNonneg : 0 ≤ ahead node.ms id.ms
  · obtain ⟨ms, hmsEq, _, hmsLt⟩ := exists_ahead_eq hmsNonneg hms
    have hseqNeg : ahead node.seq id.seq < 0 :=
      Int.not_le.1 fun hseqNonneg => hbehind ⟨hmsNonneg, hseqNonneg⟩
    rw [hmsEq, ← List.singleton_append]
    refine (takes_count hmsLt).bind_refuses ?_
    exact ((refuses_count hseq hseqNeg).bind _).append _
  · exact ((refuses_count hms (Int.not_le.1 hmsNonneg)).bind _).append _

theorem NodeLayout.nodeElements {node : StreamId} {entries : List (StreamId × Entry)}
    {elements : List Bytes} (h : NodeLayout node entries elements)
    (hahead : ∀ entry ∈ entries, IsAhead node entry) : NodeElements node entries elements := by
  obtain @⟨present, deleted, fields, terminator, pieces, hcount, hheld, hfields, hpieces⟩ := h
  have hentries : List.Forall₂ (EntryElements node fields) entries pieces :=
    ((List.forall₂_and_left entries pieces).2 ⟨hahead, hpieces⟩).imp
      fun _ _ hentry => hentry.2.entryElements hentry.1
  exact .mk hcount hheld hfields hentries

open NodeReader in
theorem NodeLayout.refused {node : StreamId} {entries : List (StreamId × Entry)}
    {elements : List Bytes} (h : NodeLayout node entries elements)
    (hbehind : ∃ entry ∈ entries, ¬ IsAhead node entry) :
    decodeNode node elements = .error (.malformed .nodeCount) := by
  obtain @⟨present, deleted, fields, terminator, pieces, hcount, hheld, hfields, hpieces⟩ := h
  have hentries : (times entries.length (nodeEntry node fields)).Refuses .nodeCount
      pieces.flatten := by
    have hrow := hpieces.imp fun _ _ hentry =>
      And.intro (fun hahead => takes_entry (hentry.entryElements hahead)) hentry.refused
    exact (refuses_timesOnto hrow hbehind []).bind _
  have hrun : (nodeEntries node).run
      (Decimal.bytes present :: Decimal.bytes deleted :: Decimal.bytes fields.length ::
        (fields ++ terminator :: pieces.flatten)) = .error .nodeCount := by
    have hpresent : present < Word.count 63 := by omega
    have hdeleted : deleted < Word.count 63 := by omega
    refine ((takes_count hpresent).run_bind _ _).trans ?_
    refine ((takes_count hdeleted).run_bind _ _).trans ?_
    refine ((takes_count hfields).run_bind _ _).trans ?_
    refine ((takes_elements fields).run_bind _ _).trans ?_
    refine ((takes_next terminator).run_bind _ _).trans ?_
    rw [hcount, ← List.append_nil pieces.flatten]
    exact hentries.bind _ []
  rw [decodeNode, hrun]

/-- **Layouts.** Entries whose ids are not below that of their node come back, each under its own id,
if no sequence number is below the node's; one such number is enough for the node to be refused. -/
theorem decode_layout {node : StreamId} {entries : List (StreamId × Entry)} {elements : List Bytes}
    (h : NodeLayout node entries elements) (hids : (entries.map Prod.fst).Nodup)
    (horder : ∀ entry ∈ entries, ¬ entry.1 < node) :
    ((∀ entry ∈ entries, node.seq ≤ entry.1.seq) →
      ∃ decoded, decodeNode node elements = .ok decoded ∧
        ∀ id entry, (IdMap.ofList decoded).get? id = some entry ↔ (id, entry) ∈ entries) ∧
    ((∃ entry ∈ entries, entry.1.seq < node.seq) →
      decodeNode node elements = .error (.malformed .nodeCount)) := by
  constructor
  · intro hahead
    have hentries : ∀ entry ∈ entries, IsAhead node entry := fun entry hmem =>
      (isAhead_iff (horder entry hmem)).2 (hahead entry hmem)
    refine ⟨entries, (h.nodeElements hentries).decode_eq, fun id entry => ?_⟩
    rw [IdMap.get?_eq_some_iff, IdMap.mem_ofList_of_nodup hids]
  · rintro ⟨entry, hmem, hlt⟩
    apply h.refused
    refine ⟨entry, hmem, ?_⟩
    rw [isAhead_iff (horder entry hmem)]
    exact UInt64.not_le.2 hlt

/-- An entry under the id of its node, and a deleted one two milliseconds later. -/
def laterEntries (seq : UInt64) : List (StreamId × Entry) :=
  [(⟨1, 5⟩, ⟨false, [([102], [118])]⟩), (⟨3, seq⟩, ⟨true, [([103], [119])]⟩)]

open Decimal in
def laterElements (difference : Int) : List Bytes :=
  [bytes 1, bytes 1, bytes 1, [102], bytes 0] ++
    [intBytes 2, intBytes 0, intBytes 0, [118], bytes 4] ++
    [intBytes 1, intBytes 2, intBytes difference, bytes 1, [103], [119], bytes 6]

theorem layout_later (seq : UInt64) (h : Word.Fits 64 (ahead 5 seq)) :
    NodeLayout ⟨1, 5⟩ (laterEntries seq) (laterElements (ahead 5 seq)) := by
  have htime : Word.Fits 64 (ahead 1 3) := by decide
  have htwo : 2 < Word.count 63 := by decide
  have hfirst := @EntryLayout.mk ⟨1, 5⟩ [[102]] ⟨1, 5⟩ ⟨false, [([102], [118])]⟩ 2 true _ (Decimal.bytes 4)
    ⟨by decide, rfl, rfl⟩ (by decide) (by decide) (.shared rfl)
  have hsecond := @EntryLayout.mk ⟨1, 5⟩ [[102]] ⟨3, seq⟩ ⟨true, [([103], [119])]⟩ 1 false _ (Decimal.bytes 6)
    ⟨by decide, rfl, rfl⟩ htime h (.own (by decide))
  exact @NodeLayout.mk ⟨1, 5⟩ (laterEntries seq) 1 1 [[102]] (Decimal.bytes 0) _ rfl htwo (by decide)
    (.cons hfirst (.cons hsecond .nil))

/-- The same entries but for a sequence number, which is above that of the node or below it. -/
theorem decode_layout_later :
    (NodeLayout ⟨1, 5⟩ (laterEntries 7) (laterElements 2) ∧
      ((laterEntries 7).map Prod.fst).Nodup ∧ (∀ entry ∈ laterEntries 7, ¬ entry.1 < ⟨1, 5⟩) ∧
      ∃ decoded, decodeNode ⟨1, 5⟩ (laterElements 2) = .ok decoded ∧
        ∀ id entry, (IdMap.ofList decoded).get? id = some entry ↔ (id, entry) ∈ laterEntries 7) ∧
    NodeLayout ⟨1, 5⟩ (laterEntries 3) (laterElements (-2)) ∧
      ((laterEntries 3).map Prod.fst).Nodup ∧ (∀ entry ∈ laterEntries 3, ¬ entry.1 < ⟨1, 5⟩) ∧
      decodeNode ⟨1, 5⟩ (laterElements (-2)) = .error (.malformed .nodeCount) := by
  have hseven : NodeLayout ⟨1, 5⟩ (laterEntries 7) (laterElements 2) :=
    layout_later 7 (by decide)
  have hthree : NodeLayout ⟨1, 5⟩ (laterEntries 3) (laterElements (-2)) :=
    layout_later 3 (by decide)
  have hsevenIds : ((laterEntries 7).map Prod.fst).Nodup := by decide
  have hthreeIds : ((laterEntries 3).map Prod.fst).Nodup := by decide
  have hsevenOrder : ∀ entry ∈ laterEntries 7, ¬ entry.1 < ⟨1, 5⟩ := by decide
  have hthreeOrder : ∀ entry ∈ laterEntries 3, ¬ entry.1 < ⟨1, 5⟩ := by decide
  obtain ⟨hdecoded, _⟩ := decode_layout hseven hsevenIds hsevenOrder
  obtain ⟨_, hrefused⟩ := decode_layout hthree hthreeIds hthreeOrder
  exact ⟨⟨hseven, hsevenIds, hsevenOrder, hdecoded (by decide)⟩,
    hthree, hthreeIds, hthreeOrder, hrefused (by decide)⟩

end Stream

end RedisSnapshot
