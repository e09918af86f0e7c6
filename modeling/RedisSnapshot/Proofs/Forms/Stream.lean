import RedisSnapshot.Proofs.Forms.Node
import RedisSnapshot.Proofs.Forms.Value
import RedisSnapshot.Proofs.IdMap

/-!
# The forms of a stream

A stream is written as its nodes, a few numbers and ids, and its groups. Three versions of the
encoding have been in use, each with fields that the one before it lacks. Where a field is missing
from the version the stream has none. Entries and pending entries may stand in any order, and a
consumer has only the ids of what is pending for it: the rest stands with its group.
-/

namespace RedisSnapshot

/-- An id in sixteen bytes, both words with the most significant byte first. -/
def StreamId.raw (id : StreamId) : Bytes :=
  Word.toBig 8 id.ms.toNat ++ Word.toBig 8 id.seq.toNat

inductive StreamIdForm (id : StreamId) : Bytes → Prop where
  | mk {front back : Bytes} (hms : LengthForm id.ms.toNat front)
      (hseq : LengthForm id.seq.toNat back) : StreamIdForm id (front ++ back)

def TimeForm (time : Nat) (bytes : Bytes) : Prop :=
  time < Nat.pow 256 8 ∧ bytes = Word.toLittle 8 time

/-- A field that is there in some versions of an encoding, and in the others is not. -/
inductive LaterForm {α : Type} (isThere : Prop) (form : α → Bytes → Prop) :
    Option α → Bytes → Prop where
  | there {value : α} {bytes : Bytes} (h : isThere) (hform : form value bytes) :
      LaterForm isThere form (some value) bytes
  | missing (h : ¬ isThere) : LaterForm isThere form none []

namespace Stream

inductive NodeForm (entries : List (StreamId × Entry)) : Bytes → Prop where
  | mk {node : StreamId} {elements : List Bytes} {front back : Bytes}
      (hnode : StringForm node.raw front) (helements : NodeElements node entries elements)
      (hback : PackedForm (Packed.Listpack.Form elements) back) : NodeForm entries (front ++ back)

inductive PendingForm : StreamId × Pending → Bytes → Prop where
  | mk {id : StreamId} {pending : Pending} {front back : Bytes}
      (htime : TimeForm pending.deliveryTime front)
      (hcount : LengthForm pending.deliveryCount back) :
      PendingForm (id, pending) (id.raw ++ (front ++ back))

/-- What is pending for a consumer is pending for its group. -/
inductive ReferenceForm (group : IdMap Pending) : StreamId × Pending → Bytes → Prop where
  | mk {entry : StreamId × Pending} (h : entry ∈ group.toList) :
      ReferenceForm group entry entry.1.raw

inductive ConsumerForm (version : Nat) (group : IdMap Pending) (consumer : Consumer) :
    Bytes → Prop where
  | mk {rows : List (StreamId × Pending)} {name seen active pending : Bytes}
      (hname : StringForm consumer.name name) (hseen : TimeForm consumer.seenTime seen)
      (hactive : LaterForm (3 ≤ version) TimeForm consumer.activeTime active)
      (hrows : ∀ entry, entry ∈ rows ↔ entry ∈ consumer.pending.toList)
      (hpending : CountedForm (ReferenceForm group) rows pending) :
      ConsumerForm version group consumer (name ++ (seen ++ (active ++ pending)))

inductive GroupForm (version : Nat) (group : Group) : Bytes → Prop where
  | mk {rows : List (StreamId × Pending)} {name last read pending consumers : Bytes}
      (hname : StringForm group.name name) (hlast : StreamIdForm group.lastId last)
      (hread : LaterForm (2 ≤ version) LengthForm group.entriesRead read)
      (hrows : rows.Perm group.pending.toList) (hpending : CountedForm PendingForm rows pending)
      (hconsumers : CountedForm (ConsumerForm version group.pending) group.consumers consumers) :
      GroupForm version group (name ++ (last ++ (read ++ (pending ++ consumers))))

inductive Form (version : Nat) (stream : Stream) : Bytes → Prop where
  | mk {nodes : List (List (StreamId × Entry))}
      {entries length last first maxDeleted added groups : Bytes}
      (hnodes : nodes.flatten.Perm stream.entries.toList)
      (hentries : CountedForm NodeForm nodes entries) (hlength : LengthForm stream.length length)
      (hlast : StreamIdForm stream.lastId last)
      (hfirst : LaterForm (2 ≤ version) StreamIdForm stream.firstId first)
      (hmaxDeleted : LaterForm (2 ≤ version) StreamIdForm stream.maxDeletedId maxDeleted)
      (hadded : LaterForm (2 ≤ version) LengthForm stream.entriesAdded added)
      (hgroups : CountedForm (GroupForm version) stream.groups groups) :
      Form version stream
        (entries ++ (length ++ (last ++ (first ++ (maxDeleted ++ (added ++ groups))))))

/-- The versions of the encoding, each with a tag of its own. -/
inductive Tagged : UInt8 → Nat → Prop where
  | first : Tagged 15 1
  | second : Tagged 19 2
  | third : Tagged 21 3

/-- The stream has the fields of the version and no others, and consumers wait for nothing that is
not pending for their group as well. -/
structure IsOf (version : Nat) (stream : Stream) : Prop where
  firstId : stream.firstId.isSome ↔ 2 ≤ version
  maxDeletedId : stream.maxDeletedId.isSome ↔ 2 ≤ version
  entriesAdded : stream.entriesAdded.isSome ↔ 2 ≤ version
  entriesRead : ∀ group ∈ stream.groups, (group.entriesRead.isSome ↔ 2 ≤ version)
  activeTime : ∀ group ∈ stream.groups, ∀ consumer ∈ group.consumers,
    (consumer.activeTime.isSome ↔ 3 ≤ version)
  pending : ∀ group ∈ stream.groups, ∀ consumer ∈ group.consumers,
    ∀ entry ∈ consumer.pending.toList, entry ∈ group.pending.toList

end Stream

theorem StreamId.raw_length (id : StreamId) : id.raw.length = 16 := by
  rw [raw, List.length_append, Word.toBig_length, Word.toBig_length]

theorem StreamId.ofRaw_raw (id : StreamId) : ofRaw id.raw = id := by
  have hms : Word.big (Word.toBig 8 id.ms.toNat) = id.ms.toNat := Word.big_toBig id.ms.toNat_lt
  have hseq : Word.big (Word.toBig 8 id.seq.toNat) = id.seq.toNat := Word.big_toBig id.seq.toNat_lt
  rw [ofRaw, raw, List.take_left' (Word.toBig_length 8 _), List.drop_left' (Word.toBig_length 8 _),
    hms, hseq, ofNats, UInt64.ofNat_toNat, UInt64.ofNat_toNat]

theorem LaterForm.isSome_iff {α : Type} {isThere : Prop} {form : α → Bytes → Prop}
    {value : Option α} {bytes : Bytes} (h : LaterForm isThere form value bytes) :
    value.isSome ↔ isThere := by
  cases h with
  | there h _ => exact iff_of_true rfl h
  | missing h => exact iff_of_false Bool.false_ne_true h

namespace Stream

theorem ConsumerForm.pending {version : Nat} {group : IdMap Pending} {consumer : Consumer}
    {bytes : Bytes} (h : ConsumerForm version group consumer bytes) :
    ∀ entry ∈ consumer.pending.toList, entry ∈ group.toList := by
  obtain ⟨_, _, _, hrows, hpending⟩ := h
  intro entry hmem
  obtain ⟨_, ⟨hgroup⟩⟩ := hpending.exists_form ((hrows entry).2 hmem)
  exact hgroup

theorem ConsumerForm.activeTime {version : Nat} {group : IdMap Pending} {consumer : Consumer}
    {bytes : Bytes} (h : ConsumerForm version group consumer bytes) :
    consumer.activeTime.isSome ↔ 3 ≤ version := by
  obtain ⟨_, _, hactive, _, _⟩ := h
  exact hactive.isSome_iff

theorem Form.isOf {version : Nat} {stream : Stream} {bytes : Bytes}
    (h : Form version stream bytes) : stream.IsOf version := by
  obtain ⟨_, _, _, _, hfirst, hmaxDeleted, hadded, hgroups⟩ := h
  refine ⟨hfirst.isSome_iff, hmaxDeleted.isSome_iff, hadded.isSome_iff, ?_, ?_, ?_⟩
  · intro group hgroup
    obtain ⟨_, ⟨_, _, hread, _, _, _⟩⟩ := hgroups.exists_form hgroup
    exact hread.isSome_iff
  · intro group hgroup consumer hconsumer
    obtain ⟨_, ⟨_, _, _, _, _, hconsumers⟩⟩ := hgroups.exists_form hgroup
    obtain ⟨_, hform⟩ := hconsumers.exists_form hconsumer
    exact hform.activeTime
  · intro group hgroup consumer hconsumer
    obtain ⟨_, ⟨_, _, _, _, _, hconsumers⟩⟩ := hgroups.exists_form hgroup
    obtain ⟨_, hform⟩ := hconsumers.exists_form hconsumer
    exact hform.pending

end Stream

namespace Decoder

open Reader RedisSnapshot.Stream

theorem reads_rawId (id : StreamId) : rawId.Reads id id.raw := by
  have hread := (Reads.take (ε := Fault) id.raw_length).map StreamId.ofRaw
  rwa [StreamId.ofRaw_raw] at hread

theorem reads_lengthId (id : StreamId) (bytes : Bytes) (h : StreamIdForm id bytes) :
    lengthId.Reads id bytes := by
  obtain ⟨hms, hseq⟩ := h
  have hid : StreamId.ofNats id.ms.toNat id.seq.toNat = id := by
    rw [StreamId.ofNats, UInt64.ofNat_toNat, UInt64.ofNat_toNat]
  refine (reads_length hms).bind ((reads_length hseq).bind_last ?_)
  rw [hid]
  exact Reads.pure id

theorem reads_time (time : Nat) (bytes : Bytes) (h : TimeForm time bytes) :
    (little 8 : Decoder Nat).Reads time bytes := by
  obtain ⟨hlt, rfl⟩ := h
  exact Reads.little hlt

theorem reads_whenSome {α : Type} {isThere : Prop} [Decidable isThere] {form : α → Bytes → Prop}
    {reader : Decoder α} (hreader : ∀ value bytes, form value bytes → reader.Reads value bytes)
    {value : Option α} {bytes : Bytes} (h : LaterForm isThere form value bytes) :
    (whenSome isThere reader).Reads value bytes := by
  cases h with
  | there h hform =>
      rw [whenSome, if_pos (decide_eq_true h)]
      exact (hreader _ _ hform).map some
  | missing h =>
      rw [whenSome, if_neg (by simpa using h)]
      exact Reads.pure none

theorem reads_streamNode (entries : List (StreamId × Entry)) (bytes : Bytes)
    (h : Stream.NodeForm entries bytes) : streamNode.Reads entries bytes := by
  obtain ⟨hnode, helements, ⟨hblob, hstring⟩⟩ := h
  refine (reads_string hnode).bind ?_
  rw [if_pos (StreamId.raw_length _), StreamId.ofRaw_raw]
  refine (reads_string hstring).bind_last ((Reads.ofExcept hblob.decode_eq).bind_last ?_)
  exact Reads.ofExcept helements.decode_eq

theorem reads_pendingEntry (entry : StreamId × Pending) (bytes : Bytes)
    (h : PendingForm entry bytes) : pendingEntry.Reads entry bytes := by
  obtain ⟨htime, hcount⟩ := h
  refine (reads_rawId _).bind ((reads_time _ _ htime).bind ?_)
  exact (reads_length hcount).bind_last (Reads.pure _)

theorem reads_consumerEntry {group : IdMap Pending} (name : Bytes) (entry : StreamId × Pending)
    (bytes : Bytes) (h : ReferenceForm group entry bytes) :
    (consumerEntry group name).Reads entry bytes := by
  obtain ⟨hmem⟩ := h
  refine (reads_rawId _).bind_last ?_
  -- What stands with the group is found there, for the id has no second entry in it.
  rw [IdMap.get?_of_mem hmem]
  exact Reads.pure entry

theorem reads_streamConsumer {version : Nat} {group : IdMap Pending} (consumer : Consumer)
    (bytes : Bytes) (h : ConsumerForm version group consumer bytes) :
    (streamConsumer version group).Reads consumer bytes := by
  obtain ⟨hname, hseen, hactive, hrows, hpending⟩ := h
  refine (reads_string hname).bind ((reads_time _ _ hseen).bind ?_)
  refine (reads_whenSome reads_time hactive).bind ?_
  refine reads_counted (reads_consumerEntry consumer.name) ?_ hpending
  rw [IdMap.ofList_eq hrows]
  exact Reads.pure consumer

theorem reads_streamGroup {version : Nat} (group : Group) (bytes : Bytes)
    (h : GroupForm version group bytes) : (streamGroup version).Reads group bytes := by
  obtain ⟨hname, hlast, hread, hrows, ⟨hcount, hbody⟩, hconsumers⟩ := h
  refine (reads_string hname).bind ((reads_lengthId _ _ hlast).bind ?_)
  refine (reads_whenSome (fun _ _ => reads_length) hread).bind ?_
  have hpending := (Reads.times (hbody.imp reads_pendingEntry) rfl).map IdMap.ofList
  rw [IdMap.ofList_eq_of_perm hrows] at hpending
  rw [List.append_assoc]
  refine (reads_length hcount).bind (hpending.bind ?_)
  exact reads_counted reads_streamConsumer (Reads.pure group) hconsumers

theorem reads_stream {version : Nat} {stream : Stream} {bytes : Bytes}
    (h : Stream.Form version stream bytes) : (Decoder.stream version).Reads stream bytes := by
  obtain ⟨hnodes, hentries, hlength, hlast, hfirst, hmaxDeleted, hadded, hgroups⟩ := h
  refine reads_counted_bind reads_streamNode hentries ?_
  refine (reads_length hlength).bind ((reads_lengthId _ _ hlast).bind ?_)
  refine (reads_whenSome reads_lengthId hfirst).bind ?_
  refine (reads_whenSome reads_lengthId hmaxDeleted).bind ?_
  refine (reads_whenSome (fun _ _ => reads_length) hadded).bind ?_
  refine reads_counted reads_streamGroup ?_ hgroups
  rw [IdMap.ofList_eq_of_perm hnodes]
  exact Reads.pure stream

/-- **Streams.** Every form of a stream, in any version, is decoded to the one record of the stream,
and not a byte behind it is taken. -/
theorem decode_streamForm {tag : UInt8} {version : Nat} {stream : Stream} {encoded : Bytes}
    (htag : Tagged tag version) (h : Stream.Form version stream encoded) (source : Source) (key : Key)
    (offset : Nat) (rest : Bytes) :
    source.decode (records tag key) ⟨offset, encoded ++ rest⟩ =
        (.ok [.keyed key (.stream stream)], ⟨offset + encoded.length, rest⟩) ∧
      stream.IsOf version := by
  have hvalues : (values tag).Reads [.stream stream] encoded := by
    cases htag with
    | first | second | third => exact (reads_stream h).bind_last (Reads.pure _)
  exact ⟨decode_records hvalues source key offset rest, h.isOf⟩

/-- Two entries behind one node, the first of them deleted and with the field of the node, and a
group whose consumer waits for the second. -/
def delivered : Stream where
  entries := .ofList [(⟨100, 1⟩, ⟨true, [([102], [118])]⟩), (⟨105, 0⟩, ⟨false, [([103], [119])]⟩)]
  length := 1
  lastId := ⟨105, 0⟩
  firstId := some ⟨105, 0⟩
  maxDeletedId := some ⟨100, 1⟩
  entriesAdded := some 2
  groups := [⟨[103], ⟨105, 0⟩, some 2, .ofList [(⟨105, 0⟩, ⟨77, 1⟩)],
    [⟨[99], 88, some 99, .ofList [(⟨105, 0⟩, ⟨77, 1⟩)]⟩]⟩]

/-- The elements of the node, which are strings of one byte each. -/
def deliveredElements : Bytes :=
  [49, 49, 49, 102, 48, 51, 48, 49, 118, 52, 48, 53, 48, 49, 103, 119, 54]

def deliveredNode : Bytes :=
  [58, 0, 0, 0, 17, 0] ++ deliveredElements.flatMap (fun byte => [129, byte, 2]) ++ [0xFF]

def deliveredBytes : Bytes :=
  [1, 16, 0, 0, 0, 0, 0, 0, 0, 100, 0, 0, 0, 0, 0, 0, 0, 0, 58] ++ deliveredNode ++
    [1, 64, 105, 0, 64, 105, 0, 64, 100, 1, 2, 1, 1, 103, 64, 105, 0, 2, 1, 0, 0, 0, 0, 0, 0, 0, 105,
      0, 0, 0, 0, 0, 0, 0, 0, 77, 0, 0, 0, 0, 0, 0, 0, 1, 1, 1, 99, 88, 0, 0, 0, 0, 0, 0, 0, 99, 0,
      0, 0, 0, 0, 0, 0, 1, 0, 0, 0, 0, 0, 0, 0, 105, 0, 0, 0, 0, 0, 0, 0, 0]

theorem nodeElements_delivered :
    NodeElements ⟨100, 0⟩ delivered.entries.toList (deliveredElements.map fun byte => [byte]) := by
  have hfirst := @EntryElements.shared ⟨100, 0⟩ [[102]] ⟨100, 1⟩ ⟨true, [([102], [118])]⟩ 3 0 1 [52]
    ⟨by decide, rfl, rfl⟩ ⟨rfl, rfl, by decide, by decide⟩ rfl
  have hsecond := @EntryElements.own ⟨100, 0⟩ [[102]] ⟨105, 0⟩ ⟨false, [([103], [119])]⟩ 0 5 0 [54]
    ⟨by decide, rfl, rfl⟩ ⟨rfl, rfl, by decide, by decide⟩ (by decide)
  have hnode := @NodeElements.mk ⟨100, 0⟩ _ 1 1 [[102]] [48] _ rfl (by decide) (by decide)
    (.cons hfirst (.cons hsecond .nil))
  have helements : Decimal.bytes 1 :: Decimal.bytes 1 :: Decimal.bytes 1 :: ([[102]] ++ [48] ::
      [Decimal.intBytes 3 :: Decimal.bytes 0 :: Decimal.bytes 1 :: ([[118]] ++ [[52]]),
        Decimal.intBytes 0 :: Decimal.bytes 5 :: Decimal.bytes 0 :: Decimal.bytes 1 ::
          ([[103], [119]] ++ [[54]])].flatten) = deliveredElements.map fun byte => [byte] := by
    decide +kernel
  rw [← helements]
  exact hnode

theorem nodeForm_delivered :
    Stream.NodeForm delivered.entries.toList
      (16 :: StreamId.raw ⟨100, 0⟩ ++ 58 :: deliveredNode) := by
  have hstring : ∀ bytes : Bytes, bytes.length < 64 →
      StringForm bytes (UInt8.ofNat bytes.length :: bytes) := fun bytes hlength =>
    .plain (.six hlength) (Nat.lt_trans hlength (by decide))
  have hbody : ∀ bytes : Bytes, Row Packed.Listpack.EntryForm (bytes.map fun byte => [byte])
      (bytes.flatMap fun byte => [129, byte, 2]) := by
    intro bytes
    induction bytes with
    | nil => exact .nil
    | cons byte bytes ih =>
        have hcontent : Packed.Listpack.ContentForm [byte] [129, byte] :=
          @Packed.Listpack.ContentForm.string6 [byte] (Nat.lt_of_sub_eq_succ rfl)
        exact .cons (@Packed.Listpack.EntryForm.mk _ _ [2] hcontent rfl) ih
  have hblob : Packed.Listpack.Form (deliveredElements.map fun byte => [byte]) deliveredNode :=
    @Packed.Listpack.Form.mk _ [58, 0, 0, 0] _ [] 17 rfl (by decide) (.inr rfl)
      (hbody deliveredElements)
  exact .mk (hstring _ (by decide)) nodeElements_delivered (.mk hblob (hstring _ (by decide)))

theorem form_delivered : Stream.Form 3 delivered deliveredBytes := by
  have hone : LengthForm 1 [1] := .six (by decide)
  have htwo : LengthForm 2 [2] := .six (by decide)
  have hname : ∀ byte : UInt8, StringForm [byte] [1, byte] := fun byte =>
    @StringForm.plain [byte] [1] hone (Nat.lt_of_sub_eq_succ rfl)
  have hlast : StreamIdForm ⟨105, 0⟩ [64, 105, 0] :=
    @StreamIdForm.mk _ [64, 105] [0] (@LengthForm.fourteen 105 (by decide)) (.six (by decide))
  have hdeleted : StreamIdForm ⟨100, 1⟩ [64, 100, 1] :=
    @StreamIdForm.mk _ [64, 100] [1] (@LengthForm.fourteen 100 (by decide)) hone
  have htime : ∀ time : Nat, time < Nat.pow 256 8 → TimeForm time (Word.toLittle 8 time) :=
    fun _ hlt => ⟨hlt, rfl⟩
  have hpending : PendingForm (⟨105, 0⟩, ⟨77, 1⟩)
      (StreamId.raw ⟨105, 0⟩ ++ (Word.toLittle 8 77 ++ [1])) := .mk (htime 77 (by decide)) hone
  have hreference : ReferenceForm (.ofList [(⟨105, 0⟩, ⟨77, 1⟩)]) (⟨105, 0⟩, ⟨77, 1⟩)
      (StreamId.raw ⟨105, 0⟩) := .mk List.mem_cons_self
  have hconsumer := @ConsumerForm.mk 3 (.ofList [(⟨105, 0⟩, ⟨77, 1⟩)])
    ⟨[99], 88, some 99, .ofList [(⟨105, 0⟩, ⟨77, 1⟩)]⟩ _ _ _ _ _ (hname 99) (htime 88 (by decide))
    (.there (by decide) (htime 99 (by decide))) (fun _ => Iff.rfl)
    (@CountedForm.mk _ _ [_] [1] _ hone (.cons hreference .nil))
  have hgroup := @GroupForm.mk 3 ⟨[103], ⟨105, 0⟩, some 2, .ofList [(⟨105, 0⟩, ⟨77, 1⟩)], [_]⟩
    _ _ _ _ _ _ (hname 103) hlast (.there (by decide) htwo) (.refl _)
    (@CountedForm.mk _ _ [_] [1] _ hone (.cons hpending .nil))
    (@CountedForm.mk _ _ [_] [1] _ hone (.cons hconsumer .nil))
  exact @Stream.Form.mk 3 delivered [delivered.entries.toList] _ _ _ _ _ _ _ (.refl _)
    (@CountedForm.mk _ _ [_] [1] _ hone (.cons nodeForm_delivered .nil)) hone hlast
    (.there (by decide) hlast) (.there (by decide) hdeleted) (.there (by decide) htwo)
    (@CountedForm.mk _ _ [_] [1] _ hone (.cons hgroup .nil))

theorem decode_streamForm_delivered :
    Tagged 21 3 ∧ Stream.Form 3 delivered deliveredBytes ∧
      (Source.ofBytes []).decode (records 21 ⟨[107], 7⟩) ⟨5, deliveredBytes ++ [0xFA, 1]⟩ =
        (.ok [.keyed ⟨[107], 7⟩ (.stream delivered)], ⟨5 + deliveredBytes.length, [0xFA, 1]⟩) ∧
      delivered.IsOf 3 :=
  ⟨.third, form_delivered,
    decode_streamForm .third form_delivered (.ofBytes []) ⟨[107], 7⟩ 5 [0xFA, 1]⟩

end Decoder

end RedisSnapshot
