import RedisSnapshot.Proofs.Elements.Packed
import RedisSnapshot.Proofs.Elements.Paid
import RedisSnapshot.Proofs.Forms.Value
import RedisSnapshot.Proofs.IdMap

/-!
# Declared numbers cannot outgrow the bytes

Elements, nodes, groups, consumers and pending entries come in declared numbers, and none of these
numbers is bounded. At eighty-eight for a byte every decoder pays for each element that it finds and
for the record that has it, so what a snapshot yields is bounded by the bytes that were read for it.
-/

namespace RedisSnapshot

/-! ### How much is found -/

namespace Stream

/-- An entry counts, and so does every field of it with its value. -/
def Entry.elementCount (entry : Entry) : Nat :=
  1 + entry.fields.length

def Consumer.elementCount (consumer : Consumer) : Nat :=
  1 + consumer.pending.size

def Group.elementCount (group : Group) : Nat :=
  1 + group.pending.size + (group.consumers.map Consumer.elementCount).sum

def countEntries (entries : List (StreamId × Entry)) : Nat :=
  (entries.map fun entry => entry.2.elementCount).sum

end Stream

def Stream.elementCount (stream : Stream) : Nat :=
  Stream.countEntries stream.entries.toList + (stream.groups.map Stream.Group.elementCount).sum

/-- The number of elements, of pairs or of scored members, or of all that makes up a stream. -/
def Value.elementCount : Value → Nat
  | string _ => 0
  | list elements => elements.length
  | set members => members.length
  | hash fields => fields.length
  | sortedSet members => members.length
  | stream log => log.elementCount

/-- What a value weighs together with the record that it is told in. -/
def Value.weight (value : Value) : Nat :=
  1 + value.elementCount

def Record.elementCount : Record → Nat
  | keyed _ value => value.elementCount
  | selectDb _ | resizeDb .. | aux .. => 0

/-! ### Entries under an id that comes again -/

namespace IdMap

variable {α : Type} (weight : StreamId × α → Nat)

theorem sum_insertNewestFirst_le (id : StreamId) (value : α) (entries : List (StreamId × α)) :
    ((insertNewestFirst id value entries).map weight).sum ≤
      weight (id, value) + (entries.map weight).sum := by
  induction entries with
  | nil => simp [insertNewestFirst]
  | cons head rest ih =>
      obtain ⟨other, kept⟩ := head
      rw [insertNewestFirst]
      split
      · exact Nat.le_refl _
      · split
        · exact Nat.add_le_add_left (Nat.le_add_left _ _) _
        · rw [List.map_cons, List.sum_cons, List.map_cons, List.sum_cons]
          omega

/-- What is put in replaces what its id had, so that nothing weighs more in the map. -/
theorem sum_insertAll_le (map : IdMap α) (entries : List (StreamId × α)) :
    ((map.insertAll entries).newestFirst.map weight).sum ≤
      (map.newestFirst.map weight).sum + (entries.map weight).sum := by
  induction entries generalizing map with
  | nil => exact Nat.le_refl _
  | cons head entries ih =>
      have hinserted : ((map.insert head.1 head.2).newestFirst.map weight).sum ≤
          weight head + (map.newestFirst.map weight).sum :=
        sum_insertNewestFirst_le weight head.1 head.2 map.newestFirst
      have hlater := ih (map.insert head.1 head.2)
      change (((map.insert head.1 head.2).insertAll entries).newestFirst.map weight).sum ≤ _
      rw [List.map_cons, List.sum_cons]
      omega

theorem sum_ofList_le (entries : List (StreamId × α)) :
    ((ofList entries).toList.map weight).sum ≤ (entries.map weight).sum := by
  rw [toList, List.map_reverse, List.sum_reverse]
  exact Nat.le_trans (sum_insertAll_le weight empty entries) (Nat.le_of_eq (Nat.zero_add _))

theorem size_ofList_le (entries : List (StreamId × α)) :
    (ofList entries).size ≤ entries.length := by
  have hsum := sum_ofList_le (fun _ => 1) entries
  simpa [toList, size] using hsum

end IdMap

/-! ### Nodes of a stream -/

namespace Stream

open NodeReader

theorem pays_integer : integer.Pays 0 fun _ => 1 := by
  refine .bind .next fun entry => ?_
  split
  · exact .pure (Nat.le_refl _)
  · exact .throw _

theorem pays_count : count.Pays 0 fun _ => 1 := by
  refine .bind pays_integer fun value => ?_
  split
  · exact .pure (Nat.le_refl _)
  · exact .throw _

theorem pays_nodeField : nodeField.Pays 0 fun _ => 1 :=
  .bind .next fun _ => .bind .next fun _ => .pure (by omega)

/-- Shared fields leave only their values to the entry, so that each of these pays for a field. -/
theorem pays_nodeEntry (master : StreamId) (masterFields : List Bytes) :
    (nodeEntry master masterFields).Pays 0 fun entry => entry.2.elementCount := by
  refine .bind pays_integer fun flags => .bind pays_count fun ms => .bind pays_count fun seq => ?_
  by_cases hshared : flags / 2 % 2 = 1
  · rw [if_pos hshared]
    refine .bind (.times_length .next _) fun values => ?_
    rw [pure_bind]
    refine .bind .next fun _ => .pure ?_
    change 1 + (masterFields.zip values).length ≤ _
    rw [List.length_zip]
    omega
  · rw [if_neg hshared]
    refine .bind pays_count fun size => .bind (.times_length pays_nodeField size) fun fields => ?_
    refine .bind .next fun _ => .pure ?_
    change 1 + fields.length ≤ _
    omega

theorem pays_nodeEntries (master : StreamId) :
    (nodeEntries master).Pays 0 countEntries := by
  refine .bind pays_count fun present => .bind pays_count fun deleted => ?_
  refine .bind pays_count fun size => .bind (.times_length .next size) fun masterFields => ?_
  refine .bind .next fun _ => ?_
  refine .bind (.times (pays_nodeEntry master masterFields) _) fun entries => ?_
  refine .bind .get fun left => ?_
  split
  · apply Pays.pure
    rw [countEntries]
    omega
  · exact .throw _

theorem countEntries_decodeNode_le {master : StreamId} {elements : List Bytes}
    {entries : List (StreamId × Entry)} (h : decodeNode master elements = .ok entries) :
    countEntries entries ≤ elements.length := by
  unfold decodeNode at h
  split at h
  · rename_i rest hrun
    cases h
    have hpaid := pays_nodeEntries master _ _ _ hrun
    omega
  · cases h

end Stream

/-! ### Values -/

namespace Decoder

open Reader

theorem pays_length : length.Pays 88 0 fun _ => 88 :=
  .bind (.bind .byte fun _ => .spare _ _ _) fun _ => .spare _ _ _

/-- A string pays for its bytes, whatever form it has, and once more for what they are. -/
theorem pays_string : string.Pays 88 0 fun value => 88 + value.length := by
  intro cursor value after hrun
  obtain ⟨form, hform, _, hoffset⟩ := done_string_iff.1 hrun
  have hlength := hform.length_le
  change 88 + value.length + 88 * cursor.offset ≤ 0 + 88 * after.offset
  rw [hoffset, Nat.mul_add]
  omega

theorem pays_element : string.Pays 88 0 fun _ => 1 :=
  pays_string.mono fun _ => by omega

theorem pays_pair {α β : Type} {first : Decoder α} (h : first.Pays 88 0 fun _ => 1)
    (second : Decoder β) : (pair first second).Pays 88 0 fun _ => 1 :=
  .bind h fun _ => .bind_spare fun _ => .pure (Nat.le_refl _)

/-- A container whose elements take some bytes each is read by a decoder that pays for them. -/
theorem pays_packed {α : Type} {decode : Bytes → Except Fault (List α)} {least : Nat}
    (hleast : 0 < least)
    (h : ∀ {blob found}, decode blob = .ok found → least * found.length ≤ blob.length) :
    (packed decode).Pays 88 0 fun found => 88 + found.length := by
  refine .bind pays_string fun blob => .ofExcept fun found hfound => ?_
  have hlength : found.length ≤ blob.length :=
    calc found.length ≤ least * found.length := Nat.le_mul_of_pos_left _ hleast
      _ ≤ blob.length := h hfound
  omega

theorem pays_listNode : listNode.Pays 88 0 fun elements => 1 + elements.length := by
  refine .bind_spare fun container => .bind pays_string fun blob => ?_
  split
  · exact .pure (by rw [List.length_singleton]; omega)
  · refine .ofExcept fun elements helements => ?_
    have hlength := Packed.Listpack.two_mul_length_le helements
    omega
  · exact .fail _

theorem pays_rawId : rawId.Pays 88 0 fun _ => 1 :=
  .map ((Pays.take 16).mono fun _ => by decide)

theorem pays_streamNode : streamNode.Pays 88 0 Stream.countEntries := by
  refine .bind_spare fun master => ?_
  split
  · refine .bind pays_string fun blob => .bind_ofExcept fun elements helements => ?_
    refine .ofExcept fun entries hentries => ?_
    have hlength := Packed.Listpack.two_mul_length_le helements
    have hsum := Stream.countEntries_decodeNode_le hentries
    omega
  · exact .fail _

theorem pays_pendingEntry : pendingEntry.Pays 88 0 fun _ => 1 :=
  .bind pays_rawId fun _ => .bind_spare fun _ => .bind_spare fun _ => .pure (Nat.le_refl _)

theorem pays_pending (count : Nat) :
    (IdMap.ofList <$> times count pendingEntry).Pays 88 0 IdMap.size :=
  .map ((Pays.times_length pays_pendingEntry count).mono IdMap.size_ofList_le)

theorem pays_consumerEntry (group : IdMap Stream.Pending) (name : Bytes) :
    (consumerEntry group name).Pays 88 0 fun _ => 1 := by
  refine .bind pays_rawId fun id => ?_
  split
  · exact .pure (Nat.le_refl _)
  · exact .fail _

theorem pays_streamConsumer (version : Nat) (group : IdMap Stream.Pending) :
    (streamConsumer version group).Pays 88 0 Stream.Consumer.elementCount := by
  refine .bind pays_element fun name => .bind_spare fun _ => .bind_spare fun _ => ?_
  refine .bind_spare fun count => ?_
  refine .bind (.times_length (pays_consumerEntry group name) count) fun rows => .pure ?_
  have hsize := IdMap.size_ofList_le rows
  change 1 + (IdMap.ofList rows).size ≤ rows.length + 1
  omega

theorem pays_streamGroup (version : Nat) :
    (streamGroup version).Pays 88 0 Stream.Group.elementCount := by
  refine .bind pays_element fun name => .bind_spare fun _ => .bind_spare fun _ => ?_
  refine .bind_spare fun count => .bind (pays_pending count) fun pending => ?_
  refine .bind_spare fun count => ?_
  refine .bind (.times (pays_streamConsumer version pending) count) fun consumers => .pure ?_
  change 1 + pending.size + (consumers.map Stream.Consumer.elementCount).sum ≤ _
  omega

/-- The entries of all nodes together, less those whose id comes again. -/
theorem countEntries_ofList_le (nodes : List (List (StreamId × Stream.Entry))) :
    Stream.countEntries (IdMap.ofList nodes.flatten).toList ≤
      (nodes.map Stream.countEntries).sum :=
  calc Stream.countEntries (IdMap.ofList nodes.flatten).toList
      ≤ Stream.countEntries nodes.flatten := IdMap.sum_ofList_le _ _
    _ = (nodes.map Stream.countEntries).sum := by
        rw [Stream.countEntries, List.map_flatten, List.sum_flatten, List.map_map]
        rfl

theorem pays_stream (version : Nat) :
    (stream version).Pays 88 0 fun stream => 1 + stream.elementCount := by
  refine .bind pays_length fun count => .bind (.times pays_streamNode count) fun nodes => ?_
  refine .bind_spare fun _ => .bind_spare fun _ => .bind_spare fun _ => .bind_spare fun _ => ?_
  refine .bind_spare fun _ => .bind_spare fun count => ?_
  refine .bind (.times (pays_streamGroup version) count) fun groups => .pure ?_
  have hentries := countEntries_ofList_le nodes
  rw [Stream.elementCount]
  dsimp only
  omega

theorem length_of_scores {pairs : List (Bytes × Bytes)} {members : List (Bytes × Binary64)}
    (h : scores pairs = .ok members) : members.length = pairs.length := by
  induction pairs generalizing members with
  | nil => cases h; rfl
  | cons pair pairs ih =>
      rw [scores, List.mapM_cons] at h
      obtain ⟨member, _, h⟩ := Packed.ok_of_bind h
      obtain ⟨later, hlater, h⟩ := Packed.ok_of_bind h
      cases h
      exact congrArg Nat.succ (ih hlater)

section Whole

variable {α : Type} {value : List α → Value}

theorem pays_whole {decoder : Decoder α} {value : α → Value}
    (h : decoder.Pays 88 0 fun found => (value found).weight) :
    (decoder >>= fun found => pure [value found]).Pays 88 0 fun values =>
      (values.map Value.weight).sum :=
  .bind h fun _ => .pure (Nat.le_refl _)

/-- The declared number pays for the record, and the elements pay for themselves. -/
theorem pays_counted {decoder : Decoder α} (h : decoder.Pays 88 0 fun _ => 1)
    (hvalue : ∀ found, (value found).elementCount = found.length) :
    (length >>= fun count => times count decoder >>= fun found => pure [value found]).Pays 88 0
      fun values => (values.map Value.weight).sum := by
  refine .bind pays_length fun count => .bind (.times_length h count) fun found => .pure ?_
  rw [List.map_singleton, List.sum_singleton, Value.weight, hvalue]
  omega

variable {decode : Bytes → Except Fault (List α)} {least : Nat}

theorem pays_container (hleast : 0 < least)
    (h : ∀ {blob found}, decode blob = .ok found → least * found.length ≤ blob.length)
    (hvalue : ∀ found, (value found).elementCount = found.length) :
    (packed decode >>= fun found => pure [value found]).Pays 88 0 fun values =>
      (values.map Value.weight).sum := by
  refine pays_whole ((pays_packed hleast h).mono fun found => ?_)
  rw [Value.weight, hvalue]
  omega

end Whole

theorem pays_chain {node : Decoder (List Bytes)}
    (h : node.Pays 88 0 fun elements => 1 + elements.length) :
    (length >>= fun count => times count node >>= fun nodes => pure (nodes.map .list)).Pays 88 0
      fun values => (values.map Value.weight).sum := by
  refine .bind_spare fun count => .bind (.times h count) fun nodes => .pure ?_
  rw [List.map_map]
  exact Nat.le_refl _

theorem pays_scores {decode : Bytes → Except Fault (List (Bytes × Bytes))} {least : Nat}
    (hleast : 0 < least)
    (h : ∀ {blob found}, decode blob = .ok found → least * found.length ≤ blob.length) :
    (packed decode >>= fun pairs => Reader.ofExcept (scores pairs) >>= fun members =>
      pure [Value.sortedSet members]).Pays 88 0 fun values => (values.map Value.weight).sum := by
  refine .bind (pays_packed hleast h) fun pairs => .bind_ofExcept fun members hmembers => .pure ?_
  change 1 + members.length ≤ _
  rw [length_of_scores hmembers]
  omega

theorem pays_values (tag : UInt8) :
    (values tag).Pays 88 0 fun values => (values.map Value.weight).sum := by
  unfold values
  -- One case for each tag, in the order in which they are told apart.
  split
  · exact pays_whole pays_element
  · exact pays_counted pays_element fun _ => rfl
  · exact pays_counted pays_element fun _ => rfl
  · exact pays_counted (pays_pair pays_element _) fun _ => rfl
  · exact pays_counted (pays_pair pays_element _) fun _ => rfl
  · exact pays_counted (pays_pair pays_element _) fun _ => rfl
  · exact .fail _
  · exact .fail _
  · exact pays_container (by decide) Packed.Zipmap.three_mul_length_le fun _ => rfl
  · exact pays_container (by decide) Packed.Ziplist.two_mul_length_le fun _ => rfl
  · exact pays_container (by decide) Packed.Intset.two_mul_length_le fun _ => rfl
  · exact pays_scores (by decide) Packed.Ziplist.four_mul_length_le
  · exact pays_container (by decide) Packed.Ziplist.four_mul_length_le fun _ => rfl
  · apply pays_chain
    exact (pays_packed (by decide) Packed.Ziplist.two_mul_length_le).mono fun _ => by omega
  · exact pays_whole (pays_stream 1)
  · exact pays_container (by decide) Packed.Listpack.four_mul_length_le fun _ => rfl
  · exact pays_scores (by decide) Packed.Listpack.four_mul_length_le
  · exact pays_chain pays_listNode
  · exact pays_whole (pays_stream 2)
  · exact pays_container (by decide) Packed.Listpack.two_mul_length_le fun _ => rfl
  · exact pays_whole (pays_stream 3)
  · exact .bind_spare fun _ => .fail _

theorem pays_records (tag : UInt8) (key : Key) :
    (records tag key).Pays 88 0 fun found =>
      found.length + (found.map Record.elementCount).sum := by
  refine .bind (pays_values tag) fun values => .pure ?_
  -- The weight of a value is its elements and the one record for it.
  induction values with
  | nil => exact Nat.zero_le _
  | cons value values ih =>
      simp only [List.map_cons, List.sum_cons, List.length_cons, Value.weight,
        Record.elementCount] at *
      omega

/-- **Declared numbers cannot outgrow the bytes.** However large the numbers are that a value
declares, the records that are decoded from so many bytes and all elements in them together are no
more than eighty-eight for each of the bytes. -/
theorem decode_elementCount_le (source : Source) {tag : UInt8} {key : Key} {cursor after : Cursor}
    {found : List Record} (h : source.decode (records tag key) cursor = (.ok found, after)) :
    ∃ used, cursor.Spans used after ∧
      found.length + (found.map Record.elementCount).sum ≤ 88 * used.length := by
  have hrun : (records tag key).run cursor = .done found after := by
    unfold Source.decode at h
    split at h <;> cases h
    assumption
  obtain ⟨used, hused, hoffset⟩ := (records tag key).reaches cursor
  rw [hrun] at hused hoffset
  refine ⟨used, ⟨hused, hoffset⟩, ?_⟩
  change after.offset = cursor.offset + used.length at hoffset
  have hpaid : found.length + (found.map Record.elementCount).sum + 88 * cursor.offset ≤
      0 + 88 * after.offset := pays_records tag key cursor found after hrun
  rw [hoffset, Nat.mul_add] at hpaid
  omega

/-- A set of five empty members, four of which come from one reference of two bytes. -/
def compressedSet : Bytes :=
  [0xC3, 13, 17, 7, 17, 0, 0, 0, 5, 0, 0x80, 1, 0xC0, 1, 0, 0xFF]

theorem decode_compressedSet (key : Key) (offset : Nat) (rest : Bytes) :
    (Source.ofBytes []).decode (records 20 key) ⟨offset, compressedSet ++ rest⟩ =
      (.ok [.keyed key (.set [[], [], [], [], []])], ⟨offset + 16, rest⟩) := by
  have hliteral : (Lzf.Token.literal [17, 0, 0, 0, 5, 0, 0x80, 1]).Brings []
      [17, 0, 0, 0, 5, 0, 0x80, 1] := .literal (by decide) (by decide)
  -- Eight bytes from two bytes behind: the entry that has just been put out, four times more.
  have hreference : (Lzf.Token.reference 2 8).Brings [17, 0, 0, 0, 5, 0, 0x80, 1]
      [0x80, 1, 0x80, 1, 0x80, 1, 0x80, 1] :=
    .reference (by decide) (by decide) (by decide) (by decide) (by decide) rfl (by decide)
  have hmark : (Lzf.Token.literal [0xFF]).Brings
      [17, 0, 0, 0, 5, 0, 0x80, 1, 0x80, 1, 0x80, 1, 0x80, 1, 0x80, 1] [0xFF] :=
    .literal (by decide) (by decide)
  have hcompressed : Lzf.Compresses [7, 17, 0, 0, 0, 5, 0, 0x80, 1, 0xC0, 1, 0, 0xFF]
      [17, 0, 0, 0, 5, 0, 0x80, 1, 0x80, 1, 0x80, 1, 0x80, 1, 0x80, 1, 0xFF] :=
    ⟨_, .cons hliteral (.cons hreference (.cons hmark .nil)), rfl⟩
  have hfrom : LengthForm 13 [13] := .six (by decide)
  have hto : LengthForm 17 [17] := .six (by decide)
  have hstring : StringForm
      [17, 0, 0, 0, 5, 0, 0x80, 1, 0x80, 1, 0x80, 1, 0x80, 1, 0x80, 1, 0xFF] compressedSet :=
    .compressed hcompressed hfrom hto (by decide) (by decide)
  have hentry : Packed.Listpack.EntryForm [] ([0x80] ++ [1]) := .mk (.string6 (by decide)) rfl
  have hrow : Row Packed.Listpack.EntryForm [[], [], [], [], []] _ :=
    .cons hentry (.cons hentry (.cons hentry (.cons hentry (.cons hentry .nil))))
  have hlistpack : Packed.Listpack.Form [[], [], [], [], []]
      ([17, 0, 0, 0] ++ ([5, 0] ++ (_ ++ [0xFF])) ++ []) :=
    .mk rfl (by decide : 5 < 65536) (.inr rfl) hrow
  exact decode_records (reads_whole (.setListpack ⟨hlistpack, hstring⟩)) _ key offset rest

theorem decode_elementCount_le_compressed :
    let cursor : Cursor := ⟨9, compressedSet ++ [0xFF]⟩
    let record : Record := .keyed ⟨[0x6B], 0⟩ (.set [[], [], [], [], []])
    (Source.ofBytes []).decode (records 20 ⟨[0x6B], 0⟩) cursor =
        (.ok [record], ⟨25, [0xFF]⟩) ∧
      ∃ used, cursor.Spans used ⟨25, [0xFF]⟩ ∧
        [record].length + ([record].map Record.elementCount).sum ≤ 88 * used.length :=
  ⟨decode_compressedSet _ 9 [0xFF],
    decode_elementCount_le (Source.ofBytes []) (decode_compressedSet _ 9 [0xFF])⟩

end Decoder

end RedisSnapshot
