import RedisSnapshot.Proofs.Accepted.Found
import RedisSnapshot.Proofs.Forms.Stream
import RedisSnapshot.Source

/-!
# What consumers wait for

A group is written with everything that is pending for it, and its consumers with no more than ids.
Of the rest nothing is decoded a second time: it is looked up with the group, when the group has all
of its entries. So no bytes, however often they repeat an id, make a consumer wait for what is not
pending for the group, or since another time, and an id that the group lacks is the end of it.
-/

namespace RedisSnapshot

namespace Stream

/-- What is pending for a consumer is pending for its group, since the same time and as often
delivered. -/
def Group.IsConsistent (group : Group) : Prop :=
  ∀ consumer ∈ group.consumers, ∀ id pending,
    consumer.pending.get? id = some pending → group.pending.get? id = some pending

end Stream

namespace Decoder

open Reader RedisSnapshot.Stream

variable {version : Nat}

/-! ### Groups that are decoded -/

section Consistent

variable {group : IdMap Pending}

theorem ensures_consumerEntry (name : Bytes) :
    (consumerEntry group name).Ensures fun entry => group.get? entry.1 = some entry.2 := by
  refine .bind fun id => ?_
  cases hfound : group.get? id with
  | some pending => exact .pure hfound
  | none => exact .fail _

theorem ensures_streamConsumer :
    (streamConsumer version group).Ensures fun consumer =>
      ∀ id pending, consumer.pending.get? id = some pending → group.get? id = some pending := by
  refine .bind fun name => .bind fun seenTime => .bind fun activeTime => .bind fun count => ?_
  refine ((ensures_consumerEntry name).times count).bind_of fun rows hrows => .pure ?_
  intro id pending hpending
  have hnothing : ∀ entry ∈ (.empty : IdMap Pending).toList, entry ∈ group.toList :=
    fun _ hmem => nomatch hmem
  have hpart : ∀ entry ∈ rows, entry ∈ group.toList := fun entry hmem =>
    IdMap.get?_eq_some_iff.1 (hrows entry hmem)
  -- All that is put in is from the group, so that an id which comes again brings the same again.
  have hmem := (IdMap.mem_insertAll hnothing hpart (id, pending)).1
    (IdMap.get?_eq_some_iff.1 hpending)
  exact IdMap.get?_eq_some_iff.2 (hpart _ (hmem.resolve_left List.not_mem_nil))

theorem ensures_streamGroup : (streamGroup version).Ensures Group.IsConsistent := by
  refine .bind fun name => .bind fun lastId => .bind fun entriesRead => .bind fun count => ?_
  refine .bind fun pending => .bind fun consumers => ?_
  exact (ensures_streamConsumer.times consumers).bind_of fun _ hconsumers => .pure hconsumers

theorem ensures_stream :
    (stream version).Ensures fun stream => ∀ group ∈ stream.groups, group.IsConsistent := by
  refine .bind fun count => .bind fun nodes => .bind fun length' => .bind fun lastId => ?_
  refine .bind fun firstId => .bind fun maxDeletedId => .bind fun entriesAdded => ?_
  refine .bind fun groups => ?_
  exact (ensures_streamGroup.times groups).bind_of fun _ hgroups => .pure hgroups

end Consistent

/-! ### Groups that are not

What stands in front of an id that its group lacks is told as it is read, in whatever form that may
be; only the part that the id cuts short is taken apart further.
-/

/-- A number of values is announced, and before so many of them have come there is something else. -/
inductive BrokenRow {α : Type} (form : α → Bytes → Prop) (broken : Bytes → Prop) : Bytes → Prop where
  | mk {count : Nat} {values : List α} {front body back : Bytes} (hcount : LengthForm count front)
      (hbody : Row form values body) (hmore : values.length < count) (hback : broken back) :
      BrokenRow form broken (front ++ (body ++ back))

/-- A consumer up to the first of its ids that is not among those of the group. -/
inductive StrayConsumer (version : Nat) (group : List (StreamId × Pending)) (name : Bytes)
    (id : StreamId) : Bytes → Prop where
  | mk {seenTime : Nat} {activeTime : Option Nat} {front seen active pending : Bytes}
      (hname : string.Reads name front) (hseen : TimeForm seenTime seen)
      (hactive : LaterForm (3 ≤ version) TimeForm activeTime active)
      (hpending : BrokenRow (ReferenceForm (.ofList group))
        (fun bytes => id ∉ group.map Prod.fst ∧ bytes = id.raw) pending) :
      StrayConsumer version group name id (front ++ (seen ++ (active ++ pending)))

/-- A group up to there. Its pending entries may have the same id any number of times. -/
inductive StrayGroup (version : Nat) (name : Bytes) (id : StreamId) : Bytes → Prop where
  | mk {groupName : Bytes} {lastId : StreamId} {entriesRead : Option Nat}
      {rows : List (StreamId × Pending)} {front last read pending consumers : Bytes}
      (hname : string.Reads groupName front) (hlast : StreamIdForm lastId last)
      (hread : LaterForm (2 ≤ version) LengthForm entriesRead read)
      (hpending : CountedForm PendingForm rows pending)
      (hconsumers : BrokenRow (streamConsumer version (.ofList rows)).Reads
        (StrayConsumer version rows name id) consumers) :
      StrayGroup version name id (front ++ (last ++ (read ++ (pending ++ consumers))))

/-- A stream up to there: a consumer of this name waits for an id that is not pending for its
group. -/
inductive StrayStream (version : Nat) (name : Bytes) (id : StreamId) : Bytes → Prop where
  | mk {nodes : List (List (StreamId × Entry))} {length : Nat} {lastId : StreamId}
      {firstId maxDeletedId : Option StreamId} {entriesAdded : Option Nat}
      {entries size last first maxDeleted added groups : Bytes}
      (hentries : CountedForm streamNode.Reads nodes entries) (hlength : LengthForm length size)
      (hlast : StreamIdForm lastId last)
      (hfirst : LaterForm (2 ≤ version) StreamIdForm firstId first)
      (hmaxDeleted : LaterForm (2 ≤ version) StreamIdForm maxDeletedId maxDeleted)
      (hadded : LaterForm (2 ≤ version) LengthForm entriesAdded added)
      (hgroups : BrokenRow (streamGroup version).Reads (StrayGroup version name id) groups) :
      StrayStream version name id
        (entries ++ (size ++ (last ++ (first ++ (maxDeleted ++ (added ++ groups))))))

section Stray

variable {name : Bytes} {id : StreamId} {bytes : Bytes}

theorem refuses_counted {α β : Type} {form : α → Bytes → Prop} {broken : Bytes → Prop}
    {reader : Decoder α} {next : List α → Decoder β} {fault : Fault}
    (hreader : ∀ value bytes, form value bytes → reader.Reads value bytes)
    (hbroken : ∀ bytes, broken bytes → reader.Refuses fault bytes) (h : BrokenRow form broken bytes) :
    (length >>= fun count => times count reader >>= next).Refuses fault bytes := by
  obtain ⟨hcount, hbody, hmore, hback⟩ := h
  refine (reads_length hcount).bind_refuses ?_
  exact (Refuses.times (hbody.imp hreader) hmore (hbroken _ hback)).bind

theorem refuses_consumerEntry {group : List (StreamId × Pending)} (name : Bytes)
    (h : id ∉ group.map Prod.fst) :
    (consumerEntry (.ofList group) name).Refuses (.malformed (.pendingEntry name id)) id.raw := by
  rw [← List.append_nil id.raw]
  refine (reads_rawId id).bind_refuses ?_
  rw [IdMap.get?_ofList_eq_none_iff.2 h]
  exact .fail

theorem refuses_streamConsumer {group : List (StreamId × Pending)}
    (h : StrayConsumer version group name id bytes) :
    (streamConsumer version (.ofList group)).Refuses (.malformed (.pendingEntry name id)) bytes := by
  obtain ⟨hname, hseen, hactive, hpending⟩ := h
  refine hname.bind_refuses ((reads_time _ _ hseen).bind_refuses ?_)
  refine (reads_whenSome reads_time hactive).bind_refuses ?_
  refine refuses_counted (reads_consumerEntry name) ?_ hpending
  rintro _ ⟨hmissing, rfl⟩
  exact refuses_consumerEntry name hmissing

theorem refuses_streamGroup (h : StrayGroup version name id bytes) :
    (streamGroup version).Refuses (.malformed (.pendingEntry name id)) bytes := by
  obtain ⟨hname, hlast, hread, ⟨hcount, hbody⟩, hconsumers⟩ := h
  refine hname.bind_refuses ((reads_lengthId _ _ hlast).bind_refuses ?_)
  refine (reads_whenSome (fun _ _ => reads_length) hread).bind_refuses ?_
  have hpending := (Reads.times (hbody.imp reads_pendingEntry) rfl).map IdMap.ofList
  rw [List.append_assoc]
  refine (reads_length hcount).bind_refuses (hpending.bind_refuses ?_)
  exact refuses_counted (fun _ _ hconsumer => hconsumer) (fun _ => refuses_streamConsumer) hconsumers

theorem refuses_stream (h : StrayStream version name id bytes) :
    (stream version).Refuses (.malformed (.pendingEntry name id)) bytes := by
  obtain ⟨⟨hcount, hbody⟩, hlength, hlast, hfirst, hmaxDeleted, hadded, hgroups⟩ := h
  rw [List.append_assoc]
  refine (reads_length hcount).bind_refuses ((Reads.times hbody rfl).bind_refuses ?_)
  refine (reads_length hlength).bind_refuses ((reads_lengthId _ _ hlast).bind_refuses ?_)
  refine (reads_whenSome reads_lengthId hfirst).bind_refuses ?_
  refine (reads_whenSome reads_lengthId hmaxDeleted).bind_refuses ?_
  refine (reads_whenSome (fun _ _ => reads_length) hadded).bind_refuses ?_
  exact refuses_counted (fun _ _ hgroup => hgroup) (fun _ => refuses_streamGroup) hgroups

end Stray

theorem values_of_tagged {tag : UInt8} (h : Tagged tag version) :
    values tag = stream version >>= fun stream => pure [.stream stream] := by
  cases h <;> rfl

/-- **Pending entries.** Whatever the bytes of a stream are, what is decoded from them has no
consumer that waits for anything but what is pending for its group. If a consumer is to wait for
something else, the bytes are malformed, whatever comes behind it. -/
theorem decode_pending {tag : UInt8} (htag : Tagged tag version) (source : Source) (key : Key)
    (cursor : Cursor) :
    (∀ found, (source.decode (records tag key) cursor).1 = .ok found →
      ∃ stream, found = [.keyed key (.stream stream)] ∧
        ∀ group ∈ stream.groups, group.IsConsistent) ∧
      ∀ name id strays rest, StrayStream version name id strays → cursor.rest = strays ++ rest →
        (source.decode (records tag key) cursor).1 = .error (.format (.pendingEntry name id)) := by
  obtain ⟨offset, bytes⟩ := cursor
  rw [records, values_of_tagged htag]
  constructor
  · intro found hfound
    unfold Source.decode at hfound
    split at hfound
    · rename_i value after hrun
      obtain ⟨values, last, hvalues, hrecords⟩ := done_of_bind hrun
      obtain ⟨stream, middle, hstream, hvalue⟩ := done_of_bind hvalues
      cases hvalue
      cases hrecords
      cases hfound
      exact ⟨stream, rfl, ensures_stream _ _ _ hstream⟩
    · cases hfound
    · cases hfound
  · rintro name id strays rest hstrays rfl
    rw [Source.decode, (refuses_stream hstrays).bind.bind]
    rfl

/-- An id that is pending twice, the second time with a later time and one more delivery. -/
def repeatedRows : List (StreamId × Pending) :=
  [(⟨5, 1⟩, ⟨7, 1⟩), (⟨5, 1⟩, ⟨9, 2⟩)]

/-- A group of two consumers that share the id, and the first of them has it twice. -/
def repeatedBytes : Bytes :=
  let id := StreamId.raw ⟨5, 1⟩
  [0, 0, 0, 0, 1, 1, 103, 0, 0, 2] ++ id ++ Word.toLittle 8 7 ++ [1] ++ id ++ Word.toLittle 8 9 ++
    [2, 2, 1, 99] ++ Word.toLittle 8 7 ++ [2] ++ id ++ id ++ [1, 100] ++ Word.toLittle 8 8 ++ [1] ++
    id

/-- The consumer has the id of the group, and then another. -/
def strayBytes : Bytes :=
  let id := StreamId.raw ⟨5, 1⟩
  [0, 0, 0, 0, 1, 1, 103, 0, 0, 2] ++ id ++ Word.toLittle 8 7 ++ [1] ++ id ++ Word.toLittle 8 9 ++
    [2, 1, 1, 100] ++ Word.toLittle 8 8 ++ [2] ++ id ++ StreamId.raw ⟨5, 2⟩

theorem strayStream_strayBytes : StrayStream 1 [100] ⟨5, 2⟩ strayBytes := by
  have hnone : LengthForm 0 [0] := .six (by decide)
  have hone : LengthForm 1 [1] := .six (by decide)
  have htwo : LengthForm 2 [2] := .six (by decide)
  have hname : ∀ byte : UInt8, string.Reads [byte] [1, byte] := fun byte =>
    reads_string (@StringForm.plain [byte] [1] hone (Nat.lt_of_sub_eq_succ rfl))
  have htime : ∀ time : Nat, time < Nat.pow 256 8 → TimeForm time (Word.toLittle 8 time) :=
    fun _ hlt => ⟨hlt, rfl⟩
  have hzero : StreamIdForm ⟨0, 0⟩ [0, 0] := @StreamIdForm.mk _ [0] [0] hnone hnone
  have hknown : ReferenceForm (.ofList repeatedRows) (⟨5, 1⟩, ⟨9, 2⟩) (StreamId.raw ⟨5, 1⟩) :=
    .mk List.mem_cons_self
  have hconsumer : StrayConsumer 1 repeatedRows [100] ⟨5, 2⟩ _ :=
    .mk (hname 100) (htime 8 (by decide)) (.missing (by decide))
      (.mk htwo (.cons hknown .nil) (by decide) ⟨by decide, rfl⟩)
  have hrows : CountedForm PendingForm repeatedRows _ :=
    @CountedForm.mk _ _ _ [2] _ htwo
      (.cons (.mk (htime 7 (by decide)) hone) (.cons (.mk (htime 9 (by decide)) htwo) .nil))
  have hgroup : StrayGroup 1 [100] ⟨5, 2⟩ _ :=
    .mk (hname 103) hzero (.missing (by decide)) hrows (.mk hone .nil (by decide) hconsumer)
  exact @StrayStream.mk 1 _ _ [] _ _ _ _ _ _ _ _ _ _ _ _ (@CountedForm.mk _ _ [] [0] _ hnone .nil)
    hnone hzero (.missing (by decide)) (.missing (by decide)) (.missing (by decide))
    (.mk hone .nil (by decide) hgroup)

theorem decode_pending_repeated :
    Tagged 15 1 ∧
      (∃ stream, ((Source.ofBytes []).decode (records 15 ⟨[107], 0⟩) ⟨3, repeatedBytes⟩).1 =
          .ok [.keyed ⟨[107], 0⟩ (.stream stream)] ∧
        ∀ group ∈ stream.groups, group.IsConsistent) ∧
      StrayStream 1 [100] ⟨5, 2⟩ strayBytes ∧
      ((Source.ofBytes []).decode (records 15 ⟨[107], 0⟩) ⟨3, strayBytes ++ [1, 2]⟩).1 =
        .error (.format (.pendingEntry [100] ⟨5, 2⟩)) := by
  have hfound : ∃ stream,
      ((Source.ofBytes []).decode (records 15 ⟨[107], 0⟩) ⟨3, repeatedBytes⟩).1 =
        .ok [.keyed ⟨[107], 0⟩ (.stream stream)] := ⟨_, rfl⟩
  obtain ⟨stream, hstream⟩ := hfound
  obtain ⟨same, heq, hconsistent⟩ :=
    (decode_pending .first (.ofBytes []) ⟨[107], 0⟩ ⟨3, repeatedBytes⟩).1 _ hstream
  cases heq
  exact ⟨.first, ⟨stream, hstream, hconsistent⟩, strayStream_strayBytes,
    (decode_pending .first (.ofBytes []) ⟨[107], 0⟩ ⟨3, strayBytes ++ [1, 2]⟩).2 _ _ _ [1, 2]
      strayStream_strayBytes rfl⟩

end Decoder

end RedisSnapshot
