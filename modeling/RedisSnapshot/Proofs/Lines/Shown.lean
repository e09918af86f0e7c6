import Mathlib.Data.List.Forall2
import RedisSnapshot.Proofs.Binary64.Recovered
import RedisSnapshot.Proofs.IdMap
import RedisSnapshot.Proofs.Json.Members
import RedisSnapshot.Proofs.Json.Reading
import RedisSnapshot.Record.Text

/-!
# What a document says of a record

Names and values are shown as text, elements in their order, and what is under ids as members that are
named by the ids. Two ids never have the same text, for the digits of the time end at the dash, and so
no member takes the place of another one.
-/

namespace RedisSnapshot

namespace Document

def ofText (bytes : Bytes) : Document :=
  string (Text.lossy bytes)

def ofNat (value : Nat) : Document :=
  number (Decimal.text value)

def ofId (id : StreamId) : Document :=
  string id.text

/-- A score that JSON has no notation of is absent. Any other is the token of the number, and is read
from it. -/
def IsScore (score : Binary64) (shown : Document) : Prop :=
  if score.isNaN || score.isInfinite then shown = null
  else shown = number (Binary64.json.text score) ∧
    Binary64.read? (Binary64.json.text score).toList = some score

end Document

/-- Those of the members that there is a value for. -/
def present {α : Type} (members : List (String × Option α)) : List (String × α) :=
  members.filterMap fun (name, value) => value.map (name, ·)

/-! ### What is shown -/

/-- Each value is under the text of its id, and there are no others. -/
structure IdMap.ShownBy {α : Type} (IsShown : α → Document → Prop) (map : IdMap α)
    (members : List (String × Document)) : Prop where
  ascending : (members.map Prod.fst).Pairwise (· < ·)
  names : (members.map Prod.fst).Perm (map.toList.map fun entry => entry.1.text)
  shown : ∀ entry ∈ map.toList, ∃ shown,
    members.lookup entry.1.text = some shown ∧ IsShown entry.2 shown

namespace Stream

def Pending.IsShown (pending : Pending) (shown : Document) : Prop :=
  shown = .object [("deliveryCount", .ofNat pending.deliveryCount),
    ("deliveryTime", .ofNat pending.deliveryTime)]

/-- Fields of one name are one member, and it has the value of the last of them. -/
def Entry.IsShown (entry : Entry) (shown : Document) : Prop :=
  ∃ fields : List (String × Document),
    (fields.map Prod.fst).Pairwise (· < ·) ∧
      (∀ name, fields.lookup name =
        (entry.fields.filter fun field => Text.lossy field.1 = name).getLast?.map
          fun field => .ofText field.2) ∧
      shown = .object [("deleted", .bool entry.deleted), ("fields", .object fields)]

def Consumer.IsShown (consumer : Consumer) (shown : Document) : Prop :=
  ∃ pending, consumer.pending.ShownBy Pending.IsShown pending ∧
    shown = .object (present [("activeTime", consumer.activeTime.map .ofNat),
      ("consumerName", some (.ofText consumer.name)), ("pending", some (.object pending)),
      ("seenTime", some (.ofNat consumer.seenTime))])

def Group.IsShown (group : Group) (shown : Document) : Prop :=
  ∃ pending consumers, group.pending.ShownBy Pending.IsShown pending ∧
    List.Forall₂ Consumer.IsShown group.consumers consumers ∧
      shown = .object (present [("consumers", some (.array consumers)),
        ("entriesRead", group.entriesRead.map .ofNat), ("groupName", some (.ofText group.name)),
        ("lastId", some (.ofId group.lastId)), ("pending", some (.object pending))])

/-- A stream without entries has no member for them, and one without groups none for those. -/
def IsShown (stream : Stream) (shown : Document) : Prop :=
  ∃ entries groups, stream.entries.ShownBy Entry.IsShown entries ∧
    List.Forall₂ Group.IsShown stream.groups groups ∧
      shown = .object (present
        [("Entries", if stream.entries.newestFirst.isEmpty then none else some (.object entries)),
          ("EntriesAdded", stream.entriesAdded.map .ofNat),
          ("FirstId", stream.firstId.map .ofId), ("LastId", some (.ofId stream.lastId)),
          ("Length", some (.ofNat stream.length)),
          ("MaxDeletedId", stream.maxDeletedId.map .ofId),
          ("groups", if stream.groups.isEmpty then none else some (.array groups))])

end Stream

def Value.IsMember (member : Bytes × Binary64) (shown : Document) : Prop :=
  ∃ score, Document.IsScore member.2 score ∧
    shown = .object [("field", .ofText member.1), ("score", score)]

/-- Elements are shown in their order. -/
def Value.IsShown : Value → Document → Prop
  | string bytes, shown => shown = .ofText bytes
  | list elements, shown => shown = .array (elements.map .ofText)
  | set members, shown => shown = .array (members.map .ofText)
  | hash fields, shown =>
      shown = .array (fields.map fun (field, value) =>
        .object [("field", .ofText field), ("value", .ofText value)])
  | sortedSet members, shown =>
      ∃ elements, List.Forall₂ IsMember members elements ∧ shown = .array elements
  | stream log, shown => log.IsShown shown

/-- What the members of an object say of a record. -/
def Record.IsShown : Record → List (String × Document) → Prop
  | keyed key value, members => ∃ shown, value.IsShown shown ∧
      members = [("type", .string value.typeName), ("key", .ofText key.name), ("value", shown)] ++
        if 0 < key.expiry then [("expire", .number (Decimal.intText key.expiry))] else []
  | selectDb index, members => members = [("Index", .ofNat index)]
  | resizeDb keys expiring, members =>
      members = [("DBSize", .ofNat keys), ("ExpireSize", .ofNat expiring)]
  | aux field value, members =>
      members = [("type", .string "AuxField"), ("key", .ofText field), ("value", .ofText value)]

/-! ### Texts of ids -/

/-- **Ids are told apart** by their texts: the digits of the time end where the dash is. -/
theorem StreamId.text_injective : Function.Injective text := by
  intro a b h
  have htoList : ∀ id : StreamId,
      id.text.toList = Decimal.chars id.ms.toNat ++ '-' :: Decimal.chars id.seq.toNat := by
    intro id
    rw [text, Decimal.text, Decimal.text, Binary64.toList_append_ofList, String.toList_append,
      String.toList_ofList, List.append_assoc]
    rfl
  have hspan : ∀ id : StreamId, id.text.toList.takeWhile Char.isDigit = Decimal.chars id.ms.toNat ∧
      id.text.toList.dropWhile Char.isDigit = '-' :: Decimal.chars id.seq.toNat := by
    intro id
    rw [htoList]
    refine Document.span_digits (Document.isDigit_chars _) fun char hchar => ?_
    rw [← Option.some.inj hchar]
    rfl
  have hms : Decimal.chars a.ms.toNat = Decimal.chars b.ms.toNat := by
    rw [← (hspan a).1, ← (hspan b).1, h]
  have hseq : '-' :: Decimal.chars a.seq.toNat = '-' :: Decimal.chars b.seq.toNat := by
    rw [← (hspan a).2, ← (hspan b).2, h]
  have hms' := UInt64.toNat_inj.1 (Decimal.chars_injective hms)
  have hseq' := UInt64.toNat_inj.1 (Decimal.chars_injective (List.cons.inj hseq).2)
  cases a
  cases b
  rw [StreamId.mk.injEq]
  exact ⟨hms', hseq'⟩

/-! ### Members under ids -/

section Ids

variable {α : Type} {map : IdMap α}

theorem IdMap.nodup_texts (map : IdMap α) :
    (map.toList.map fun entry => entry.1.text).Nodup := by
  have hids : (map.toList.map Prod.fst).Nodup := by
    rw [IdMap.toList, List.map_reverse, List.nodup_reverse]
    exact List.pairwise_map.2 (map.descending.imp fun hlt => (StreamId.ne_of_lt hlt).symm)
  have htexts := hids.map StreamId.text_injective
  rwa [List.map_map] at htexts

/-- Members that are named by ids are put in the order of their texts, and none is lost. -/
theorem IdMap.exists_shown {IsShown : α → Document → Prop} {toJson : α → Json}
    (h : ∀ value, IsShown value (toJson value).document) (map : IdMap α) :
    ∃ members, (Json.sorted (map.toList.map fun entry =>
        (entry.1.text, toJson entry.2))).document = .object members ∧
      map.ShownBy IsShown members := by
  obtain ⟨entries, hentries⟩ : ∃ entries, (map.toList.map fun entry =>
      (entry.1.text, toJson entry.2)) = entries := ⟨_, rfl⟩
  have hnames : entries.map Prod.fst = map.toList.map fun entry => entry.1.text := by
    rw [← hentries, List.map_map]
    rfl
  have hnodup : (entries.map Prod.fst).Nodup := hnames ▸ map.nodup_texts
  have hascending := Json.ascending_mergeSort hnodup
  have hperm := List.mergeSort_perm entries fun a b => a.1 ≤ b.1
  rw [hentries, Json.sorted_of_perm hascending hperm, Json.document, Json.memberDocuments_eq]
  have hfirst : ∀ members : List (String × Json),
      (members.map (Prod.map id Json.document)).map Prod.fst = members.map Prod.fst := fun members => by
    rw [List.map_map]
    rfl
  refine ⟨_, rfl, ?_, ?_, ?_⟩
  · rw [hfirst]
    exact hascending
  · rw [hfirst, ← hnames]
    exact hperm.map Prod.fst
  · intro entry hmem
    refine ⟨(toJson entry.2).document, ?_, h entry.2⟩
    rw [Json.lookup_eq_some_iff_mem (by rw [hfirst]; exact hascending.imp String.ne_of_lt)]
    have hentry : (entry.1.text, toJson entry.2) ∈ entries :=
      hentries ▸ List.mem_map.2 ⟨entry, hmem, rfl⟩
    exact List.mem_map.2 ⟨_, hperm.mem_iff.2 hentry, rfl⟩

end Ids

/-! ### Members that may be absent -/

section Present

variable {α : Type}

theorem present_append (first second : List (String × Option α)) :
    present (first ++ second) = present first ++ present second :=
  List.filterMap_append

theorem names_present (members : List (String × Option α)) :
    ((present members).map Prod.fst).Sublist (members.map Prod.fst) := by
  induction members with
  | nil => exact List.Sublist.refl _
  | cons member members ih =>
      obtain ⟨name, - | value⟩ := member
      · exact ih.cons name
      · exact ih.cons_cons name

theorem map_present {β : Type} (f : α → β) (members : List (String × Option α)) :
    (present members).map (Prod.map id f) = present (members.map (Prod.map id (Option.map f))) := by
  induction members with
  | nil => rfl
  | cons member members ih =>
      obtain ⟨name, - | value⟩ := member
      · exact ih
      · exact congrArg ((name, f value) :: ·) ih

theorem member?_eq (name : String) (toJson : α → Json) (value : Option α) :
    Stream.member? name toJson value = present [(name, value.map toJson)] := by
  cases value with
  | none => rfl
  | some value => rfl

theorem unless_eq (absent : Bool) (name : String) (value : α) :
    (if absent then [] else [(name, value)]) =
      present [(name, if absent then none else some value)] := by
  cases absent with
  | false => rfl
  | true => rfl

/-- Members are told by what they are at each of their names. -/
theorem eq_map_lookup {members : List (String × Option α)} (h : (members.map Prod.fst).Nodup) :
    members = (members.map Prod.fst).map fun name => (name, (members.lookup name).join) := by
  rw [List.map_map]
  refine ((List.map_congr_left fun member hmem => ?_).trans (List.map_id _)).symm
  have hlookup := (Json.lookup_eq_some_iff_mem h).2 hmem
  rw [Function.comp, hlookup]
  rfl

/-- Sorted members are shown in the order of these names. -/
theorem Json.document_sorted {members : List (String × Option Json)} (given names : List String)
    (hgiven : members.map Prod.fst = given) (hperm : names.Perm given)
    (hnames : names.Pairwise (· < ·)) :
    (sorted (present members)).document =
      .object (present (names.map fun name => (name, (members.lookup name).join.map document))) := by
  have hnodup : (members.map Prod.fst).Nodup :=
    hgiven ▸ hperm.nodup_iff.1 (hnames.imp String.ne_of_lt)
  have hmembers := hperm.map fun name => (name, (members.lookup name).join)
  rw [← hgiven, ← eq_map_lookup hnodup] at hmembers
  have hpresent : (present _).Perm (present members) := hmembers.filterMap _
  have hsublist := names_present (names.map fun name => (name, (members.lookup name).join))
  rw [List.map_map] at hsublist
  have hid : names.map (Prod.fst ∘ fun name => (name, (members.lookup name).join)) = names :=
    List.map_id names
  have hascending := hnames.sublist (hid ▸ hsublist)
  rw [sorted_of_perm hascending hpresent, document, memberDocuments_eq, map_present, List.map_map]
  rfl

end Present

/-! ### Values -/

namespace Stream

theorem Pending.isShown (pending : Pending) :
    pending.IsShown (Json.sorted [("deliveryTime", .natural pending.deliveryTime),
      ("deliveryCount", .natural pending.deliveryCount)]).document := by
  change (Json.sorted (present [("deliveryTime", some _), ("deliveryCount", some _)])).document = _
  rw [Json.document_sorted ["deliveryTime", "deliveryCount"] ["deliveryCount", "deliveryTime"] rfl
    (by decide) (by decide)]
  rfl

theorem lookup_documents (members : List (String × Json)) (name : String) :
    (members.map (Prod.map id Json.document)).lookup name =
      (members.lookup name).map Json.document := by
  induction members with
  | nil => rfl
  | cons member members ih =>
      obtain ⟨other, value⟩ := member
      change List.lookup name ((other, value.document) :: _) = _
      rw [List.lookup_cons, List.lookup_cons, ih]
      split
      · rfl
      · rfl

theorem Entry.isShown (entry : Entry) : entry.IsShown entry.json.document := by
  obtain ⟨fields, hfields, hascending, hlookup⟩ := Json.exists_sorted
    (entry.fields.map fun (field, value) => (Text.lossy field, textJson value))
  refine ⟨fields.map (Prod.map id Json.document), ?_, fun name => ?_, ?_⟩
  · rw [List.map_map]
    exact hascending
  · rw [lookup_documents, hlookup, Json.named, List.filter_map, List.getLast?_map,
      Option.map_map, Option.map_map]
    rfl
  · rw [Entry.json, hfields]
    change (Json.sorted (present [("deleted", some _), ("fields", some (.object fields))])).document = _
    rw [Json.document_sorted ["deleted", "fields"] ["deleted", "fields"] rfl (by decide) (by decide),
      ← Json.memberDocuments_eq]
    rfl

theorem isShown_pending (pending : IdMap Pending) :
    ∃ members, (pendingJson pending).document = .object members ∧
      pending.ShownBy Pending.IsShown members :=
  IdMap.exists_shown Pending.isShown pending

theorem Consumer.isShown (consumer : Consumer) : consumer.IsShown consumer.json.document := by
  obtain ⟨pending, hpending, hshown⟩ := isShown_pending consumer.pending
  have hactive : (consumer.activeTime.map Json.natural).map Json.document =
      consumer.activeTime.map Document.ofNat :=
    Option.map_map ..
  refine ⟨pending, hshown, ?_⟩
  rw [Consumer.json, member?_eq]
  change (Json.sorted (present [("consumerName", some _), ("seenTime", some _), ("pending", some _),
    ("activeTime", Option.map _ _)])).document = _
  rw [Json.document_sorted ["consumerName", "seenTime", "pending", "activeTime"]
    ["activeTime", "consumerName", "pending", "seenTime"] rfl (by decide) (by decide), ← hpending,
    ← hactive]
  rfl

theorem Group.isShown (group : Group) : group.IsShown group.json.document := by
  obtain ⟨pending, hpending, hshown⟩ := isShown_pending group.pending
  have hread : (group.entriesRead.map Json.natural).map Json.document =
      group.entriesRead.map Document.ofNat :=
    Option.map_map ..
  refine ⟨pending, Json.documents (group.consumers.map Consumer.json), hshown, ?_, ?_⟩
  · rw [Json.documents_eq, List.map_map]
    exact List.forall₂_map_right_iff.2 (List.forall₂_same.2 fun consumer _ => consumer.isShown)
  · rw [Group.json, member?_eq]
    change (Json.sorted (present [("groupName", some _), ("lastId", some _), ("pending", some _),
      ("consumers", some _), ("entriesRead", Option.map _ _)])).document = _
    rw [Json.document_sorted ["groupName", "lastId", "pending", "consumers", "entriesRead"]
      ["consumers", "entriesRead", "groupName", "lastId", "pending"] rfl (by decide) (by decide),
      ← hpending, ← hread]
    rfl

theorem isShown (stream : Stream) : stream.IsShown stream.json.document := by
  obtain ⟨entries, hentries, hshown⟩ := IdMap.exists_shown Entry.isShown stream.entries
  have hid : ∀ id : Option StreamId,
      (id.map fun id => Json.string id.text).map Json.document = id.map Document.ofId :=
    fun _ => Option.map_map ..
  have hadded : (stream.entriesAdded.map Json.natural).map Json.document =
      stream.entriesAdded.map Document.ofNat :=
    Option.map_map ..
  have hunless : ∀ (absent : Bool) (json : Json),
      (if absent then none else some json.document) =
        (if absent then none else some json).map Json.document := by
    intro absent json
    cases absent <;> rfl
  refine ⟨entries, Json.documents (stream.groups.map Group.json), hshown, ?_, ?_⟩
  · rw [Json.documents_eq, List.map_map]
    exact List.forall₂_map_right_iff.2 (List.forall₂_same.2 fun group _ => group.isShown)
  · have hfront : [("LastId", Json.string stream.lastId.text), ("Length", .natural stream.length)] =
        present [("LastId", some (Json.string stream.lastId.text)),
          ("Length", some (.natural stream.length))] :=
      rfl
    rw [json, hfront, member?_eq, member?_eq, member?_eq, unless_eq, unless_eq, ← present_append,
      ← present_append, ← present_append, ← present_append, ← present_append]
    change (Json.sorted (present [("LastId", some _), ("Length", some _),
      ("FirstId", Option.map _ _), ("MaxDeletedId", Option.map _ _),
      ("EntriesAdded", Option.map _ _), ("Entries", _), ("groups", _)])).document = _
    rw [Json.document_sorted
      ["LastId", "Length", "FirstId", "MaxDeletedId", "EntriesAdded", "Entries", "groups"]
      ["Entries", "EntriesAdded", "FirstId", "LastId", "Length", "MaxDeletedId", "groups"] rfl
      (by decide) (by decide), ← hentries, ← hid, ← hid, ← hadded, hunless]
    change _ = Document.object (present [_, _, _, _, _, _,
      ("groups", if _ then none else some (Json.document (.array (stream.groups.map Group.json))))])
    rw [hunless]
    rfl

end Stream

theorem Document.isScore (score : Binary64) : IsScore score (Json.number score).document := by
  rw [IsScore, Json.document]
  split
  · rfl
  · rename_i hfinite
    rw [Bool.not_eq_true, Bool.or_eq_false_iff] at hfinite
    exact ⟨rfl, Binary64.read?_json_text hfinite.1 hfinite.2⟩

theorem Value.isMember (member : Bytes × Binary64) :
    IsMember member (Json.sorted [("field", textJson member.1), ("score", .number member.2)]).document := by
  refine ⟨_, Document.isScore member.2, ?_⟩
  change (Json.sorted (present [("field", some _), ("score", some _)])).document = _
  rw [Json.document_sorted ["field", "score"] ["field", "score"] rfl (by decide) (by decide)]
  rfl

theorem Value.isShown (value : Value) : value.IsShown value.json.document := by
  have htexts : ∀ elements : List Bytes,
      (Json.array (elements.map textJson)).document = .array (elements.map .ofText) := by
    intro elements
    rw [Json.document, Json.documents_eq, List.map_map]
    rfl
  cases value with
  | string bytes => rfl
  | list elements => exact htexts elements
  | set members => exact htexts members
  | hash fields =>
      rw [json, Json.document, Json.documents_eq, List.map_map]
      refine congrArg Document.array (List.map_congr_left fun pair _ => ?_)
      obtain ⟨field, value⟩ := pair
      change (Json.sorted (present [("field", some _), ("value", some _)])).document = _
      rw [Json.document_sorted ["field", "value"] ["field", "value"] rfl (by decide) (by decide)]
      rfl
  | sortedSet members =>
      rw [json, Json.document, Json.documents_eq, List.map_map]
      exact ⟨_, List.forall₂_map_right_iff.2 (List.forall₂_same.2 fun member _ => isMember member), rfl⟩
  | stream log => exact log.isShown

theorem Record.exists_shown (record : Record) :
    ∃ members, record.json.document = .object members ∧ record.IsShown members := by
  cases record with
  | keyed key value =>
      refine ⟨_, rfl, value.json.document, value.isShown, ?_⟩
      rw [Json.memberDocuments_eq, List.map_append, Key.expires]
      split
      · rename_i hexpires
        rw [if_pos (of_decide_eq_true hexpires)]
        rfl
      · rename_i hexpires
        rw [if_neg (fun hpositive => hexpires (decide_eq_true hpositive))]
        rfl
  | selectDb index => exact ⟨_, rfl, rfl⟩
  | resizeDb keys expiring => exact ⟨_, rfl, rfl⟩
  | aux field value => exact ⟨_, rfl, rfl⟩

end RedisSnapshot
