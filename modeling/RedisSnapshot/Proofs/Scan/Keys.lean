import RedisSnapshot.Proofs.Accepted.Found
import RedisSnapshot.Proofs.Forms.Value
import RedisSnapshot.Proofs.Load.Survivors
import RedisSnapshot.Proofs.Scan.Items

/-!
# The keys of a snapshot

The items of a snapshot, in whatever form they are written. A key tells its values as one or more
parts of a value. If no other key has its name, then the records of the key stand together among the
records of the snapshot.
-/

namespace RedisSnapshot

namespace Decoder

open Reader

/-- Whatever is behind a tag is told in the parts of one value. -/
theorem ensures_parts (tag : UInt8) :
    (values tag).Ensures fun parts => ∃ value : Value, value.Parts parts := by
  have hwhole : ∀ value : Value,
      (pure [value] : Decoder (List Value)).Ensures fun parts => ∃ value : Value, value.Parts parts :=
    fun value => .pure ⟨value, .whole⟩
  have hchain : ∀ nodes : List (List Bytes), (pure (nodes.map .list) : Decoder (List Value)).Ensures
      fun parts => ∃ value : Value, value.Parts parts := fun nodes => .pure ⟨_, .chain⟩
  unfold values
  split
  · exact .bind fun _ => hwhole _
  · exact .bind fun _ => .bind fun _ => hwhole _
  · exact .bind fun _ => .bind fun _ => hwhole _
  · exact .bind fun _ => .bind fun _ => hwhole _
  · exact .bind fun _ => .bind fun _ => hwhole _
  · exact .bind fun _ => .bind fun _ => hwhole _
  · exact .fail _
  · exact .fail _
  · exact .bind fun _ => hwhole _
  · exact .bind fun _ => hwhole _
  · exact .bind fun _ => hwhole _
  · exact .bind fun _ => .bind fun _ => hwhole _
  · exact .bind fun _ => hwhole _
  · exact .bind fun _ => .bind fun _ => hchain _
  · exact .bind fun _ => hwhole _
  · exact .bind fun _ => hwhole _
  · exact .bind fun _ => .bind fun _ => hwhole _
  · exact .bind fun _ => .bind fun _ => hchain _
  · exact .bind fun _ => hwhole _
  · exact .bind fun _ => hwhole _
  · exact .bind fun _ => hwhole _
  · exact .bind fun _ => .fail _

end Decoder

namespace Item

open Reader

def name? : Item → Option Bytes
  | key name _ => some name
  | _ => none

def HasParts : Item → Prop
  | key _ parts => ∃ value : Value, value.Parts parts
  | _ => True

theorem ensures_hasParts : decoder.Ensures HasParts := by
  refine .bind fun opcode => ?_
  unfold rest
  split
  · exact .bind fun _ => .pure trivial
  · exact .bind fun _ => .fail _
  · exact .bind fun _ => .pure trivial
  · exact .bind fun _ => .pure trivial
  · exact .bind fun _ => .bind fun _ => .pure trivial
  · exact .bind fun _ => .bind fun _ => .pure trivial
  · exact .bind fun _ => .pure trivial
  · exact .bind fun _ => .pure trivial
  · exact .bind fun _ => .pure trivial
  · exact .pure trivial
  · refine .bind fun name => ?_
    intro cursor item after hrun
    obtain ⟨values, middle, hvalues, hitem⟩ := done_of_bind hrun
    cases hitem
    exact Decoder.ensures_parts _ _ _ _ hvalues

end Item

/-- The items from a place on, up to the end of the snapshot. -/
inductive ItemsAt : Cursor → List Item → Prop where
  | ending {cursor after : Cursor} (h : Item.decoder.run cursor = .done .ending after) :
      ItemsAt cursor []
  | item {cursor after : Cursor} {item : Item} {items : List Item}
      (h : Item.decoder.run cursor = .done item after) (hitem : item ≠ .ending)
      (rest : ItemsAt after items) : ItemsAt cursor (item :: items)

/-- A whole snapshot of these items. -/
def Source.HasItems (source : Source) (items : List Item) : Prop :=
  ∃ header cursor, Decoder.header.run source.start = .done header cursor ∧ ItemsAt cursor items

theorem ItemsAt.hasParts {cursor : Cursor} {items : List Item} (h : ItemsAt cursor items)
    {item : Item} (hmem : item ∈ items) : item.HasParts := by
  induction h with
  | ending _ => cases hmem
  | item h _ _ ih =>
      rcases List.mem_cons.1 hmem with rfl | hmem
      · exact Item.ensures_hasParts _ _ _ h
      · exact ih hmem

namespace Item

theorem recordsOf_append (withAux : Bool) (before front back : List Item) :
    recordsOf withAux before (front ++ back) =
      recordsOf withAux before front ++ recordsOf withAux (before ++ front) back := by
  induction front generalizing before with
  | nil => rw [List.append_nil, recordsOf, List.nil_append, List.nil_append]
  | cons item front ih =>
      rw [List.cons_append, recordsOf, recordsOf, ih, List.append_assoc, List.append_assoc,
        List.singleton_append]

/-- Only a key has records with its name. -/
theorem valueOf?_recordsBehind {withAux : Bool} {before : List Item} {item : Item} {name : Bytes}
    (hname : item.name? ≠ some name) {record : Record}
    (hmem : record ∈ item.recordsBehind withAux before) : record.valueOf? name = none := by
  cases item with
  | key other values =>
      obtain ⟨value, _, rfl⟩ := List.mem_map.1 hmem
      exact if_neg fun hsame => hname (congrArg some hsame)
  | aux field value =>
      rw [recordsBehind] at hmem
      split at hmem
      · rw [List.mem_singleton.1 hmem]
        rfl
      · cases hmem
  | resizeDb keys expiring =>
      rw [List.mem_singleton.1 hmem]
      rfl
  | selectDb index =>
      rw [recordsBehind] at hmem
      split at hmem
      · cases hmem
      · rw [List.mem_singleton.1 hmem]
        rfl
  | idle _ | frequency _ | expiry _ | library _ | ending => cases hmem

theorem valueOf?_recordsOf {withAux : Bool} {before items : List Item} {name : Bytes}
    (hname : name ∉ items.filterMap name?) {record : Record}
    (hmem : record ∈ recordsOf withAux before items) : record.valueOf? name = none := by
  induction items generalizing before with
  | nil => cases hmem
  | cons item items ih =>
      rw [List.mem_filterMap] at hname
      rcases List.mem_append.1 hmem with hmem | hmem
      · exact valueOf?_recordsBehind (fun hsame => hname ⟨item, List.mem_cons_self, hsame⟩) hmem
      · refine ih (fun hlater => ?_) hmem
        obtain ⟨other, hother, hsame⟩ := List.mem_filterMap.1 hlater
        exact hname ⟨other, List.mem_cons_of_mem _ hother, hsame⟩

/-- The records of a key stand together if no other key has its name. -/
theorem recordsOf_key (withAux : Bool) {items : List Item} {name : Bytes} {parts : List Value}
    (hdistinct : (items.filterMap name?).Nodup) (hmem : key name parts ∈ items) :
    ∃ (moment : Int) (front back : List Record),
      recordsOf withAux [] items = front ++ (parts.map (.keyed ⟨name, moment⟩) ++ back) ∧
        (∀ record ∈ front, record.valueOf? name = none) ∧
          ∀ record ∈ back, record.valueOf? name = none := by
  obtain ⟨front, back, rfl⟩ := List.append_of_mem hmem
  rw [List.filterMap_append, List.filterMap_cons] at hdistinct
  obtain ⟨_, hback, hapart⟩ := List.nodup_append.1 hdistinct
  refine ⟨waiting front, recordsOf withAux [] front,
    recordsOf withAux (front ++ [key name parts]) back, ?_, ?_, ?_⟩
  · rw [recordsOf_append, recordsOf, List.nil_append]
    rfl
  · exact fun record => valueOf?_recordsOf fun hfront =>
      hapart name hfront name List.mem_cons_self rfl
  · exact fun record => valueOf?_recordsOf (List.nodup_cons.1 hback).1

end Item

end RedisSnapshot
