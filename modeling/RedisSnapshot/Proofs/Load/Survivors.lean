import Mathlib.Data.List.Induction
import RedisSnapshot.Proofs.Load.Contents

/-!
# What survives of a key

A parcel that is deleted takes with it whatever was written of its keys before, and nothing of what
comes behind it. So what is left of a key are the values behind the last parcel that was deleted
with one of the key's records in it. They are the whole value or nothing as long as no parcel with a
record of the key was written behind such a one.
-/

namespace RedisSnapshot

/-- The value of a record of this key. -/
def Record.valueOf? (name : Bytes) : Record → Option Value
  | keyed key value => if key.name = name then some value else none
  | selectDb _ | resizeDb .. | aux .. => none

theorem Record.keyed_of_valueOf {name : Bytes} {record : Record} {value : Value}
    (h : record.valueOf? name = some value) :
    ∃ key : Key, key.name = name ∧ record = .keyed key value := by
  cases record with
  | keyed key other =>
      rw [Record.valueOf?] at h
      split at h
      · cases h
        exact ⟨key, ‹_›, rfl⟩
      · cases h
  | selectDb _ | resizeDb _ _ | aux _ _ => cases h

namespace Load

open Store

def Parcel.valuesOf (name : Bytes) (parcel : Parcel) : List Value :=
  parcel.records.filterMap (·.valueOf? name)

/-- What is left of a key's values behind a parcel that had some more. -/
def Fate.leaves (kept values : List Value) : Fate → List Value
  | written => kept ++ values
  | deleted => if values.isEmpty then kept else []

theorem Fate.leaves_nil (kept : List Value) (fate : Fate) : fate.leaves kept [] = kept := by
  cases fate with
  | written => exact List.append_nil kept
  | deleted => rfl

def survivors (name : Bytes) (sent : List (Parcel × Fate)) : List Value :=
  sent.foldl (fun kept (parcel, fate) => fate.leaves kept (parcel.valuesOf name)) []

/-- No parcel with a value of the key was written behind one that was deleted. -/
def Unsplit (name : Bytes) (sent : List (Parcel × Fate)) : Prop :=
  sent.Pairwise fun first second =>
    first.2 = .deleted → first.1.valuesOf name ≠ [] → second.2 = .written →
      second.1.valuesOf name = []

theorem survivors_snoc (name : Bytes) (sent : List (Parcel × Fate)) (parcel : Parcel) (fate : Fate) :
    survivors name (sent ++ [(parcel, fate)]) =
      fate.leaves (survivors name sent) (parcel.valuesOf name) := by
  rw [survivors, List.foldl_append]
  rfl

theorem survivors_suffix (name : Bytes) (sent : List (Parcel × Fate)) :
    survivors name sent <:+ sent.flatMap fun entry => entry.1.valuesOf name := by
  induction sent using List.reverseRecOn with
  | nil => exact List.suffix_rfl
  | append_singleton sent entry ih =>
      obtain ⟨parcel, fate⟩ := entry
      rw [survivors_snoc, List.flatMap_append, List.flatMap_singleton]
      cases fate with
      | written =>
          obtain ⟨front, hfront⟩ := ih
          exact ⟨front, by rw [Fate.leaves, ← hfront, List.append_assoc]⟩
      | deleted =>
          rw [Fate.leaves]
          split
          · rename_i hnone
            rw [List.isEmpty_iff.1 hnone, List.append_nil]
            exact ih
          · exact List.nil_suffix

/-- Without a split a key's values have all been kept or all been deleted. -/
theorem survivors_of_unsplit {name : Bytes} {sent : List (Parcel × Fate)} (h : Unsplit name sent) :
    survivors name sent = [] ∨
      survivors name sent = sent.flatMap fun entry => entry.1.valuesOf name := by
  -- The induction has to know of a parcel that was deleted, since nothing may be written behind it.
  have hstronger : survivors name sent = (sent.flatMap fun entry => entry.1.valuesOf name) ∨
      survivors name sent = [] ∧
        ∃ entry ∈ sent, entry.2 = .deleted ∧ entry.1.valuesOf name ≠ [] := by
    induction sent using List.reverseRecOn with
    | nil => exact .inl rfl
    | append_singleton sent entry ih =>
        obtain ⟨parcel, fate⟩ := entry
        obtain ⟨hsent, _, hlast⟩ := List.pairwise_append.1 h
        rw [survivors_snoc, List.flatMap_append, List.flatMap_singleton]
        by_cases hnone : parcel.valuesOf name = []
        · rw [hnone, Fate.leaves_nil, List.append_nil]
          refine (ih hsent).imp_right fun ⟨hkept, other, hmem, hother⟩ => ?_
          exact ⟨hkept, other, List.mem_append_left _ hmem, hother⟩
        · cases fate with
          | written =>
              rcases ih hsent with hkept | ⟨_, other, hmem, hdeleted, hvalues⟩
              · exact .inl (by rw [Fate.leaves, hkept])
              · exact absurd
                  (hlast other hmem _ (List.mem_singleton.2 rfl) hdeleted hvalues rfl) hnone
          | deleted =>
              refine .inr ⟨?_, (parcel, .deleted),
                List.mem_append_right _ (List.mem_singleton.2 rfl), rfl, hnone⟩
              rw [Fate.leaves, if_neg fun hempty => hnone (List.isEmpty_iff.1 hempty)]
  exact hstronger.symm.imp_left And.left

/-! ### The commands of a fate, key by key -/

section Requests

variable {options : Options} {key : Key} {value : Value} {command : Command}

theorem named_of_writes {keepDeleted : Bool} (h : command ∈ value.writes keepDeleted key.name) :
    ∃ (verb : Verb) (arguments : List Bytes), command = .named verb.name (key.name :: arguments) := by
  cases value with
  | string bytes => exact ⟨.set, [bytes], List.mem_singleton.1 h⟩
  | list elements => exact ⟨.add .list, elements, List.mem_singleton.1 h⟩
  | set members => exact ⟨.add .set, members, List.mem_singleton.1 h⟩
  | hash fields => exact ⟨.add .hash, _, List.mem_singleton.1 h⟩
  | sortedSet members => exact ⟨.add .sortedSet, _, List.mem_singleton.1 h⟩
  | stream log =>
      obtain ⟨entry, _, rfl⟩ := List.mem_map.1 h
      exact ⟨.add .stream, _, rfl⟩

theorem named_of_writesWithExpiry (h : command ∈ writesWithExpiry options key value) :
    ∃ (verb : Verb) (arguments : List Bytes), command = .named verb.name (key.name :: arguments) := by
  rw [writesWithExpiry] at h
  rcases List.mem_append.1 h with hwrite | hexpire
  · exact named_of_writes (List.mem_of_mem_filter hwrite)
  · split at hexpire
    · exact ⟨.expire, _, List.mem_singleton.1 hexpire⟩
    · cases hexpire

/-- What is sent for a record. -/
def Fate.requests (options : Options) (record : Record) : Fate → List Command
  | written => recordWrites options record
  | deleted => recordDeletions record

theorem Fate.commands_pipeline (options : Options) (parcel : Parcel) (fate : Fate) :
    (fate.pipeline options parcel).commands =
      select parcel.database :: parcel.records.flatMap (fate.requests options) := by
  cases fate with
  | written | deleted => rfl

theorem Fate.named_of_requests {fate : Fate} {record : Record}
    (h : command ∈ fate.requests options record) :
    ∃ found ∈ record.key?, ∃ (verb : Verb) (arguments : List Bytes),
      command = .named verb.name (found.name :: arguments) := by
  cases record with
  | keyed found value =>
      refine ⟨found, rfl, ?_⟩
      cases fate with
      | written => exact named_of_writesWithExpiry h
      | deleted => exact ⟨.delete, [], List.mem_singleton.1 h⟩
  | selectDb _ | resizeDb _ _ | aux _ _ => cases fate <;> cases h

theorem Fate.isSelection_of_requests {fate : Fate} {record : Record}
    (h : command ∈ fate.requests options record) : command.isSelection = false := by
  obtain ⟨_, _, verb, arguments, rfl⟩ := fate.named_of_requests h
  refine decide_eq_false fun hselect => ?_
  exact verb.name_ne_select (Option.some.inj hselect)

theorem Fate.filter_requests (options : Options) (name : Bytes) (record : Record) (fate : Fate) :
    (fate.requests options record).filter (·.key? = some name) =
      if record.valueOf? name = none then [] else fate.requests options record := by
  have hnamed : ∀ command ∈ fate.requests options record, ∀ found ∈ record.key?,
      command.key? = some found.name := by
    intro command hmem found hfound
    obtain ⟨other, hother, verb, arguments, rfl⟩ := fate.named_of_requests hmem
    cases hother.symm.trans hfound
    rfl
  cases record with
  | keyed key value =>
      by_cases hname : key.name = name
      · rw [Record.valueOf?, if_pos hname, if_neg (Option.some_ne_none value)]
        refine List.filter_eq_self.2 fun command hmem => decide_eq_true ?_
        rw [hnamed command hmem key rfl, hname]
      · rw [Record.valueOf?, if_neg hname, if_pos rfl]
        refine List.filter_eq_nil_iff.2 fun command hmem => ?_
        rw [hnamed command hmem key rfl, decide_eq_true_eq]
        exact fun hsame => hname (Option.some.inj hsame)
  | selectDb _ | resizeDb _ _ | aux _ _ =>
      cases fate <;> rfl

/-- The commands for one key, which depend on its values only. -/
theorem Parcel.filter_requests {parcel : Parcel} {fate : Fate} {name : Bytes}
    (commands : Value → List Command)
    (h : ∀ record ∈ parcel.records, ∀ value ∈ record.valueOf? name,
      fate.requests options record = commands value) :
    (parcel.records.flatMap (fate.requests options)).filter (·.key? = some name) =
      (parcel.valuesOf name).flatMap commands := by
  rw [List.filter_flatMap, valuesOf, List.filterMap_eq_flatMap_toList, List.flatMap_assoc]
  refine List.flatMap_congr fun record hmem => ?_
  rw [Fate.filter_requests]
  cases hvalue : record.valueOf? name with
  | none => rfl
  | some value =>
      rw [if_neg (Option.some_ne_none value), h record hmem value hvalue]
      exact (List.flatMap_singleton commands value).symm

end Requests

section Slots

variable {options : Options} {clock : Nat → Int} {destination : Destination}

theorem execute?_select (now : Int) (store : Store) (database : Nat) :
    store.execute? now (select database) = some { store with selected := database } := by
  change (Decimal.nat? (Decimal.bytes database)).bind (fun index =>
    some { store with selected := index }) = _
  rw [Decimal.nat?_bytes]
  rfl

theorem Fate.isSelection_of_mem {fate : Fate} {records : List Record} {command : Command}
    (h : command ∈ records.flatMap (fate.requests options)) : command.isSelection = false := by
  obtain ⟨record, _, hcommand⟩ := List.mem_flatMap.1 h
  exact fate.isSelection_of_requests hcommand

/-- A pipeline that is carried out works on the keys of its parcel, in the parcel's database. -/
theorem slots_pipeline {parcel : Parcel} {fate : Fate} {now : Int} {store after : Store}
    (h : store.executeAll? now (fate.pipeline options parcel).commands = some after) :
    after.selected = parcel.database ∧
      (∀ other ≠ parcel.database, after.slots other = store.slots other) ∧
      ∀ name, Command.effects? now
        ((parcel.records.flatMap (fate.requests options)).filter (·.key? = some name))
          (store.slots parcel.database name) = some (after.slots parcel.database name) := by
  rw [fate.commands_pipeline] at h
  obtain ⟨between, hselect, hrest⟩ := executeAll?_cons h
  rw [execute?_select] at hselect
  cases hselect
  exact slots_executeAll? (fun _ => Fate.isSelection_of_mem) hrest

theorem effects?_deletes {name : Bytes} {values : List Value} {now : Int}
    {slot after : Option Slot}
    (h : Command.effects? now (values.flatMap fun _ => [delete name]) slot = some after) :
    after = if values.isEmpty then slot else none := by
  induction values generalizing slot with
  | nil =>
      cases h
      rfl
  | cons value values ih =>
      obtain ⟨between, hfirst, hrest⟩ := effects?_append h
      have hbetween : Verb.delete.act? now [] (seen now slot) = some between :=
        (effect?_named .delete []).symm.trans (effects?_singleton hfirst)
      cases hbetween
      rw [ih hrest]
      split <;> rfl

/-- All records of the key's name are records of this key, and they go to this database. -/
def Parcel.Places (database : Nat) (key : Key) (parcel : Parcel) : Prop :=
  ∀ record ∈ parcel.records, ∀ found ∈ record.key?, found.name = key.name →
    found = key ∧ parcel.database = database

namespace Parcel.Places

variable {database : Nat} {key : Key} {parcel : Parcel} (h : parcel.Places database key)

include h

theorem database_eq (hvalues : parcel.valuesOf key.name ≠ []) : parcel.database = database := by
  obtain ⟨value, hmem⟩ := List.exists_mem_of_ne_nil _ hvalues
  obtain ⟨record, hrecord, hvalue⟩ := List.mem_filterMap.1 hmem
  obtain ⟨found, hname, rfl⟩ := Record.keyed_of_valueOf hvalue
  exact (h _ hrecord found rfl hname).2

theorem filter_written :
    (parcel.records.flatMap (Fate.written.requests options)).filter (·.key? = some key.name) =
      (parcel.valuesOf key.name).flatMap fun value => writesWithExpiry options key value := by
  refine filter_requests _ fun record hmem value hvalue => ?_
  obtain ⟨found, hname, rfl⟩ := Record.keyed_of_valueOf hvalue
  rw [(h _ hmem found rfl hname).1]
  rfl

end Parcel.Places

theorem Parcel.filter_deleted (parcel : Parcel) (name : Bytes) :
    (parcel.records.flatMap (Fate.deleted.requests options)).filter (·.key? = some name) =
      (parcel.valuesOf name).flatMap fun _ => [delete name] := by
  refine filter_requests _ fun record _ value hvalue => ?_
  obtain ⟨found, rfl, rfl⟩ := Record.keyed_of_valueOf hvalue
  rfl

/-- A parcel without values of a key leaves the key alone. -/
theorem slots_of_none {parcel : Parcel} {fate : Fate} {now : Int} {store after : Store}
    {name : Bytes} (h : store.executeAll? now (fate.pipeline options parcel).commands = some after)
    (hnone : parcel.valuesOf name = []) (database : Nat) :
    after.slots database name = store.slots database name := by
  obtain ⟨_, helsewhere, hnames⟩ := slots_pipeline h
  by_cases hdatabase : database = parcel.database
  · have hhere := hnames name
    have hsilent : ∀ record ∈ parcel.records, ∀ value ∈ record.valueOf? name,
        fate.requests options record = [] := by
      intro record hmem value hvalue
      rw [List.filterMap_eq_nil_iff.1 hnone record hmem] at hvalue
      cases hvalue
    rw [Parcel.filter_requests (fun _ => []) hsilent, hnone] at hhere
    rw [hdatabase]
    exact (Option.some.inj hhere).symm
  · rw [helsewhere database hdatabase]

/-- What is left of the values of a key is what the store has under it. -/
theorem Fares.rebuilt {sent : List (Parcel × Fate)} {log : List Pipeline}
    (h : Fares options destination sent log) (hserves : destination.Serves clock)
    (hclock : Destination.NeverGoesBack clock) {database : Nat} {key : Key} {whole : Value} {parts : List Value}
    (hparts : whole.Parts parts) (hplaces : ∀ entry ∈ sent, entry.1.Places database key)
    (hvalues : (sent.flatMap fun entry => entry.1.valuesOf key.name) <+: parts) :
    (∀ other ≠ database, (destination.contents clock log).slots other key.name = none) ∧
      ∃ present : Value, present.Parts (survivors key.name sent) ∧
        Rebuilt options (clock log.length) key present
          (seen (clock log.length) ((destination.contents clock log).slots database key.name)) := by
  induction h with
  | nil => exact ⟨fun _ _ => rfl, .list [], @Value.Parts.chain [], .void_list options _ key⟩
  | @snoc sent parcel fate before between _ tries last _ ih =>
      have hplaced : parcel.Places database key :=
        hplaces _ (List.mem_append_right _ (List.mem_singleton.2 rfl))
      rw [List.flatMap_append, List.flatMap_singleton] at hvalues
      obtain ⟨hothers, present, hpresent, hslot⟩ :=
        ih (fun entry hmem => hplaces entry (List.mem_append_left _ hmem))
          ((List.prefix_append _ _).trans hvalues)
      -- What was tried in vain has changed nothing, but time has passed.
      rw [← tries.contents_eq] at hothers hslot
      replace hslot := hslot.later (hclock tries.length_le)
      have hcarried := Destination.executeAll?_contents hserves last
      have hlater : clock between.length ≤
          clock (between ++ [fate.pipeline options parcel]).length :=
        hclock (by rw [List.length_append]; exact Nat.le_add_right _ _)
      rw [survivors_snoc]
      by_cases hnone : parcel.valuesOf key.name = []
      · rw [hnone, Fate.leaves_nil, slots_of_none hcarried hnone]
        refine ⟨fun other hother => ?_, present, hpresent, hslot.later hlater⟩
        rw [slots_of_none hcarried hnone]
        exact hothers other hother
      · obtain ⟨_, helsewhere, hnames⟩ := slots_pipeline hcarried
        have hhere := hnames key.name
        rw [hplaced.database_eq hnone] at helsewhere hhere
        refine ⟨fun other hother => by rw [helsewhere other hother, hothers other hother], ?_⟩
        cases fate with
        | written =>
            rw [hplaced.filter_written] at hhere
            have hwithin : survivors key.name sent ++ parcel.valuesOf key.name <:+: parts := by
              obtain ⟨front, hfront⟩ := survivors_suffix key.name sent
              obtain ⟨back, hback⟩ := hvalues
              exact ⟨front, back, by rw [← hback, ← hfront]; simp only [List.append_assoc]⟩
            obtain ⟨next, hnext, hrebuilt⟩ := rebuilt_of_parts hparts hwithin hpresent hslot hhere
            exact ⟨next, hnext, hrebuilt.later hlater⟩
        | deleted =>
            have hfilled : ¬ (parcel.valuesOf key.name).isEmpty = true :=
              fun hempty => hnone (List.isEmpty_iff.1 hempty)
            rw [parcel.filter_deleted] at hhere
            rw [effects?_deletes hhere, Fate.leaves, if_neg hfilled, if_neg hfilled]
            exact ⟨.list [], @Value.Parts.chain [], .void_list options _ key⟩

end Slots

end Load

end RedisSnapshot
