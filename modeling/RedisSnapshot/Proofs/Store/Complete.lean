import RedisSnapshot.Proofs.Load.Retries
import RedisSnapshot.Proofs.Store.Replayed

/-!
# Commands with nothing to write

A destination refuses a command that writes without saying what, and with it goes the whole batch.
Commands that end behind their key are not sent. An entry of a stream has its id there, so the command
for an entry without fields is sent, the only one of its kind, and no store accepts it.
-/

namespace RedisSnapshot

/-- The command has all that is required of it behind the key: one value, or at least one element or
one complete pair. -/
inductive Command.IsComplete (key : Bytes) : Command → Prop where
  | string (value : Bytes) : IsComplete key (.named "SET" [key, value])
  | list {elements : List Bytes} (h : elements ≠ []) :
      IsComplete key (.named "LPUSH" (key :: elements))
  | set {members : List Bytes} (h : members ≠ []) : IsComplete key (.named "SADD" (key :: members))
  | hash {fields : List (Bytes × Bytes)} (h : fields ≠ []) :
      IsComplete key (.named "HSET" (key :: Packed.flatten fields))
  | sortedSet {scores : List (Bytes × Bytes)} (h : scores ≠ []) :
      IsComplete key (.named "ZADD" (key :: Packed.flatten scores))
  | stream {id : Bytes} {fields : List (Bytes × Bytes)} (h : fields ≠ []) :
      IsComplete key (.named "XADD" (key :: id :: Packed.flatten fields))

/-- The entries of a stream that are written although they have no fields. -/
def Value.bareIds (keepDeleted : Bool) : Value → List StreamId
  | .stream log => ((log.kept keepDeleted).filter (·.2.fields.isEmpty)).map Prod.fst
  | .string _ | .list _ | .set _ | .hash _ | .sortedSet _ => []

namespace Store

section Commands

variable {now : Int} {slot after : Option Slot} {name : Bytes} {command : Command}

theorem pairs?_eq_some {arguments : List Bytes} {pairs : List (Bytes × Bytes)}
    (h : pairs? arguments = some pairs) : arguments = Packed.flatten pairs := by
  rw [pairs?] at h
  split at h
  · rename_i heven
    cases h
    exact (Packed.flatten_pairUp heven).symm
  · cases h

/-- A value that has grown by some arguments was given enough of them. -/
theorem isComplete_of_grow? {kind : Kind} {arguments : List Bytes} {content grown : Content}
    (hsome : arguments ≠ []) (h : kind.grow? arguments content = some grown) :
    (Command.named (Verb.add kind).name (name :: arguments)).IsComplete name := by
  have hpairs : ∀ {pairs : List (Bytes × Bytes)}, arguments = Packed.flatten pairs → pairs ≠ [] := by
    rintro _ rfl rfl
    exact hsome rfl
  unfold Kind.grow? at h
  split at h
  · exact .list hsome
  · exact .set hsome
  · obtain ⟨pairs, hfound, _⟩ := Option.bind_eq_some_iff.1 h
    have hflat := pairs?_eq_some hfound
    rw [hflat]
    exact .hash (hpairs hflat)
  · obtain ⟨pairs, hfound, _⟩ := Option.bind_eq_some_iff.1 h
    have hflat := pairs?_eq_some hfound
    rw [hflat]
    exact .sortedSet (hpairs hflat)
  · obtain ⟨id, _, h⟩ := Option.bind_eq_some_iff.1 h
    obtain ⟨pairs, hfound, h⟩ := Option.bind_eq_some_iff.1 h
    split at h
    · rename_i hlegal
      obtain ⟨first, rest, rfl⟩ := List.exists_cons_of_ne_nil hsome
      have hflat : rest = Packed.flatten pairs := pairs?_eq_some hfound
      rw [hflat]
      exact .stream hlegal.1
    · cases h
  · cases h

/-- What a store carries out is complete, whatever stands under the key. -/
theorem isComplete_of_effect? (hwrites : Load.Writes name command)
    (h : command.effect? now slot = some after) : command.IsComplete name := by
  cases hwrites with
  | set value => exact .string value
  | add kind arguments =>
      rw [effect?_add, Option.map_eq_some_iff] at h
      obtain ⟨content, hgrown, _⟩ := h
      rw [Build.grow?] at hgrown
      split at hgrown
      · cases hgrown
      · rename_i hsome
        exact isComplete_of_grow? (mt List.isEmpty_iff.2 hsome) hgrown

/-- A store refuses what is not complete. -/
theorem execute?_eq_none (hwrites : Load.Writes name command)
    (hincomplete : ¬ command.IsComplete name) (store : Store) :
    execute? now store command = none := by
  have hrefused : ∀ slot, command.effect? now slot = none := fun slot =>
    Option.eq_none_iff_forall_ne_some.2 fun _ hafter =>
      hincomplete (isComplete_of_effect? hwrites hafter)
  cases hwrites with
  | set value => exact absurd (.string value) hincomplete
  | add kind arguments =>
      rw [Build.command] at hrefused ⊢
      rw [execute?_named, hrefused, Option.map_none]

theorem not_isComplete_bare (id : Bytes) : ¬ (Command.named "XADD" [name, id]).IsComplete name := by
  intro h
  generalize hcommand : Command.named "XADD" [name, id] = command at h
  cases h with
  | string | list | set | hash | sortedSet => exact absurd (List.cons.inj hcommand).1 (by decide)
  | @stream _ fields hsome =>
      have hflat : [] = Packed.flatten fields := congrArg (List.drop 3) hcommand
      have hlength := congrArg List.length hflat
      rw [Packed.length_flatten, List.length_nil] at hlength
      exact hsome (List.length_eq_zero_iff.1 (by omega))

/-- Arguments of one command that are enough if there are any. -/
theorem isComplete_of_mem {keepDeleted : Bool} {value : Value} {text : String}
    {arguments : List Bytes} (hwrites : value.writes keepDeleted name = [.named text (name :: arguments)])
    (hcomplete : arguments ≠ [] → (Command.named text (name :: arguments)).IsComplete name)
    (hmem : command ∈ (value.writes keepDeleted name).filter (2 < ·.length)) :
    command.IsComplete name := by
  rw [hwrites, filter_named] at hmem
  split at hmem
  · cases hmem
  · rename_i hsome
    rw [List.mem_singleton.1 hmem]
    exact hcomplete hsome

theorem isComplete_of_not_stream {keepDeleted : Bool} {value : Value}
    (hvalue : ∀ log, value ≠ .stream log)
    (hmem : command ∈ (value.writes keepDeleted name).filter (2 < ·.length)) :
    command.IsComplete name := by
  have hflat : ∀ {pairs : List (Bytes × Bytes)}, Packed.flatten pairs ≠ [] → pairs ≠ [] := by
    rintro _ hsome rfl
    exact hsome rfl
  cases value with
  | string bytes => exact isComplete_of_mem rfl (fun _ => .string bytes) hmem
  | list elements => exact isComplete_of_mem rfl .list hmem
  | set members => exact isComplete_of_mem rfl .set hmem
  | hash fields => exact isComplete_of_mem rfl (fun hsome => .hash (hflat hsome)) hmem
  | sortedSet members =>
      exact isComplete_of_mem (writes_sortedSet keepDeleted members)
        (fun hsome => .sortedSet (hflat hsome)) hmem
  | stream log => exact absurd rfl (hvalue log)

theorem writes_stream (keepDeleted : Bool) (log : Stream) :
    (Value.stream log).writes keepDeleted name = (log.kept keepDeleted).map fun entry =>
      .named "XADD" (name :: entry.1.bytes :: Packed.flatten entry.2.fields) :=
  rfl

theorem mem_incomplete_stream_iff {keepDeleted : Bool} {log : Stream} :
    (command ∈ ((Value.stream log).writes keepDeleted name).filter (2 < ·.length) ∧
        ¬ command.IsComplete name) ↔
      ∃ id ∈ (Value.stream log).bareIds keepDeleted, command = .named "XADD" [name, id.bytes] := by
  rw [filter_stream, writes_stream]
  constructor
  · rintro ⟨hmem, hbare⟩
    obtain ⟨entry, hentry, rfl⟩ := List.mem_map.1 hmem
    have hnone : entry.2.fields = [] := by_contra fun hsome => hbare (.stream hsome)
    refine ⟨entry.1, List.mem_map_of_mem (List.mem_filter.2 ⟨hentry, ?_⟩), ?_⟩
    · exact List.isEmpty_iff.2 hnone
    · rw [hnone]
      rfl
  · rintro ⟨id, hid, rfl⟩
    obtain ⟨entry, hentry, rfl⟩ := List.mem_map.1 hid
    obtain ⟨hkept, hnone⟩ := List.mem_filter.1 hentry
    refine ⟨List.mem_map.2 ⟨entry, hkept, ?_⟩, not_isComplete_bare _⟩
    rw [List.isEmpty_iff.1 hnone]
    rfl

/-- The only commands that are sent without what they require are those of entries without fields. -/
theorem mem_incomplete_iff {keepDeleted : Bool} {value : Value} :
    (command ∈ (value.writes keepDeleted name).filter (2 < ·.length) ∧
        ¬ command.IsComplete name) ↔
      ∃ id ∈ value.bareIds keepDeleted, command = .named "XADD" [name, id.bytes] := by
  cases value with
  | stream log => exact mem_incomplete_stream_iff
  | string _ | list _ | set _ | hash _ | sortedSet _ =>
      refine iff_of_false ?_ ?_
      · rintro ⟨hmem, hbare⟩
        exact hbare (isComplete_of_not_stream (by rintro _ ⟨⟩) hmem)
      · rintro ⟨_, hid, _⟩
        cases hid

/-- One command that is always refused is enough for all of them to be refused. -/
theorem executeAll?_eq_none {commands : List Command} (hmem : command ∈ commands)
    (h : ∀ store, execute? now store command = none) (store : Store) :
    executeAll? now store commands = none := by
  induction commands generalizing store with
  | nil => cases hmem
  | cons first commands ih =>
      rw [executeAll?, List.foldlM_cons, Option.bind_eq_bind, Option.bind_eq_none_iff]
      intro between hfirst
      rcases List.mem_cons.1 hmem with rfl | hmem
      · rw [h] at hfirst
        cases hfirst
      · exact ih hmem between

end Commands

/-- **Every command has its payload** among those that are sent for a record, except that an entry of
a stream without fields is sent as a bare id. No store accepts a batch with such an entry. -/
theorem writes_complete (keepDeleted : Bool) (key : Key) (value : Value) :
    ∃ rebuild, (Record.keyed key value).rebuild? keepDeleted = some rebuild ∧
      (∀ command, (command ∈ rebuild.writes ∧ ¬ command.IsComplete key.name) ↔
        ∃ id ∈ value.bareIds keepDeleted, command = .named "XADD" [key.name, id.bytes]) ∧
      ∀ (options : Load.Options) (database : Nat) (batch : List Record),
        options.keepDeleted = keepDeleted → .keyed key value ∈ batch →
          value.bareIds keepDeleted ≠ [] → ∀ (now : Int) (store : Store),
            executeAll? now store (Load.writeCommands options database batch) = none := by
  refine ⟨_, rfl, fun command => mem_incomplete_iff, ?_⟩
  rintro options database batch rfl hmem hbare now store
  obtain ⟨id, hid⟩ := List.exists_mem_of_ne_nil _ hbare
  obtain ⟨hwrite, hincomplete⟩ := mem_incomplete_iff.2 ⟨id, hid, rfl⟩
  have hsent : Command.named "XADD" [key.name, id.bytes] ∈
      Load.writeCommands options database batch := by
    refine List.mem_cons_of_mem _ (List.mem_flatMap.2 ⟨_, hmem, ?_⟩)
    rw [Load.recordCommands_keyed, Load.writesWithExpiry]
    exact List.mem_append_left _ hwrite
  have hwrites := Load.writes_of_mem (List.mem_of_mem_filter hwrite)
  exact executeAll?_eq_none hsent (execute?_eq_none hwrites hincomplete) store

/-- A node may declare no fields, and an entry of it may have the fields that the node declares. -/
example :
    ((Source.ofBytes []).decode (Decoder.records 15 ⟨[107], 0⟩)
        ⟨0, [1, 16, 0, 0, 0, 0, 0, 0, 0, 1, 0, 0, 0, 0, 0, 0, 0, 1, 23, 23, 0, 0, 0, 8, 0, 1, 1, 0, 1,
          0, 1, 0, 1, 2, 1, 0, 1, 0, 1, 4, 1, 0xFF, 1, 1, 1, 0]⟩).1.toOption.map
      (List.filterMap fun record => (record.rebuild? false).map Rebuild.writes) =
    some [[.named "XADD" [[107], [49, 45, 49]]]] :=
  by decide +kernel

end Store

end RedisSnapshot
