import RedisSnapshot.Proofs.IdMap
import RedisSnapshot.Proofs.Load.Survivors
import RedisSnapshot.Proofs.Score
import RedisSnapshot.Proofs.Store.Grown

/-!
# Replaying a record

The commands of a record are not refused where nothing stands under the key yet, and so the key comes
to have the value of the record. A score is a number, so its text is taken for one; the ids of a
stream are in the order of its map, which is the order of their numbers and not that of their texts, so
every entry is above the one before it. A list is the exception: its elements come to stand the other
way round.
-/

namespace RedisSnapshot

open Load

theorem StreamId.zero_lt {id : StreamId} (h : id ≠ default) : default < id := by
  refine lt_of_not_lt_of_ne (fun hlt => ?_) h
  rw [lt_iff, UInt64.lt_iff_toNat_lt, UInt64.lt_iff_toNat_lt] at hlt
  rcases hlt with hms | ⟨_, hseq⟩
  · exact Nat.not_lt_zero _ hms
  · exact Nat.not_lt_zero _ hseq

/-- The entries that are written are in the order of their ids. -/
theorem Stream.ascending_kept (keepDeleted : Bool) (log : Stream) :
    ((log.kept keepDeleted).map Prod.fst).Pairwise (· < ·) :=
  List.pairwise_map.2 ((List.pairwise_reverse.2 log.entries.descending).filter _)

namespace Value

/-- What a store can be given of the value is the value: its scores are numbers, and the entries that
are written of a stream are such as can be added to one. -/
def IsReplayable (keepDeleted : Bool) : Value → Prop
  | .string _ | .set _ | .hash _ => True
  | .list _ => False
  | .sortedSet members => ∀ member ∈ members, member.2.isNaN = false
  | .stream log => ∀ entry ∈ log.kept keepDeleted, entry.2.fields ≠ [] ∧ entry.1 ≠ default

end Value

namespace Store

theorem isScore_scoreBytes {score : Binary64} (h : score.isNaN = false) :
    isScore (Value.scoreBytes score) = true := by
  obtain ⟨found, hread, hnumber⟩ := Binary64.read?_score_text h
  rw [isScore, Value.scoreBytes, Text.chars_bytes (Binary64.toNat_lt_of_mem_score_text h), hread,
    Option.any_some, hnumber]
  rfl

/-! ### The commands of one key -/

theorem put_self (name : Bytes) (store : Store) :
    store.put name (store.slots store.selected name) = store := by
  cases store with
  | mk selected slots =>
      refine congrArg (Store.mk selected) (funext fun database => funext fun other => ?_)
      dsimp only
      split
      · rename_i hsame
        rw [hsame.1, hsame.2]
      · rfl

theorem put_put (name : Bytes) (first second : Option Slot) (store : Store) :
    (store.put name first).put name second = store.put name second := by
  refine congrArg (Store.mk store.selected) (funext fun database => funext fun other => ?_)
  by_cases hsame : database = store.selected ∧ other = name
  · exact (if_pos hsame).trans (if_pos hsame).symm
  · exact ((if_neg hsame).trans (if_neg hsame)).trans (if_neg hsame).symm

theorem execute?_named {now : Int} {store : Store} {name : Bytes} (verb : Verb)
    (arguments : List Bytes) :
    execute? now store (.named verb.name (name :: arguments)) =
      ((Command.named verb.name (name :: arguments)).effect? now
        (store.slots store.selected name)).map fun slot => store.put name slot := by
  have hkeyed : (Command.named verb.name (name :: arguments)).isSelection = false :=
    decide_eq_false fun hselect => verb.name_ne_select (Option.some.inj hselect)
  rw [execute?]
  change (if _ then _ else _) = _
  rw [hkeyed, if_neg Bool.false_ne_true, Option.map_eq_bind]
  rfl

/-- Commands for one key of the selected database work on the slot of the key. -/
theorem executeAll?_named {name : Bytes} {commands : List Command}
    (h : ∀ command ∈ commands, ∃ (verb : Verb) (arguments : List Bytes),
      command = .named verb.name (name :: arguments)) (now : Int) (store : Store) :
    executeAll? now store commands =
      (Command.effects? now commands (store.slots store.selected name)).map fun slot =>
        store.put name slot := by
  induction commands generalizing store with
  | nil => exact congrArg some (put_self name store).symm
  | cons command commands ih =>
      obtain ⟨⟨verb, arguments, rfl⟩, hrest⟩ := List.forall_mem_cons.1 h
      rw [executeAll?, Command.effects?, List.foldlM_cons, List.foldlM_cons, execute?_named]
      cases (Command.named verb.name (name :: arguments)).effect? now
          (store.slots store.selected name) with
      | none => rfl
      | some slot =>
          change executeAll? now (store.put name slot) commands =
            (Command.effects? now commands slot).map fun slot => store.put name slot
          have hslot : (store.put name slot).slots (store.put name slot).selected name = slot :=
            slots_put_same name slot store
          simp only [ih hrest (store.put name slot), hslot, put_put]

section Effects

variable {now : Int} {slot : Option Slot} {name : Bytes}

theorem effect?_of_grow {kind : Kind} {arguments : List Bytes} {content : Content}
    (hsome : arguments ≠ [])
    (hgrow : kind.grow? arguments ((seen now slot).getD ⟨kind.fresh, none⟩).content = some content) :
    (Command.named (Verb.add kind).name (name :: arguments)).effect? now slot =
      some (some { (seen now slot).getD ⟨kind.fresh, none⟩ with content }) := by
  rw [effect?_named, Verb.act?, if_neg (by simpa using hsome), hgrow]
  rfl

theorem effects?_of_cons {command : Command} {commands : List Command} {between after : Option Slot}
    (hfirst : command.effect? now slot = some between)
    (hrest : Command.effects? now commands between = some after) :
    Command.effects? now (command :: commands) slot = some after := by
  rw [Command.effects?, List.foldlM_cons, hfirst]
  exact hrest

/-- A value of which something can be made out of nothing is not refused. -/
theorem exists_effects?_fresh (kind : Kind) (arguments : List Bytes)
    (hgrow : (kind.grow? arguments kind.fresh).isSome = true) (hseen : seen now slot = none) :
    ∃ after, Command.effects? now
      ([.named (Verb.add kind).name (name :: arguments)].filter (2 < ·.length)) slot =
        some after := by
  obtain ⟨content, hcontent⟩ := Option.isSome_iff_exists.1 hgrow
  rw [filter_named]
  by_cases hnone : arguments = []
  · rw [if_pos hnone]
    exact ⟨slot, rfl⟩
  · rw [if_neg hnone]
    exact ⟨_, effects?_of_cons (effect?_of_grow hnone (by rw [hseen]; exact hcontent)) rfl⟩

/-- Entries above all that are there are added to a stream. -/
theorem exists_effects?_entries (entries : List (StreamId × Stream.Entry))
    (found : List (StreamId × List (Bytes × Bytes)))
    (hslot : (seen now slot).getD ⟨Kind.fresh .stream, none⟩ = ⟨.stream found, none⟩)
    (hfields : ∀ entry ∈ entries, entry.2.fields ≠ [])
    (hids : (lastId found :: entries.map Prod.fst).Pairwise (· < ·)) :
    ∃ after, Command.effects? now
      (entries.map fun (id, entry) => .named "XADD"
        (name :: id.bytes :: entry.fields.flatMap fun (field, value) => [field, value])) slot =
      some after := by
  induction entries generalizing slot found with
  | nil => exact ⟨slot, rfl⟩
  | cons entry entries ih =>
      obtain ⟨id, entry⟩ := entry
      obtain ⟨hfirst, hrest⟩ := List.forall_mem_cons.1 hfields
      obtain ⟨hlast, hlater⟩ := List.pairwise_cons.1 hids
      have hgrow : Kind.stream.grow? (id.bytes :: Packed.flatten entry.fields) (.stream found) =
          some (.stream (found ++ [(id, entry.fields)])) := by
        rw [Kind.grow?, List.headD_cons, StreamId.read?_bytes, List.tail_cons, pairs?_flatten]
        exact if_pos ⟨hfirst, hlast id List.mem_cons_self⟩
      have hadded := @effect?_of_grow now slot name .stream _ _ (List.cons_ne_nil _ _)
        (by rw [hslot]; exact hgrow)
      rw [hslot] at hadded
      have habove : (lastId (found ++ [(id, entry.fields)]) :: entries.map Prod.fst).Pairwise
          (· < ·) := by
        rw [lastId_append]
        exact hlater
      obtain ⟨after, hafter⟩ :=
        @ih (some ⟨.stream (found ++ [(id, entry.fields)]), none⟩) _ rfl hrest habove
      exact ⟨after, effects?_of_cons hadded hafter⟩

/-- **What is written of a value is not refused** where nothing is. -/
theorem exists_effects?_writes {keepDeleted : Bool} {value : Value} (name : Bytes)
    (h : value.IsReplayable keepDeleted) (hseen : seen now slot = none) :
    ∃ after, Command.effects? now ((value.writes keepDeleted name).filter (2 < ·.length)) slot =
      some after := by
  cases value with
  | string bytes =>
      exact ⟨_, effects?_of_cons (effect?_named .set [bytes]) rfl⟩
  | list elements => exact h.elim
  | set members => exact exists_effects?_fresh .set members rfl hseen
  | hash fields =>
      refine exists_effects?_fresh .hash (Packed.flatten fields) ?_ hseen
      rw [Kind.fresh, Kind.grow?, pairs?_flatten]
      rfl
  | sortedSet members =>
      have hscores : ((scored members).all fun pair => isScore pair.1) = true := by
        refine List.all_eq_true.2 fun pair hmem => ?_
        obtain ⟨member, hmember, rfl⟩ := List.mem_map.1 hmem
        exact isScore_scoreBytes (h member hmember)
      rw [writes_sortedSet]
      refine exists_effects?_fresh .sortedSet (Packed.flatten (scored members)) ?_ hseen
      rw [Kind.fresh, Kind.grow?, pairs?_flatten]
      exact congrArg Option.isSome (if_pos hscores)
  | stream log =>
      rw [filter_stream]
      refine exists_effects?_entries (log.kept keepDeleted) [] (by rw [hseen]; rfl)
        (fun entry hmem => (h entry hmem).1)
        (List.pairwise_cons.2 ⟨?_, log.ascending_kept keepDeleted⟩)
      intro id hmem
      obtain ⟨entry, hentry, rfl⟩ := List.mem_map.1 hmem
      exact StreamId.zero_lt (h entry hentry).2

end Effects

/-- The entries of a stream are in the order of their ids. -/
def Content.IsAscending : Content → Prop
  | .stream entries => (entries.map Prod.fst).Pairwise (· < ·)
  | .string _ | .list _ | .set _ | .hash _ | .sortedSet _ => True

theorem Content.Holds.isAscending {keepDeleted : Bool} {value : Value} {content : Content}
    (h : content.Holds keepDeleted value) : content.IsAscending := by
  cases content with
  | stream entries =>
      cases value with
      | stream log =>
          rw [Holds] at h
          rw [h, IsAscending, List.map_map]
          exact log.ascending_kept keepDeleted
      | string _ | list _ | set _ | hash _ | sortedSet _ => exact h.elim
  | string _ | list _ | set _ | hash _ | sortedSet _ => exact trivial

/-- **What is written of a record rebuilds it** under a key that cannot be seen yet. Nothing is written
exactly if there is nothing to be written, and no command is refused. -/
theorem replay_record (keepDeleted : Bool) (now : Int) (record : Record) :
    (record.isControl = true → record.rebuild? keepDeleted = none) ∧
      ∀ key value, record = .keyed key value →
        ∃ rebuild, record.rebuild? keepDeleted = some rebuild ∧
          (rebuild.writes = [] ↔ value.IsVoid keepDeleted) ∧
          (value.IsReplayable keepDeleted → ∀ store : Store,
            seen now (store.slots store.selected key.name) = none →
              ∃ after, executeAll? now store rebuild.writes = some after ∧
                (value.IsVoid keepDeleted → after = store) ∧
                (¬ value.IsVoid keepDeleted → ∃ content,
                  after = store.put key.name (some ⟨content, none⟩) ∧
                    content.Holds keepDeleted value ∧ content.IsAscending)) := by
  refine ⟨fun hcontrol => ?_, ?_⟩
  · cases record with
    | keyed key value => cases hcontrol
    | selectDb _ | resizeDb _ _ | aux _ _ => rfl
  · rintro key value rfl
    refine ⟨_, rfl, writes_eq_nil_iff, fun hreplayable store hseen => ?_⟩
    obtain ⟨slot, hslot⟩ := exists_effects?_writes key.name hreplayable hseen
    have hnamed : ∀ command ∈ (value.writes keepDeleted key.name).filter (2 < ·.length),
        ∃ (verb : Verb) (arguments : List Bytes),
          command = .named verb.name (key.name :: arguments) :=
      fun command hmem => named_of_writes (List.mem_of_mem_filter hmem)
    have hexecuted := executeAll?_named hnamed now store
    rw [hslot] at hexecuted
    refine ⟨_, hexecuted, fun hvoid => ?_, fun hvoid => ?_⟩
    · rw [writes_eq_nil_iff.2 hvoid] at hslot
      cases hslot
      exact put_self key.name store
    · rcases effects?_writes hseen hslot with ⟨hnone, _⟩ | ⟨content, rfl, hcontent⟩
      · exact absurd (writes_eq_nil_iff.1 hnone) hvoid
      · exact ⟨content, rfl, hcontent, hcontent.isAscending⟩

/-- A stream whose ids are in another order as texts than as numbers, with an entry that is deleted.
-/
def numbered : Stream where
  entries := .ofList [(⟨10, 0⟩, ⟨false, [([97], [50])]⟩), (⟨9, 1⟩, ⟨true, [([97], [49])]⟩),
    (⟨9, 0⟩, ⟨false, [([97], [48])]⟩)]
  length := 2
  lastId := ⟨10, 0⟩
  firstId := none
  maxDeletedId := none
  entriesAdded := none
  groups := []

theorem replay_numbered :
    (Value.stream numbered).IsReplayable false ∧
      ∃ rebuild ∈ (Record.keyed ⟨[107], 0⟩ (.stream numbered)).rebuild? false,
        (executeAll? 0 empty rebuild.writes).bind (fun after => after.slots 0 [107]) =
          some ⟨.stream [(⟨9, 0⟩, [([97], [48])]), (⟨10, 0⟩, [([97], [50])])], none⟩ := by
  have hreplayable : (Value.stream numbered).IsReplayable false :=
    (by decide : ∀ entry ∈ numbered.kept false, entry.2.fields ≠ [] ∧ entry.1 ≠ default)
  obtain ⟨rebuild, hrebuild, _, hreplayed⟩ :=
    (replay_record false 0 (.keyed ⟨[107], 0⟩ (.stream numbered))).2 _ _ rfl
  obtain ⟨after, hafter, _, hheld⟩ := hreplayed hreplayable empty rfl
  obtain ⟨content, rfl, hcontent, _⟩ := hheld (List.cons_ne_nil _ _)
  refine ⟨hreplayable, rebuild, hrebuild, ?_⟩
  rw [hafter]
  cases content with
  | stream entries =>
      cases hcontent
      rfl
  | string _ | list _ | set _ | hash _ | sortedSet _ => exact hcontent.elim

end Store

end RedisSnapshot
