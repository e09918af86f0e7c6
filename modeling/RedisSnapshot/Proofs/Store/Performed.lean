import RedisSnapshot.Proofs.Store.Repeated

/-!
# A store that carries out a part

Of the commands of a pipeline any part may come through to a store, which may refuse some of these. It
is known by its deeds what it has become: the slot of a key is what the deeds for the key in its
database have made of it, one after another.
-/

namespace RedisSnapshot

/-- The elements that are pushed to a list. -/
def Command.pushed (command : Command) : List Bytes :=
  if command.head? = some (Text.bytes (Store.Verb.add .list).name) then command.drop 2 else []

/-- What the commands for a list put in front of it, the last element first. -/
def Command.front (commands : List Command) : List Bytes :=
  (commands.flatMap Command.pushed).reverse

namespace Store

/-- What a store comes to if commands that are refused are passed over. -/
def executeEach (now : Int) (store : Store) (commands : List Command) : Store :=
  commands.foldl (fun store command => (store.execute? now command).getD store) store

/-- A command that was carried out. -/
structure Deed where
  moment : Int
  /-- The database that was selected. -/
  database : Nat
  command : Command

namespace Deed

def touches (database : Nat) (name : Bytes) (deed : Deed) : Bool :=
  deed.database = database && !deed.command.isSelection && deed.command.key? = some name

/-- The commands that were carried out for a key. -/
def commandsFor (database : Nat) (name : Bytes) (deeds : List Deed) : List Command :=
  (deeds.filter (Deed.touches database name)).map Deed.command

def effects? (deeds : List Deed) (slot : Option Slot) : Option (Option Slot) :=
  deeds.foldlM (fun slot deed => deed.command.effect? deed.moment slot) slot

end Deed

/-- Carries out the commands that come through and are not refused, and says which they were. -/
def perform (now : Int) : (admits : Nat → Bool) → List Command → Store → Store × List (Option Deed)
  | _, [], store => (store, [])
  | admits, command :: commands, store =>
      match if admits 0 then store.execute? now command else none with
      | some after =>
          let (last, deeds) := perform now (fun place => admits (place + 1)) commands after
          (last, some ⟨now, store.selected, command⟩ :: deeds)
      | none =>
          let (last, deeds) := perform now (fun place => admits (place + 1)) commands store
          (last, none :: deeds)

/-- The deeds lead from one store to another, and are about these commands and from this time. -/
structure Recounts (first last : Int) (commands : List Command) (store : Store) (deeds : List Deed)
    (after : Store) : Prop where
  slots : ∀ database name, Deed.effects? (deeds.filter (Deed.touches database name))
    (store.slots database name) = some (after.slots database name)
  within : ∀ deed ∈ deeds, deed.command ∈ commands ∧ first ≤ deed.moment ∧ deed.moment ≤ last

theorem Recounts.append {first last : Int} {commands : List Command} {store between after : Store}
    {front back : List Deed} (hfront : Recounts first last commands store front between)
    (hback : Recounts first last commands between back after) :
    Recounts first last commands store (front ++ back) after := by
  refine ⟨fun database name => ?_, fun deed hmem => ?_⟩
  · rw [List.filter_append, Deed.effects?, List.foldlM_append, Option.bind_eq_bind]
    exact (Option.bind_eq_some_iff.2 ⟨_, hfront.slots database name, hback.slots database name⟩)
  · rcases List.mem_append.1 hmem with hmem | hmem
    · exact hfront.within deed hmem
    · exact hback.within deed hmem

theorem slots_execute? {now : Int} {store after : Store} {command : Command}
    (h : store.execute? now command = some after) (database : Nat) (name : Bytes) :
    Deed.effects? ([⟨now, store.selected, command⟩].filter (Deed.touches database name))
      (store.slots database name) = some (after.slots database name) := by
  rw [List.filter_singleton]
  by_cases hkeyed : command.isSelection = true
  · have htouches : Deed.touches database name ⟨now, store.selected, command⟩ = false := by
      simp [Deed.touches, hkeyed]
    rw [htouches]
    rw [execute?, Option.bind_eq_bind, Option.bind_eq_some_iff] at h
    obtain ⟨key, _, h⟩ := h
    rw [if_pos hkeyed] at h
    split at h
    · rw [Option.bind_eq_bind, Option.bind_eq_some_iff] at h
      obtain ⟨index, _, h⟩ := h
      cases h
      rfl
    · cases h
  · have hkeyed := eq_false_of_ne_true hkeyed
    obtain ⟨key, slot, hkey, hslot, rfl⟩ := execute?_keyed hkeyed h
    by_cases hsame : database = store.selected ∧ name = key
    · obtain ⟨rfl, rfl⟩ := hsame
      have htouches : Deed.touches store.selected name ⟨now, store.selected, command⟩ = true := by
        simp [Deed.touches, hkeyed, hkey]
      rw [htouches, slots_put_same]
      change (command.effect? now _ >>= _) = _
      rw [hslot]
      rfl
    · have htouches : Deed.touches database name ⟨now, store.selected, command⟩ = false := by
        rw [not_and_or] at hsame
        rcases hsame with hother | hother
        · simp [Deed.touches, Ne.symm hother]
        · simp [Deed.touches, hkey, Ne.symm hother]
      rw [htouches, slots_put_other hsame]
      rfl

theorem recounts_perform {first now last : Int} (hfirst : first ≤ now) (hlast : now ≤ last)
    {commands all : List Command} (hall : ∀ command ∈ commands, command ∈ all)
    (admits : Nat → Bool) (store : Store) :
    Recounts first last all store ((store.perform now admits commands).2.filterMap id)
      (store.perform now admits commands).1 := by
  induction commands generalizing admits store with
  | nil => exact ⟨fun _ _ => rfl, nofun⟩
  | cons command commands ih =>
      obtain ⟨hcommand, hcommands⟩ := List.forall_mem_cons.1 hall
      rw [perform]
      split
      · rename_i after hafter
        have hexecuted : store.execute? now command = some after := by
          split at hafter
          · exact hafter
          · cases hafter
        have hone : Recounts first last all store [⟨now, store.selected, command⟩] after := by
          refine ⟨slots_execute? hexecuted, fun deed hmem => ?_⟩
          rw [List.mem_singleton.1 hmem]
          exact ⟨hcommand, hfirst, hlast⟩
        exact hone.append (ih hcommands (fun place => admits (place + 1)) after)
      · exact ih hcommands (fun place => admits (place + 1)) store

/-- A store that has answered everything with an agreement has carried out everything. -/
theorem executeAll?_of_perform {now : Int} {admits : Nat → Bool} {commands : List Command}
    {store : Store} (h : none ∉ (store.perform now admits commands).2) :
    store.executeAll? now commands = some (store.perform now admits commands).1 := by
  induction commands generalizing admits store with
  | nil => rfl
  | cons command commands ih =>
      rw [perform] at h ⊢
      split at h
      · rename_i after hafter
        have hexecuted : store.execute? now command = some after := by
          split at hafter
          · exact hafter
          · cases hafter
        have hrest : none ∉ (after.perform now (fun place => admits (place + 1)) commands).2 :=
          fun hmem => h (List.mem_cons_of_mem _ hmem)
        rw [executeAll?, List.foldlM_cons, hexecuted]
        exact ih hrest
      · exact absurd List.mem_cons_self h

/-- One command, which may be refused, changes the slot of its own key at most. -/
theorem slots_executeOne {now : Int} {command : Command} (hkeyed : command.isSelection = false)
    (store : Store) :
    let next := (store.execute? now command).getD store
    next.selected = store.selected ∧
      (∀ database ≠ store.selected, ∀ name, next.slots database name = store.slots database name) ∧
      ∀ name, next.slots store.selected name =
        if command.key? = some name then
          (command.effect? now (store.slots store.selected name)).getD
            (store.slots store.selected name)
        else store.slots store.selected name := by
  cases hexecuted : store.execute? now command with
  | none =>
      refine ⟨rfl, fun _ _ _ => rfl, fun name => ?_⟩
      split
      · rename_i hkey
        rw [execute?, hkey, hkeyed] at hexecuted
        change (command.effect? now _).bind _ = none at hexecuted
        cases heffect : command.effect? now (store.slots store.selected name) with
        | none => rfl
        | some slot =>
            rw [heffect] at hexecuted
            cases hexecuted
      · rfl
  | some after =>
      obtain ⟨key, slot, hkey, hslot, rfl⟩ := execute?_keyed hkeyed hexecuted
      rw [Option.getD_some]
      refine ⟨rfl, fun database hother name => ?_, fun name => ?_⟩
      · exact slots_put_other fun hsame => hother hsame.1
      · by_cases hsame : key = name
        · subst hsame
          rw [slots_put_same, if_pos hkey, hslot, Option.getD_some]
        · rw [slots_put_other fun hput => hsame hput.2.symm, hkey, if_neg (by simpa using hsame)]

/-- Commands change the slots of their own keys, each slot by the commands for its key. -/
theorem slots_executeEach {now : Int} {commands : List Command}
    (hkeyed : ∀ command ∈ commands, command.isSelection = false) (store : Store) :
    (store.executeEach now commands).selected = store.selected ∧
      (∀ database ≠ store.selected, ∀ name,
        (store.executeEach now commands).slots database name = store.slots database name) ∧
      ∀ name, (store.executeEach now commands).slots store.selected name =
        Command.effects now (commands.filter (·.key? = some name))
          (store.slots store.selected name) := by
  induction commands generalizing store with
  | nil => exact ⟨rfl, fun _ _ _ => rfl, fun _ => rfl⟩
  | cons command commands ih =>
      obtain ⟨hcommand, hcommands⟩ := List.forall_mem_cons.1 hkeyed
      obtain ⟨hselected, hothers, hnames⟩ := @slots_executeOne now command hcommand store
      obtain ⟨hselectedLater, hothersLater, hnamesLater⟩ :=
        ih hcommands ((store.execute? now command).getD store)
      rw [hselected] at hselectedLater hothersLater hnamesLater
      rw [executeEach, List.foldl_cons]
      refine ⟨hselectedLater, fun database hother name => ?_, fun name => ?_⟩
      · exact (hothersLater database hother name).trans (hothers database hother name)
      · refine (hnamesLater name).trans ?_
        rw [hnames name, List.filter_cons]
        by_cases hkey : command.key? = some name
        · rw [if_pos hkey, if_pos (decide_eq_true hkey)]
          rfl
        · rw [if_neg hkey, if_neg (by simpa using hkey)]

end Store

end RedisSnapshot
