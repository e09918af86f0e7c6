import RedisSnapshot.Proofs.Load.Wholeness
import RedisSnapshot.Proofs.Store.Performed

/-!
# A batch that is sent again

An attempt at a batch can fail with a part of its commands carried out, and the next one sends all of
them again. What has been carried out before is not done twice, with two exceptions. Elements that were
pushed to a list stay in it, and so a list may get them several times. And commands that were carried
out although the selection in front of them was not are done in whatever database was selected.
-/

namespace RedisSnapshot.Load

open Store

/-! ### What is sent for a key -/

section Commands

variable {options : Options} {now : Int} {name : Bytes} {command : Command}

theorem resets_set (now : Int) (name value : Bytes) :
    Resets now (.named Verb.set.name [name, value]) :=
  ⟨some ⟨.string value, none⟩, fun _ => effect?_named .set [value]⟩

theorem resets_expire {moment : Int} (hlow : -(Word.count 63 : Int) ≤ moment)
    (hhigh : moment < Word.count 63) (hpast : moment ≤ now) : Resets now (expire name moment) := by
  refine ⟨none, fun slot => ?_⟩
  rw [effect?_expire_eq hlow hhigh, if_pos hpast]

/-- The command makes a value or adds elements to one. -/
inductive Writes (name : Bytes) : Command → Prop where
  | set (value : Bytes) : Writes name (.named Verb.set.name [name, value])
  | add (kind : Kind) (arguments : List Bytes) : Writes name ((Build.add kind arguments).command name)

theorem not_writes_expire {moment : Int} : ¬ Writes name (expire name moment) := by
  intro h
  generalize hcommand : expire name moment = command at h
  cases h with
  | set value => cases @Verb.eq_of_name .expire .set (List.cons.inj hcommand).1
  | add kind arguments => cases @Verb.eq_of_name .expire (.add kind) (List.cons.inj hcommand).1

theorem writes_of_mem {keepDeleted : Bool} {value : Value}
    (h : command ∈ value.writes keepDeleted name) : Writes name command := by
  cases value with
  | string bytes =>
      rw [List.mem_singleton.1 h]
      exact .set bytes
  | list elements =>
      rw [List.mem_singleton.1 h]
      exact .add .list elements
  | set members =>
      rw [List.mem_singleton.1 h]
      exact .add .set members
  | hash fields =>
      rw [List.mem_singleton.1 h]
      exact .add .hash _
  | sortedSet members =>
      rw [List.mem_singleton.1 h]
      exact .add .sortedSet _
  | stream log =>
      obtain ⟨entry, _, rfl⟩ := List.mem_map.1 h
      exact .add .stream _

/-- The commands of a record write its value first, and then may give it a time to expire. -/
theorem commands_of_record {key : Key} {value : Value} :
    (∀ first ∈ (writesWithExpiry options key value).head?, Writes key.name first) ∧
      ∀ command ∈ writesWithExpiry options key value, Writes key.name command ∨
        ∃ moment, -(Word.count 63 : Int) ≤ moment ∧ moment < Word.count 63 ∧
          command = expire key.name moment := by
  have hwrites : ∀ command ∈ (value.writes options.keepDeleted key.name).filter (2 < ·.length),
      Writes key.name command := fun command hmem => writes_of_mem (List.mem_of_mem_filter hmem)
  rw [writesWithExpiry]
  constructor
  · intro first hfirst
    cases hwritten : (value.writes options.keepDeleted key.name).filter (2 < ·.length) with
    | nil =>
        rw [hwritten] at hfirst
        cases hfirst
    | cons write writes =>
        rw [hwritten] at hfirst hwrites
        cases hfirst
        exact hwrites _ List.mem_cons_self
  · intro command hmem
    rcases List.mem_append.1 hmem with hwrite | hexpire
    · exact .inl (hwrites command hwrite)
    · split at hexpire
      · obtain ⟨hlow, hhigh⟩ := nearestMoment_range (key.expiry + options.expiryShift)
        exact .inr ⟨_, hlow, hhigh, List.mem_singleton.1 hexpire⟩
      · cases hexpire

theorem exists_builds {commands : List Command}
    (h : ∀ command ∈ commands, ∃ build : Build, build.IsCurrent now ∧ command = build.command name) :
    ∃ builds : List Build, commands = builds.map (Build.command name) ∧
      ∀ build ∈ builds, build.IsCurrent now := by
  induction commands with
  | nil => exact ⟨[], rfl, nofun⟩
  | cons command commands ih =>
      obtain ⟨⟨build, hbuild, rfl⟩, hrest⟩ := List.forall_mem_cons.1 h
      obtain ⟨builds, rfl, hbuilds⟩ := ih hrest
      exact ⟨build :: builds, rfl, List.forall_mem_cons.2 ⟨hbuild, hbuilds⟩⟩

/-- The commands of a batch for one key. -/
def keyCommands (options : Options) (batch : List Record) (name : Bytes) : List Command :=
  (batch.flatMap (recordWrites options)).filter (·.key? = some name)

theorem keyCommands_eq (options : Options) (batch : List Record) (name : Bytes) :
    keyCommands options batch name = batch.flatMap fun record =>
      if record.valueOf? name = none then [] else recordWrites options record := by
  rw [keyCommands, List.filter_flatMap]
  exact List.flatMap_congr fun record _ => Fate.written.filter_requests options name record

theorem keyed_of_valueOf_ne_none {record : Record} (h : record.valueOf? name ≠ none) :
    ∃ key value, record = .keyed key value ∧ key.name = name := by
  obtain ⟨value, hvalue⟩ := Option.ne_none_iff_exists'.1 h
  obtain ⟨key, hname, rfl⟩ := Record.keyed_of_valueOf hvalue
  exact ⟨key, value, rfl, hname⟩

theorem writes_of_head {batch : List Record} {first : Command}
    (h : first ∈ (keyCommands options batch name).head?) : Writes name first := by
  rw [keyCommands_eq, List.head?_flatMap] at h
  obtain ⟨record, _, hrecord⟩ := List.exists_of_findSome?_eq_some h
  split at hrecord
  · cases hrecord
  · rename_i hvalue
    obtain ⟨key, value, rfl, rfl⟩ := keyed_of_valueOf_ne_none hvalue
    exact commands_of_record.1 _ hrecord

theorem command_of_mem {batch : List Record} (h : command ∈ keyCommands options batch name) :
    Writes name command ∨ ∃ moment, -(Word.count 63 : Int) ≤ moment ∧ moment < Word.count 63 ∧
      command = expire name moment := by
  rw [keyCommands_eq] at h
  obtain ⟨record, _, hcommand⟩ := List.mem_flatMap.1 h
  split at hcommand
  · cases hcommand
  · rename_i hvalue
    obtain ⟨key, value, rfl, rfl⟩ := keyed_of_valueOf_ne_none hvalue
    exact commands_of_record.2 command hcommand

/-- For a key there is a command that makes it anew, or else all of them build it up. -/
theorem resets_or_builds (options : Options) (batch : List Record) (name : Bytes) (now : Int) :
    (∃ command ∈ keyCommands options batch name, Resets now command) ∨
      ∃ builds : List Build, keyCommands options batch name = builds.map (Build.command name) ∧
        (∀ build ∈ builds, build.IsCurrent now) ∧
          ∀ first ∈ builds.head?, ∃ kind arguments, first = .add kind arguments := by
  by_cases hresets : ∃ command ∈ keyCommands options batch name, Resets now command
  · exact .inl hresets
  · have hbuilds : ∀ command ∈ keyCommands options batch name,
        ∃ build : Build, build.IsCurrent now ∧ command = build.command name := by
      intro command hmem
      rcases command_of_mem hmem with hwrites | ⟨moment, hlow, hhigh, rfl⟩
      · cases hwrites with
        | set value => exact absurd ⟨_, hmem, resets_set now name value⟩ hresets
        | add kind arguments => exact ⟨.add kind arguments, trivial, rfl⟩
      · refine ⟨.expire moment, ⟨⟨hlow, hhigh⟩, Int.not_le.1 fun hpast => ?_⟩, rfl⟩
        exact hresets ⟨_, hmem, resets_expire hlow hhigh hpast⟩
    obtain ⟨builds, hcommands, hcurrent⟩ := exists_builds hbuilds
    refine .inr ⟨builds, hcommands, hcurrent, fun first hfirst => ?_⟩
    have hhead : first.command name ∈ (keyCommands options batch name).head? := by
      rw [hcommands, List.head?_map, hfirst]
      rfl
    cases first with
    | add kind arguments => exact ⟨kind, arguments, rfl⟩
    | expire moment => exact absurd (writes_of_head hhead) not_writes_expire

end Commands

/-! ### One key behind a retry -/

section Keys

variable {options : Options} {batch : List Record} {name : Bytes} {first now : Int}
  {slot between after : Option Slot} {deeds : List Deed}

theorem pushed_command (name : Bytes) (build : Build) :
    Command.pushed (build.command name) = build.pushed := by
  cases build with
  | expire moment => rfl
  | add kind arguments => cases kind <;> rfl

theorem front_map_command (name : Bytes) (builds : List Build) :
    Command.front (builds.map (Build.command name)) = pushes builds := by
  rw [Command.front, pushes, List.flatMap_map]
  exact congrArg List.reverse (List.flatMap_congr fun build _ => pushed_command name build)

/-- Deeds that build a key could as well have been done at the last moment. -/
theorem effects?_of_deeds {builds : List Build} (hcurrent : ∀ build ∈ builds, build.IsCurrent now)
    (hdeeds : ∀ deed ∈ deeds, (∃ build ∈ builds, deed.command = build.command name) ∧
      first ≤ deed.moment ∧ deed.moment ≤ now)
    (hsteady : deeds ≠ [] → IsSteady first now slot) (h : Deed.effects? deeds slot = some between) :
    ∃ history : List Build, (∀ build ∈ history, build ∈ builds) ∧
      history.map (Build.command name) = deeds.map Deed.command ∧
        Command.effects? now (history.map (Build.command name)) slot = some between := by
  induction deeds generalizing slot with
  | nil =>
      cases h
      exact ⟨[], nofun, rfl, rfl⟩
  | cons deed deeds ih =>
      obtain ⟨⟨⟨build, hbuild, hcommand⟩, hfirst, hnow⟩, hrest⟩ := List.forall_mem_cons.1 hdeeds
      rw [Deed.effects?, List.foldlM_cons, Option.bind_eq_bind, Option.bind_eq_some_iff] at h
      obtain ⟨next, hnext, h⟩ := h
      rw [hcommand] at hnext
      obtain ⟨heffect, hlater⟩ := effect?_of_steady hfirst hnow (hcurrent build hbuild)
        (hsteady (List.cons_ne_nil _ _)) hnext
      obtain ⟨history, hhistory, hcommands, heffects⟩ := ih hrest (fun _ => hlater) h
      refine ⟨build :: history, List.forall_mem_cons.2 ⟨hbuild, hhistory⟩, ?_, ?_⟩
      · rw [List.map_cons, List.map_cons, hcommands, hcommand]
      · rw [List.map_cons, Command.effects?, List.foldlM_cons, heffect]
        exact heffects

/-- What all commands of a batch leave of a key behind deeds of earlier attempts. -/
theorem gains_of_deeds
    (hdeeds : ∀ deed ∈ deeds, deed.command ∈ keyCommands options batch name ∧
      first ≤ deed.moment ∧ deed.moment ≤ now)
    (hsteady : deeds ≠ [] → IsSteady first now slot)
    (hfirst : Deed.effects? deeds slot = some between)
    (h : Command.effects? now (keyCommands options batch name) between = some after) :
    after = Command.effects now (keyCommands options batch name) slot ∨
      Gains (Command.front (keyCommands options batch name)) (Command.front (deeds.map Deed.command))
        (Command.effects now (keyCommands options batch name) slot) after := by
  rcases resets_or_builds options batch name now with hresets | ⟨builds, hcommands, hcurrent, hadds⟩
  · exact .inl (effects_of_resets hresets h slot).symm
  · rw [hcommands] at hdeeds h ⊢
    have hbuilds : ∀ deed ∈ deeds, (∃ build ∈ builds, deed.command = build.command name) ∧
        first ≤ deed.moment ∧ deed.moment ≤ now := by
      intro deed hmem
      obtain ⟨hcommand, hrange⟩ := hdeeds deed hmem
      obtain ⟨build, hbuild, hsame⟩ := List.mem_map.1 hcommand
      exact ⟨⟨build, hbuild, hsame.symm⟩, hrange⟩
    obtain ⟨history, hhistory, hsame, heffects⟩ :=
      effects?_of_deeds hcurrent hbuilds hsteady hfirst
    obtain ⟨once, honce, hgains⟩ := effects?_absorbs_all hcurrent hadds hhistory heffects h
    rw [effects_of_effects? honce, ← hsame, front_map_command, front_map_command]
    exact .inr hgains

end Keys

/-! ### Attempts -/

def Delivered.isDone : Delivered → Bool
  | done => true
  | failed _ | died => false

theorem Delivered.eq_done {delivered : Delivered} (h : delivered.isDone = true) :
    delivered = .done := by
  cases delivered with
  | done => rfl
  | failed error => cases h
  | died => cases h

/-- What happens to a pipeline that is sent: which of its commands come through, and whether the
answers come back. -/
structure Trial where
  moment : Int
  admits : Nat → Bool
  isBroken : Bool

/-- A store, and for every attempt the commands that were carried out. -/
structure Served where
  store : Store
  history : List (List Deed)

/-- A store behind a connection with such trials, of which every pipeline is the next. -/
def serve (trials : Nat → Trial) (commands : List Command) : StateM Served Execution :=
  fun served =>
    let trial := trials served.history.length
    let (store, outcomes) := served.store.perform trial.moment trial.admits commands
    (if trial.isBroken then .failed (.io .deadline)
      else .answered (outcomes.map fun
        | some _ => .simple [79, 75]
        | none => .error [69, 82, 82]),
      ⟨store, served.history ++ [outcomes.filterMap id]⟩)

theorem executeAll?_of_judge {trials : Nat → Trial} {commands : List Command} {served : Served}
    (h : judge commands (serve trials commands served).1 = .done) :
    served.store.executeAll? (trials served.history.length).moment commands =
      some (serve trials commands served).2.store := by
  apply executeAll?_of_perform
  intro hrefused
  rw [serve] at h
  dsimp only at h
  split at h
  · cases h
  · exact accepted_of_judge h _ (List.mem_map.2 ⟨none, hrefused, rfl⟩)

section Attempts

variable {trials : Nat → Trial} {commands : List Command} {served after : Served}

theorem recounts_serve (hclock : ∀ {i j}, i ≤ j → (trials i).moment ≤ (trials j).moment)
    {first last : Nat} (hfirst : first ≤ served.history.length)
    (hlast : served.history.length ≤ last) :
    ∃ deeds, (serve trials commands served).2.history = served.history ++ [deeds] ∧
      Recounts (trials first).moment (trials last).moment commands served.store deeds
        (serve trials commands served).2.store :=
  ⟨_, rfl, recounts_perform (hclock hfirst) (hclock hlast) (fun _ hmem => hmem) _ _⟩

/-- Attempts that failed, each with some deeds, and a last one that carried out everything. -/
def ComesThrough (trials : Nat → Trial) (commands : List Command) (first : Nat)
    (served after : Served) : Prop :=
  ∃ (failed : List (List Deed)) (before : Store) (final : List Deed),
    after.history = served.history ++ failed ++ [final] ∧
    Recounts (trials first).moment (trials (after.history.length - 1)).moment commands served.store
      failed.flatten before ∧
    before.executeAll? (trials (after.history.length - 1)).moment commands = some after.store

theorem comesThrough_of_done {first : Nat}
    (h : judge commands (serve trials commands served).1 = .done) :
    ComesThrough trials commands first served (serve trials commands served).2 := by
  have hlast : (serve trials commands served).2.history.length - 1 = served.history.length :=
    Nat.sub_eq_of_eq_add (List.length_append ..)
  refine ⟨[], served.store, _, by rw [List.append_nil]; rfl, ⟨fun _ _ => rfl, nofun⟩, ?_⟩
  rw [hlast]
  exact executeAll?_of_judge h

theorem ComesThrough.behind (hclock : ∀ {i j}, i ≤ j → (trials i).moment ≤ (trials j).moment)
    {first : Nat} (hfirst : first ≤ served.history.length)
    (h : ComesThrough trials commands first (serve trials commands served).2 after) :
    ComesThrough trials commands first served after := by
  obtain ⟨failed, before, final, hhistory, hrecounts, hexecuted⟩ := h
  have hlast : served.history.length ≤ after.history.length - 1 := by
    have hserved : (serve trials commands served).2.history.length = served.history.length + 1 :=
      List.length_append
    rw [hhistory, List.length_append, List.length_append, hserved, List.length_singleton]
    omega
  obtain ⟨deeds, hserved, hdeeds⟩ := @recounts_serve trials commands served hclock _ _ hfirst hlast
  refine ⟨deeds :: failed, before, final, ?_, ?_, hexecuted⟩
  · rw [hhistory, hserved, List.append_assoc served.history]
    rfl
  · rw [List.flatten_cons]
    exact hdeeds.append hrecounts

theorem comesThrough_of_attempt
    (hclock : ∀ {i j}, i ≤ j → (trials i).moment ≤ (trials j).moment) {retries first : Nat}
    (hfirst : first ≤ served.history.length)
    (h : attempt (serve trials) commands retries served = (.done, after)) :
    ComesThrough trials commands first served after := by
  induction retries generalizing served with
  | zero =>
      change (judge commands (serve trials commands served).1, (serve trials commands served).2) =
        (.done, after) at h
      obtain ⟨hjudged, rfl⟩ := Prod.mk.inj h
      exact comesThrough_of_done hjudged
  | succ retries ih =>
      rw [attempt, bind_apply] at h
      cases hjudged : judge commands (serve trials commands served).1 with
      | done =>
          rw [hjudged] at h
          obtain ⟨_, rfl⟩ := Prod.mk.inj h
          exact comesThrough_of_done hjudged
      | died =>
          rw [hjudged] at h
          cases (Prod.mk.inj h).1
      | failed error =>
          rw [hjudged] at h
          have hlater : first ≤ (serve trials commands served).2.history.length :=
            Nat.le_trans hfirst ((List.length_append ..).symm ▸ Nat.le_add_right _ _)
          exact (ih hlater h).behind hclock hfirst

end Attempts

/-! ### The whole store -/

/-- A store that a batch was tried at, compared to one at which its commands were carried out once.
A list has what failed attempts have pushed to it as well, behind what the batch itself puts in front
of it. Other databases than that of the batch have what the failed attempts have made of them. -/
structure Repeats (options : Options) (database : Nat) (batch : List Record) (failed : List Deed)
    (once after : Store) : Prop where
  selected : after.selected = once.selected
  here : ∀ name, after.slots database name = once.slots database name ∨
    Gains (Command.front (keyCommands options batch name))
      (Command.front (Deed.commandsFor database name failed)) (once.slots database name)
      (after.slots database name)
  elsewhere : ∀ other ≠ database, ∀ name,
    Deed.effects? (failed.filter (Deed.touches other name)) (once.slots other name) =
      some (after.slots other name)

/-- Where nothing was pushed, and nothing was done in another database, it is the same store. -/
theorem Repeats.eq {options : Options} {database : Nat} {batch : List Record} {failed : List Deed}
    {once after : Store} (h : Repeats options database batch failed once after)
    (hdeeds : ∀ deed ∈ failed, ∀ other name, deed.touches other name = true →
      other = database ∧ deed.command.pushed = []) : after = once := by
  obtain ⟨hselected, hhere, helsewhere⟩ := h
  have hslots : after.slots = once.slots := by
    funext other name
    by_cases hother : other = database
    · subst hother
      have hpushed : Command.front (Deed.commandsFor other name failed) = [] := by
        rw [Command.front, Deed.commandsFor, List.flatMap_map, List.reverse_eq_nil_iff,
          List.flatMap_eq_nil_iff]
        intro deed hmem
        obtain ⟨hdeed, htouches⟩ := List.mem_filter.1 hmem
        exact (hdeeds deed hdeed other name htouches).2
      rcases hhere name with hsame | hgains
      · exact hsame
      · rw [hpushed] at hgains
        cases hgains with
        | same _ hsame => exact hsame
        | longer honce hafter => exact hafter.trans honce.symm
    · have hnone : failed.filter (Deed.touches other name) = [] :=
        List.filter_eq_nil_iff.2 fun deed hmem htouches =>
          hother (hdeeds deed hmem other name htouches).1
      have hslot := helsewhere other hother name
      rw [hnone] at hslot
      exact (Option.some.inj hslot).symm
  cases after
  cases once
  cases hselected
  cases hslots
  rfl

section Batches

variable {options : Options} {database : Nat} {batch : List Record} {now : Int} {store after : Store}

theorem slots_writeCommands (options : Options) (database : Nat) (batch : List Record)
    (now : Int) (store : Store) :
    let once := store.executeEach now (writeCommands options database batch)
    once.selected = database ∧
      (∀ other ≠ database, ∀ name, once.slots other name = store.slots other name) ∧
      ∀ name, once.slots database name =
        Command.effects now (keyCommands options batch name) (store.slots database name) := by
  rw [writeCommands_eq, executeEach, Parcel.writes, List.foldl_cons, ← select, execute?_select]
  exact slots_executeEach (fun _ => @Fate.isSelection_of_mem options .written batch _)
    { store with selected := database }

/-- A deed of a batch for a key was a command of the batch for the key. -/
theorem mem_keyCommands_of_touches {deed : Deed} {name : Bytes}
    (hmem : deed.command ∈ writeCommands options database batch)
    (htouches : deed.touches database name = true) :
    deed.command ∈ keyCommands options batch name := by
  simp only [Deed.touches, Bool.and_eq_true, decide_eq_true_eq, Bool.not_eq_true'] at htouches
  obtain ⟨⟨_, hkeyed⟩, hkey⟩ := htouches
  rw [writeCommands_eq] at hmem
  refine List.mem_filter.2 ⟨?_, decide_eq_true hkey⟩
  refine (List.mem_cons.1 hmem).resolve_left fun hselection => ?_
  rw [hselection] at hkeyed
  cases hkeyed

/-- All commands behind a history of deeds, compared to all commands at the first store. -/
theorem repeats_of_recounts {first : Int} {failed : List Deed} {before : Store}
    (hrecounts : Recounts first now (writeCommands options database batch) store failed before)
    (hsteady : ∀ deed ∈ failed, ∀ name, deed.touches database name = true →
      IsSteady first now (store.slots database name))
    (h : before.executeAll? now (writeCommands options database batch) = some after) :
    Repeats options database batch failed
      (store.executeEach now (writeCommands options database batch)) after := by
  rw [writeCommands_eq] at h
  obtain ⟨hselected, hothers, hnames⟩ :=
    @slots_pipeline options ⟨database, batch⟩ .written now before after h
  obtain ⟨honceSelected, honceOthers, honceNames⟩ :=
    slots_writeCommands options database batch now store
  refine ⟨hselected.trans honceSelected.symm, fun name => ?_, fun other hother name => ?_⟩
  · have hdeeds : ∀ deed ∈ failed.filter (Deed.touches database name),
        deed.command ∈ keyCommands options batch name ∧
          first ≤ deed.moment ∧ deed.moment ≤ now := by
      intro deed hmem
      obtain ⟨hdeed, htouches⟩ := List.mem_filter.1 hmem
      obtain ⟨hcommand, hrange⟩ := hrecounts.within deed hdeed
      exact ⟨mem_keyCommands_of_touches hcommand htouches, hrange⟩
    have hkept : failed.filter (Deed.touches database name) ≠ [] →
        IsSteady first now (store.slots database name) := by
      intro hsome
      obtain ⟨deed, hmem⟩ := List.exists_mem_of_ne_nil _ hsome
      obtain ⟨hdeed, htouches⟩ := List.mem_filter.1 hmem
      exact hsteady deed hdeed name htouches
    rw [honceNames name]
    exact gains_of_deeds hdeeds hkept (hrecounts.slots database name) (hnames name)
  · rw [honceOthers other hother name, hothers other hother]
    exact hrecounts.slots other name

end Batches

/-- **Retries.** A batch that is through after failed attempts leaves what it would have left by being
carried out once, but for what was pushed to lists and what went to another database before. A key that
lapses after a failed attempt has written to it would be made anew by the next one, and so the keys of
which this is said stay or have lapsed throughout; at a clock that stands still they always do. -/
theorem attempt_repeats {options : Options} {database : Nat} {batch : List Record}
    {trials : Nat → Trial} {retries : Nat} {store : Store} {after : Served}
    (hclock : ∀ {i j}, i ≤ j → (trials i).moment ≤ (trials j).moment)
    (hsteady : ∀ deed ∈ after.history.dropLast.flatten, ∀ name, deed.touches database name = true →
      IsSteady (trials 0).moment (trials (after.history.length - 1)).moment
        (store.slots database name))
    (h : attempt (serve trials) (writeCommands options database batch) retries ⟨store, []⟩ =
      (.done, after)) :
    let once := store.executeEach (trials (after.history.length - 1)).moment
      (writeCommands options database batch)
    Repeats options database batch after.history.dropLast.flatten once after.store ∧
      ((∀ deed ∈ after.history.dropLast.flatten, ∀ other name, deed.touches other name = true →
        other = database ∧ deed.command.pushed = []) → after.store = once) := by
  obtain ⟨failed, before, final, hhistory, hrecounts, hexecuted⟩ :=
    comesThrough_of_attempt hclock (Nat.le_refl 0) h
  have hfailed : after.history.dropLast = failed := by
    rw [hhistory, List.nil_append, List.dropLast_concat]
  rw [hfailed] at hsteady ⊢
  have hrepeats := repeats_of_recounts hrecounts hsteady hexecuted
  exact ⟨hrepeats, hrepeats.eq⟩

/-- The third command of the first attempt is lost. -/
def losingThird (attempt : Nat) : Trial :=
  ⟨0, fun place => attempt != 0 || place != 2, false⟩

theorem attempt_repeats_set :
    ∃ after, attempt (serve losingThird)
        (writeCommands {} 0
          [.keyed ⟨[107], 0⟩ (.set [[97], [98]]), .keyed ⟨[115], 0⟩ (.string [118])])
        1 ⟨.empty, []⟩ = (.done, after) ∧
      after.history.length = 2 ∧
      after.store = Store.empty.executeEach 0 (writeCommands {} 0
        [.keyed ⟨[107], 0⟩ (.set [[97], [98]]), .keyed ⟨[115], 0⟩ (.string [118])]) := by
  let batch : List Record :=
    [.keyed ⟨[107], 0⟩ (.set [[97], [98]]), .keyed ⟨[115], 0⟩ (.string [118])]
  let answer := attempt (serve losingThird) (writeCommands {} 0 batch) 1 ⟨.empty, []⟩
  have hdone : answer.1.isDone = true := by decide +kernel
  have hlength : answer.2.history.length = 2 := by decide +kernel
  have hdeeds : (answer.2.history.dropLast.flatten.all fun deed =>
      deed.database = 0 && deed.command.pushed = []) = true := by
    decide +kernel
  have hanswer : answer = (.done, answer.2) := Prod.ext (Delivered.eq_done hdone) rfl
  have hsteady : ∀ deed ∈ answer.2.history.dropLast.flatten, ∀ name,
      deed.touches 0 name = true → IsSteady 0 0 (Store.empty.slots 0 name) :=
    fun _ _ _ _ => isSteady_self 0 _
  obtain ⟨_, hequal⟩ := @attempt_repeats {} 0 batch losingThird 1 .empty answer.2
    (fun _ => Int.le_refl 0) hsteady hanswer
  refine ⟨answer.2, hanswer, hlength, hequal fun deed hmem other name htouches => ?_⟩
  have hdeed := List.all_eq_true.1 hdeeds deed hmem
  simp only [Deed.touches, Bool.and_eq_true, decide_eq_true_eq] at hdeed htouches
  exact ⟨htouches.1.1.symm.trans hdeed.1, hdeed.2⟩

/-- The list is there before the string is lost, and again before it is written. -/
theorem attempt_pushes_twice :
    ∃ after, attempt (serve losingThird)
        (writeCommands {} 0 [.keyed ⟨[107], 0⟩ (.list [[97]]), .keyed ⟨[115], 0⟩ (.string [118])])
        1 ⟨.empty, []⟩ = (.done, after) ∧
      (after.store.slots 0 [107]).bind Slot.elements? = some [[97], [97]] ∧
      after.store ≠ Store.empty.executeEach 0 (writeCommands {} 0
        [.keyed ⟨[107], 0⟩ (.list [[97]]), .keyed ⟨[115], 0⟩ (.string [118])]) := by
  let batch : List Record := [.keyed ⟨[107], 0⟩ (.list [[97]]), .keyed ⟨[115], 0⟩ (.string [118])]
  let answer := attempt (serve losingThird) (writeCommands {} 0 batch) 1 ⟨.empty, []⟩
  have hdone : answer.1.isDone = true := by decide +kernel
  have htwice : (answer.2.store.slots 0 [107]).bind Slot.elements? = some [[97], [97]] := by
    decide +kernel
  have honce : ((Store.empty.executeEach 0 (writeCommands {} 0 batch)).slots 0 [107]).bind
      Slot.elements? = some [[97]] := by
    decide +kernel
  have hanswer : answer = (.done, answer.2) := Prod.ext (Delivered.eq_done hdone) rfl
  refine ⟨answer.2, hanswer, htwice, fun hsame => ?_⟩
  rw [hsame, honce] at htwice
  cases htwice

end RedisSnapshot.Load
