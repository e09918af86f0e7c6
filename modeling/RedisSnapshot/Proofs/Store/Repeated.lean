import RedisSnapshot.Proofs.Store.Grown

/-!
# Commands that are carried out again

The slot of a key behind commands some of which had been carried out before. If one of them makes the
key anew, then nothing is left of what there was. Otherwise all of them build the key up, and what has
been carried out before is absorbed command by command; only the elements pushed to a list stay.
-/

namespace RedisSnapshot

/-- What a slot comes to if commands that are refused are passed over. -/
def Command.effects (now : Int) (commands : List Command) (slot : Option Store.Slot) :
    Option Store.Slot :=
  commands.foldl (fun slot command => (command.effect? now slot).getD slot) slot

namespace Store

/-- The command leaves a slot that does not depend on what was there. -/
def Resets (now : Int) (command : Command) : Prop :=
  ∃ after, ∀ slot, command.effect? now slot = some after

/-- What is there lapses by the first moment or not before the last has passed. -/
def IsSteady (first last : Int) (slot : Option Slot) : Prop :=
  ∀ found ∈ slot, ∀ due ∈ found.expiry, due ≤ first ∨ last < due

/-- A time to expire that can be written, and is yet to come. -/
def Build.IsCurrent (now : Int) : Build → Prop
  | add _ _ => True
  | expire moment => (-(Word.count 63 : Int) ≤ moment ∧ moment < Word.count 63) ∧ now < moment

def Build.expiry (expiry : Option Int) : Build → Option Int
  | add _ _ => expiry
  | expire moment => some moment

/-- What a key has that is built from nothing if nothing is there. -/
def present (now : Int) (kind : Kind) (slot : Option Slot) : Slot :=
  (seen now slot).getD ⟨kind.fresh, none⟩

/-- A slot with more elements than another in front of what was there, if it has a list. -/
inductive Gains (front extra : List Bytes) (once after : Option Slot) : Prop where
  | same (h : extra = []) (hsame : after = once)
  | longer {old : List Bytes} {expiry : Option Int}
      (honce : once = some ⟨.list (front ++ old), expiry⟩)
      (hafter : after = some ⟨.list (front ++ (extra ++ old)), expiry⟩)

theorem Content.Gains.slot {front extra : List Bytes} {once after : Content}
    (h : once.Gains front extra after) (expiry : Option Int) :
    Store.Gains front extra (some ⟨once, expiry⟩) (some ⟨after, expiry⟩) := by
  cases h with
  | same h => exact .same h rfl
  | longer => exact .longer rfl rfl

theorem Gains.trans {front first second : List Bytes} {once between after : Option Slot}
    (hfirst : Gains front first once between) (hsecond : Gains front second between after) :
    Gains front (second ++ first) once after := by
  cases hfirst with
  | same h hsame =>
      rw [h, List.append_nil, ← hsame]
      exact hsecond
  | longer honce hbetween =>
      cases hsecond with
      | same h hsame =>
          rw [h, List.nil_append]
          exact .longer honce (hsame.trans hbetween)
      | longer hlonger hafter =>
          have hlists := hbetween.symm.trans hlonger
          simp only [Option.some.injEq, Slot.mk.injEq, Content.list.injEq,
            List.append_cancel_left_eq] at hlists
          obtain ⟨rfl, rfl⟩ := hlists
          rw [← List.append_assoc second] at hafter
          exact .longer honce hafter

section Effects

variable {now : Int} {name : Bytes} {slot after : Option Slot} {commands : List Command}

theorem effects_of_effects? (h : Command.effects? now commands slot = some after) :
    Command.effects now commands slot = after := by
  induction commands generalizing slot with
  | nil =>
      cases h
      rfl
  | cons command commands ih =>
      obtain ⟨between, hfirst, hrest⟩ := effects?_cons h
      rw [Command.effects, List.foldl_cons, hfirst]
      exact ih hrest

/-- Behind a command that makes the slot anew it does not matter where the commands began. -/
theorem effects_of_resets (hresets : ∃ command ∈ commands, Resets now command)
    (h : Command.effects? now commands slot = some after) (other : Option Slot) :
    Command.effects now commands other = after := by
  obtain ⟨command, hmem, made, hmade⟩ := hresets
  obtain ⟨front, back, rfl⟩ := List.append_of_mem hmem
  obtain ⟨between, _, hrest⟩ := effects?_append h
  obtain ⟨next, hnext, hback⟩ := effects?_cons hrest
  rw [hmade] at hnext
  cases hnext
  rw [Command.effects, List.foldl_append, List.foldl_cons, hmade]
  exact effects_of_effects? hback

theorem effect?_add (kind : Kind) (arguments : List Bytes) :
    ((Build.add kind arguments).command name).effect? now slot =
      ((Build.add kind arguments).grow? (present now kind slot).content).map fun content =>
        some { present now kind slot with content } := by
  rw [Build.command, effect?_named, Verb.act?, Build.grow?, present]
  split
  · rfl
  · rw [Option.bind_eq_bind]
    cases kind.grow? arguments ((seen now slot).getD ⟨kind.fresh, none⟩).content <;> rfl

theorem effect?_expire_current {moment : Int} (h : (Build.expire moment).IsCurrent now) :
    ((Build.expire moment).command name).effect? now slot =
      some ((seen now slot).map ({ · with expiry := some moment })) := by
  obtain ⟨⟨hlow, hhigh⟩, hlater⟩ := h
  rw [Build.command, effect?_expire_eq hlow hhigh, if_neg (Int.not_le.2 hlater)]

theorem current_present (now : Int) (kind : Kind) (slot : Option Slot) :
    ∀ due ∈ (present now kind slot).expiry, now < due := by
  cases hseen : seen now slot with
  | none =>
      rw [present, hseen]
      nofun
  | some found =>
      rw [present, hseen]
      exact (seen_some hseen).2

/-- Builds of a key that can be seen. -/
theorem effects?_seen {builds : List Build} {found : Slot}
    (hfound : ∀ due ∈ found.expiry, now < due) (hcurrent : ∀ build ∈ builds, build.IsCurrent now) :
    Command.effects? now (builds.map (Build.command name)) (some found) =
      (grownBy? builds found.content).map fun content =>
        some ⟨content, builds.foldl Build.expiry found.expiry⟩ := by
  induction builds generalizing found with
  | nil => rfl
  | cons build builds ih =>
      obtain ⟨hbuild, hbuilds⟩ := List.forall_mem_cons.1 hcurrent
      have hseen : seen now (some found) = some found := seen_of_current hfound
      rw [List.map_cons, Command.effects?, List.foldlM_cons, grownBy?, List.foldlM_cons,
        List.foldl_cons]
      cases build with
      | add kind arguments =>
          rw [effect?_add, present, hseen, Option.getD_some]
          cases hgrown : (Build.add kind arguments).grow? found.content with
          | none => rfl
          | some content => exact @ih { found with content } hfound hbuilds
      | expire moment =>
          have hlater : ∀ due ∈ some moment, now < due := by
            intro due hdue
            cases hdue
            exact hbuild.2
          rw [effect?_expire_current hbuild, hseen]
          exact @ih { found with expiry := some moment } hlater hbuilds

/-- Builds of any key, if the first of them adds elements to it. -/
theorem effects?_builds {kind : Kind} {arguments : List Bytes} {builds : List Build}
    (hcurrent : ∀ build ∈ .add kind arguments :: builds, build.IsCurrent now) :
    Command.effects? now ((.add kind arguments :: builds).map (Build.command name)) slot =
      (grownBy? (.add kind arguments :: builds) (present now kind slot).content).map fun content =>
        some ⟨content, builds.foldl Build.expiry (present now kind slot).expiry⟩ := by
  have hpresent := current_present now kind slot
  have hsame : present now kind (some (present now kind slot)) = present now kind slot := by
    rw [present, seen_of_current hpresent, Option.getD_some]
  refine Eq.trans ?_ (@effects?_seen now name _ _ hpresent hcurrent)
  rw [List.map_cons, Command.effects?, Command.effects?, List.foldlM_cons, List.foldlM_cons,
    effect?_add, effect?_add, hsame]

end Effects

def Content.kind? : Content → Option Kind
  | string _ => none
  | list _ => some .list
  | set _ => some .set
  | hash _ => some .hash
  | sortedSet _ => some .sortedSet
  | stream _ => some .stream

theorem kind?_grow {kind : Kind} {arguments : List Bytes} {content after : Content}
    (h : kind.grow? arguments content = some after) :
    content.kind? = some kind ∧ after.kind? = some kind := by
  cases kind with
  | list =>
      cases content <;> cases h
      exact ⟨rfl, rfl⟩
  | set =>
      cases content <;> cases h
      exact ⟨rfl, rfl⟩
  | hash =>
      cases content with
      | hash fields =>
          rw [Kind.grow?, Option.bind_eq_bind, Option.bind_eq_some_iff] at h
          obtain ⟨pairs, _, h⟩ := h
          cases h
          exact ⟨rfl, rfl⟩
      | string _ | list _ | set _ | sortedSet _ | stream _ => cases h
  | sortedSet =>
      cases content with
      | sortedSet scores =>
          rw [Kind.grow?, Option.bind_eq_bind, Option.bind_eq_some_iff] at h
          obtain ⟨pairs, _, h⟩ := h
          split at h <;> cases h
          exact ⟨rfl, rfl⟩
      | string _ | list _ | set _ | hash _ | stream _ => cases h
  | stream =>
      cases content with
      | stream entries =>
          obtain ⟨_, _, _, _, rfl⟩ := grow?_stream h
          exact ⟨rfl, rfl⟩
      | string _ | list _ | set _ | hash _ | sortedSet _ => cases h

theorem kind?_grownBy {kind : Kind} {arguments : List Bytes} {builds : List Build}
    {content after : Content} (h : grownBy? (.add kind arguments :: builds) content = some after) :
    content.kind? = some kind := by
  obtain ⟨between, hfirst, _⟩ := grownBy?_cons h
  exact (kind?_grow (Build.grow_of_add hfirst)).1

/-! ### What was carried out before -/

section Absorbed

variable {now : Int} {name : Bytes} {slot between after : Option Slot} {builds : List Build}

theorem foldl_expiry_of_mem {moment : Int} (hmem : .expire moment ∈ builds)
    (first second : Option Int) :
    builds.foldl Build.expiry first = builds.foldl Build.expiry second := by
  induction builds generalizing first second with
  | nil => cases hmem
  | cons build builds ih =>
      cases build with
      | expire due => rfl
      | add kind arguments => exact ih ((List.mem_cons.1 hmem).resolve_left nofun) first second

/-- A time to expire is set again by the same command. -/
theorem effects?_absorbs_expire {kind : Kind} {arguments : List Bytes} {moment : Int}
    (hcurrent : ∀ build ∈ .add kind arguments :: builds, build.IsCurrent now)
    (hmem : .expire moment ∈ .add kind arguments :: builds)
    (hfirst : ((Build.expire moment).command name).effect? now slot = some between) :
    Command.effects? now ((.add kind arguments :: builds).map (Build.command name)) between =
      Command.effects? now ((.add kind arguments :: builds).map (Build.command name)) slot := by
  have hbuild := hcurrent _ hmem
  rw [effect?_expire_current hbuild] at hfirst
  cases hfirst
  rw [effects?_builds hcurrent, effects?_builds hcurrent]
  cases hseen : seen now slot with
  | none =>
      rw [present, present, hseen]
      rfl
  | some found =>
      have hlater : ∀ due ∈ some moment, now < due := by
        intro due hdue
        cases hdue
        exact hbuild.2
      have hset : seen now (some { found with expiry := some moment }) =
          some { found with expiry := some moment } := seen_of_current hlater
      have hexpiry := foldl_expiry_of_mem ((List.mem_cons.1 hmem).resolve_left nofun)
        found.expiry (some moment)
      rw [present, present, hseen, Option.map_some, hset, Option.getD_some, Option.getD_some,
        hexpiry]

/-- What has been added before was added to a key of the kind that all of them build. -/
theorem effects?_absorbs_add {kind other : Kind} {arguments others : List Bytes}
    (hcurrent : ∀ build ∈ .add kind arguments :: builds, build.IsCurrent now)
    (hmem : .add other others ∈ .add kind arguments :: builds)
    (hfirst : ((Build.add other others).command name).effect? now slot = some between)
    (h : Command.effects? now ((.add kind arguments :: builds).map (Build.command name)) between =
      some after) :
    ∃ once, Command.effects? now ((.add kind arguments :: builds).map (Build.command name)) slot =
        some once ∧
      Gains (pushes (.add kind arguments :: builds)) (Build.add other others).pushed.reverse once
        after := by
  rw [effect?_add, Option.map_eq_some_iff] at hfirst
  obtain ⟨grown, hgrown, rfl⟩ := hfirst
  have hclosed := (@effects?_seen now name _ { present now other slot with content := grown }
    (current_present now other slot) hcurrent).symm.trans h
  obtain ⟨content, hcontent, rfl⟩ := Option.map_eq_some_iff.1 hclosed
  have hkind : other = kind := by
    have hbefore := (kind?_grow (Build.grow_of_add hgrown)).2
    rw [kind?_grownBy hcontent] at hbefore
    exact (Option.some.inj hbefore).symm
  subst hkind
  obtain ⟨once, honce, hgains⟩ := grownBy?_absorbs hmem hgrown hcontent
  refine ⟨_, ?_, hgains.slot (builds.foldl Build.expiry (present now other slot).expiry)⟩
  rw [effects?_builds hcurrent, honce]
  rfl

/-- One command of those that build a key, carried out before all of them. -/
theorem effects?_absorbs {kind : Kind} {arguments : List Bytes}
    (hcurrent : ∀ build ∈ .add kind arguments :: builds, build.IsCurrent now) {build : Build}
    (hmem : build ∈ .add kind arguments :: builds)
    (hfirst : (build.command name).effect? now slot = some between)
    (h : Command.effects? now ((.add kind arguments :: builds).map (Build.command name)) between =
      some after) :
    ∃ once, Command.effects? now ((.add kind arguments :: builds).map (Build.command name)) slot =
        some once ∧ Gains (pushes (.add kind arguments :: builds)) build.pushed.reverse once after := by
  cases build with
  | expire moment =>
      exact ⟨after, (effects?_absorbs_expire hcurrent hmem hfirst).symm.trans h, .same rfl rfl⟩
  | add other others => exact effects?_absorbs_add hcurrent hmem hfirst h

/-- **Nothing is built twice**, but for lists, of whatever was carried out before, in any order and
any number of times. -/
theorem effects?_absorbs_all (hcurrent : ∀ build ∈ builds, build.IsCurrent now)
    (hadds : ∀ first ∈ builds.head?, ∃ kind arguments, first = .add kind arguments)
    {history : List Build} (hhistory : ∀ build ∈ history, build ∈ builds)
    (hfirst : Command.effects? now (history.map (Build.command name)) slot = some between)
    (h : Command.effects? now (builds.map (Build.command name)) between = some after) :
    ∃ once, Command.effects? now (builds.map (Build.command name)) slot = some once ∧
      Gains (pushes builds) (pushes history) once after := by
  induction history generalizing slot with
  | nil =>
      cases hfirst
      exact ⟨after, h, .same rfl rfl⟩
  | cons build history ih =>
      obtain ⟨hbuild, hrest⟩ := List.forall_mem_cons.1 hhistory
      obtain ⟨next, hnext, hlater⟩ := effects?_cons hfirst
      obtain ⟨once, honce, hgains⟩ := ih hrest hlater
      cases builds with
      | nil => cases hbuild
      | cons first builds =>
          obtain ⟨kind, arguments, rfl⟩ := hadds first rfl
          obtain ⟨before, hbefore, hfewer⟩ := effects?_absorbs hcurrent hbuild hnext honce
          rw [pushes_cons build history]
          exact ⟨before, hbefore, hfewer.trans hgains⟩

end Absorbed

/-! ### Moments in between -/

section Moments

variable {first moment now : Int} {slot : Option Slot}

theorem isSteady_self (now : Int) (slot : Option Slot) : IsSteady now now slot :=
  fun _ _ due _ => (Int.lt_or_le now due).symm

theorem seen_of_steady (hfirst : first ≤ moment) (hnow : moment ≤ now)
    (hsteady : IsSteady first now slot) : seen moment slot = seen now slot := by
  cases slot with
  | none => rfl
  | some found =>
      cases hexpiry : found.expiry with
      | none =>
          have hnone : ∀ later : Int, ∀ due ∈ found.expiry, later < due := by
            intro later due hdue
            rw [hexpiry] at hdue
            cases hdue
          rw [seen_of_current (hnone moment), seen_of_current (hnone now)]
      | some due =>
          have hlater : ∀ {later : Int}, later < due → ∀ other ∈ found.expiry, later < other := by
            intro later hlt other hother
            rw [hexpiry] at hother
            cases hother
            exact hlt
          rcases hsteady found rfl due hexpiry with hpast | hcurrent
          · rw [seen_of_past hexpiry (by omega), seen_of_past hexpiry (by omega)]
          · rw [seen_of_current (hlater (by omega)), seen_of_current (hlater hcurrent)]

/-- A key that is being built does not change by itself between two moments. -/
theorem effect?_of_steady {name : Bytes} {build : Build} {after : Option Slot}
    (hfirst : first ≤ moment) (hnow : moment ≤ now) (hcurrent : build.IsCurrent now)
    (hsteady : IsSteady first now slot)
    (h : (build.command name).effect? moment slot = some after) :
    (build.command name).effect? now slot = some after ∧ IsSteady first now after := by
  have hseen := seen_of_steady hfirst hnow hsteady
  cases build with
  | add kind arguments =>
      have hpresent : present moment kind slot = present now kind slot := by
        rw [present, present, hseen]
      rw [effect?_add, hpresent] at h
      rw [effect?_add]
      refine ⟨h, ?_⟩
      rw [Option.map_eq_some_iff] at h
      obtain ⟨content, _, rfl⟩ := h
      intro found hfound due hdue
      cases hfound
      exact .inr (current_present now kind slot due hdue)
  | expire due =>
      obtain ⟨hrange, hlater⟩ := hcurrent
      rw [effect?_expire_current ⟨hrange, Int.lt_of_le_of_lt hnow hlater⟩, hseen] at h
      rw [effect?_expire_current ⟨hrange, hlater⟩]
      refine ⟨h, ?_⟩
      cases h
      intro found hfound other hother
      obtain ⟨earlier, _, rfl⟩ := Option.map_eq_some_iff.1 hfound
      cases hother
      exact .inr hlater

end Moments

end Store

end RedisSnapshot
