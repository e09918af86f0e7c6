import RedisSnapshot.Load.Batch
import RedisSnapshot.Proofs.IdMap
import RedisSnapshot.Proofs.Store.Rebuilt

/-!
# Adding elements a second time

The commands that build a value either add elements to it or give it a time to expire. Carrying out one
of them before all of them are carried out makes no difference to a set, a hash or a sorted set, which
have from every element only what was written of it last. It cannot happen to a stream, whose later
ids are above the earlier ones. A list has the elements twice.
-/

namespace RedisSnapshot.Store

/-- What a command does to a key that is being built. -/
inductive Build where
  | add (kind : Kind) (arguments : List Bytes)
  | expire (moment : Int)

namespace Build

def command (name : Bytes) : Build → Command
  | add kind arguments => .named (Verb.add kind).name (name :: arguments)
  | expire moment => Load.expire name moment

/-- What becomes of the content, unless the arguments are refused. -/
def grow? : Build → Content → Option Content
  | add kind arguments, content =>
      if arguments.isEmpty then none else kind.grow? arguments content
  | expire _, content => some content

/-- The elements that are put in front of a list. -/
def pushed : Build → List Bytes
  | add .list arguments => arguments
  | add .set _ | add .hash _ | add .sortedSet _ | add .stream _ | expire _ => []

end Build

def grownBy? (builds : List Build) (content : Content) : Option Content :=
  builds.foldlM (fun content build => build.grow? content) content

/-- What is in front of a list behind its builds, the last one first. -/
def pushes (builds : List Build) : List Bytes :=
  (builds.flatMap Build.pushed).reverse

theorem pushes_cons (build : Build) (builds : List Build) :
    pushes (build :: builds) = pushes builds ++ build.pushed.reverse := by
  rw [pushes, List.flatMap_cons, List.reverse_append, pushes]

theorem grownBy?_cons {build : Build} {builds : List Build} {content after : Content}
    (h : grownBy? (build :: builds) content = some after) :
    ∃ between, build.grow? content = some between ∧ grownBy? builds between = some after := by
  rw [grownBy?, List.foldlM_cons, Option.bind_eq_bind, Option.bind_eq_some_iff] at h
  exact h

theorem Build.grow_of_add {kind : Kind} {arguments : List Bytes} {content after : Content}
    (h : (Build.add kind arguments).grow? content = some after) :
    kind.grow? arguments content = some after := by
  rw [Build.grow?] at h
  split at h
  · cases h
  · exact h

/-! ### Values that have from every element what was written last -/

/-- What is written over what was there. -/
def overlay {α : Type} (patch : Bytes → Option α) (base : Bytes → α) : Bytes → α :=
  fun name => (patch name).getD (base name)

section Overlays

variable {α : Type} {wrap : (Bytes → α) → Content} {patch? : Build → Option (Bytes → Option α)}

/-- Contents are the same behind the builds if they differ only in what is yet to be written. -/
theorem grownBy?_congr
    (hwrap : ∀ build base, build.grow? (wrap base) =
      (patch? build).map fun patch => wrap (overlay patch base))
    {builds : List Build} {first second : Bytes → α}
    (h : ∀ name, first name = second name ∨
      ∃ build ∈ builds, ∃ patch, patch? build = some patch ∧ (patch name).isSome) :
    grownBy? builds (wrap first) = grownBy? builds (wrap second) := by
  induction builds generalizing first second with
  | nil =>
      have hsame : first = second := by
        funext name
        exact (h name).resolve_right fun ⟨_, hmem, _⟩ => List.not_mem_nil hmem
      rw [hsame]
  | cons build builds ih =>
      rw [grownBy?, grownBy?, List.foldlM_cons, List.foldlM_cons, hwrap, hwrap]
      cases hpatch : patch? build with
      | none => rfl
      | some patch =>
          refine ih fun name => ?_
          cases hwritten : patch name with
          | some value => exact .inl (by rw [overlay, overlay, hwritten]; rfl)
          | none =>
              rw [overlay, overlay, hwritten]
              refine (h name).imp_right ?_
              rintro ⟨other, hmem, found, hfound, hsome⟩
              rcases List.mem_cons.1 hmem with rfl | hmem
              · rw [hpatch] at hfound
                cases hfound
                rw [hwritten] at hsome
                cases hsome
              · exact ⟨other, hmem, found, hfound, hsome⟩

theorem grownBy?_overlay
    (hwrap : ∀ build base, build.grow? (wrap base) =
      (patch? build).map fun patch => wrap (overlay patch base))
    {builds : List Build} {build : Build} (hmem : build ∈ builds) {base : Bytes → α}
    {between : Content} (h : build.grow? (wrap base) = some between) :
    grownBy? builds between = grownBy? builds (wrap base) := by
  rw [hwrap, Option.map_eq_some_iff] at h
  obtain ⟨patch, hpatch, rfl⟩ := h
  refine grownBy?_congr hwrap fun name => ?_
  cases hwritten : patch name with
  | none => exact .inl (by rw [overlay, hwritten]; rfl)
  | some value => exact .inr ⟨build, hmem, patch, hpatch, by rw [hwritten]; rfl⟩

end Overlays

def memberPatch? : Build → Option (Bytes → Option Bool)
  | .add .set arguments =>
      if arguments.isEmpty then none
      else some fun member => if arguments.contains member then some true else none
  | .expire _ => some fun _ => none
  | .add _ _ => none

theorem grow?_set (build : Build) (members : Bytes → Bool) :
    build.grow? (.set members) =
      (memberPatch? build).map fun patch => .set (overlay patch members) := by
  cases build with
  | expire moment => rfl
  | add kind arguments =>
      rw [Build.grow?]
      cases kind with
      | set =>
          rw [memberPatch?]
          split
          · rfl
          · refine congrArg (some ∘ Content.set) (funext fun member => ?_)
            rw [overlay]
            cases arguments.contains member <;> rfl
      | list | hash | sortedSet | stream => split <;> rfl

def fieldPatch? : Build → Option (Bytes → Option (Option Bytes))
  | .add .hash arguments =>
      if arguments.isEmpty then none
      else (pairs? arguments).map fun pairs field => (latest? pairs field).map some
  | .expire _ => some fun _ => none
  | .add _ _ => none

theorem overlay_latest (pairs : List (Bytes × Bytes)) (base : Bytes → Option Bytes) :
    overlay (fun name => (latest? pairs name).map some) base =
      fun name => (latest? pairs name).or (base name) := by
  funext name
  rw [overlay]
  cases latest? pairs name <;> rfl

theorem grow?_hash (build : Build) (fields : Bytes → Option Bytes) :
    build.grow? (.hash fields) =
      (fieldPatch? build).map fun patch => .hash (overlay patch fields) := by
  cases build with
  | expire moment => rfl
  | add kind arguments =>
      rw [Build.grow?]
      cases kind with
      | hash =>
          rw [fieldPatch?, Kind.grow?]
          split
          · rfl
          · cases pairs? arguments with
            | none => rfl
            | some pairs => exact congrArg (some ∘ Content.hash) (overlay_latest pairs fields).symm
      | list | set | sortedSet | stream => split <;> rfl

def scorePatch? : Build → Option (Bytes → Option (Option Bytes))
  | .add .sortedSet arguments =>
      if arguments.isEmpty then none
      else (pairs? arguments).bind fun pairs =>
        if pairs.all fun pair => isScore pair.1 then
          some fun member => (latest? (pairs.map Prod.swap) member).map some
        else none
  | .expire _ => some fun _ => none
  | .add _ _ => none

theorem grow?_sortedSet (build : Build) (scores : Bytes → Option Bytes) :
    build.grow? (.sortedSet scores) =
      (scorePatch? build).map fun patch => .sortedSet (overlay patch scores) := by
  cases build with
  | expire moment => rfl
  | add kind arguments =>
      rw [Build.grow?]
      cases kind with
      | sortedSet =>
          rw [scorePatch?, Kind.grow?]
          split
          · rfl
          · cases pairs? arguments with
            | none => rfl
            | some pairs =>
                change (if _ then _ else _) = Option.map _ (if _ then _ else _)
                split
                · exact congrArg (some ∘ Content.sortedSet)
                    (overlay_latest (pairs.map Prod.swap) scores).symm
                · rfl
      | list | set | hash | stream => split <;> rfl

/-! ### Lists and streams -/

theorem grownBy?_list {builds : List Build} {elements : List Bytes} {after : Content}
    (h : grownBy? builds (.list elements) = some after) (others : List Bytes) :
    after = .list (pushes builds ++ elements) ∧
      grownBy? builds (.list others) = some (.list (pushes builds ++ others)) := by
  induction builds generalizing elements others with
  | nil =>
      cases h
      exact ⟨rfl, rfl⟩
  | cons build builds ih =>
      obtain ⟨between, hbetween, hrest⟩ := grownBy?_cons h
      have hgrow : between = .list (build.pushed.reverse ++ elements) ∧
          build.grow? (.list others) = some (.list (build.pushed.reverse ++ others)) := by
        cases build with
        | expire moment =>
            cases hbetween
            exact ⟨rfl, rfl⟩
        | add kind arguments =>
            rw [Build.grow?] at hbetween ⊢
            split at hbetween
            · cases hbetween
            · rename_i hfilled
              rw [if_neg hfilled]
              cases kind <;> cases hbetween
              exact ⟨rfl, rfl⟩
      obtain ⟨rfl, hother⟩ := hgrow
      obtain ⟨hafter, hothers⟩ := ih hrest (build.pushed.reverse ++ others)
      rw [pushes_cons, List.append_assoc, List.append_assoc]
      refine ⟨hafter, ?_⟩
      rw [grownBy?, List.foldlM_cons, hother]
      exact hothers

/-- The id that a new entry has to be above. -/
def lastId (entries : List (StreamId × List (Bytes × Bytes))) : StreamId :=
  (entries.getLast?.map Prod.fst).getD default

theorem grow?_stream {arguments : List Bytes} {entries : List (StreamId × List (Bytes × Bytes))}
    {after : Content} (h : Kind.stream.grow? arguments (.stream entries) = some after) :
    ∃ id pairs, StreamId.read? (arguments.headD []) = some id ∧ lastId entries < id ∧
      after = .stream (entries ++ [(id, pairs)]) := by
  rw [Kind.grow?, Option.bind_eq_bind, Option.bind_eq_some_iff] at h
  obtain ⟨id, hid, h⟩ := h
  rw [Option.bind_eq_bind, Option.bind_eq_some_iff] at h
  obtain ⟨pairs, _, h⟩ := h
  split at h
  · rename_i hnext
    cases h
    exact ⟨id, pairs, hid, hnext.2, rfl⟩
  · cases h

theorem lastId_append (entries : List (StreamId × List (Bytes × Bytes))) (id : StreamId)
    (pairs : List (Bytes × Bytes)) : lastId (entries ++ [(id, pairs)]) = id := by
  rw [lastId, List.getLast?_concat]
  rfl

/-- All entries that are added are above those that are there. -/
theorem lastId_lt {builds : List Build} {arguments : List Bytes}
    {entries : List (StreamId × List (Bytes × Bytes))} {after : Content}
    (h : grownBy? builds (.stream entries) = some after) (hmem : .add .stream arguments ∈ builds) :
    ∃ id, StreamId.read? (arguments.headD []) = some id ∧ lastId entries < id := by
  induction builds generalizing entries with
  | nil => cases hmem
  | cons build builds ih =>
      obtain ⟨between, hbetween, hrest⟩ := grownBy?_cons h
      cases build with
      | expire moment =>
          cases hbetween
          exact ih hrest ((List.mem_cons.1 hmem).resolve_left nofun)
      | add kind others =>
          have hgrow := Build.grow_of_add hbetween
          cases kind with
          | stream =>
              obtain ⟨id, pairs, hid, hlt, rfl⟩ := grow?_stream hgrow
              rcases List.mem_cons.1 hmem with hsame | hmem
              · cases hsame
                exact ⟨id, hid, hlt⟩
              · obtain ⟨later, hlater, habove⟩ := ih hrest hmem
                rw [lastId_append] at habove
                exact ⟨later, hlater, StreamId.lt_trans hlt habove⟩
          | list | set | hash | sortedSet => cases hgrow

/-! ### Once before all -/

/-- A content that has grown by more elements than another in front of what was there, if both are
lists, and is the same otherwise. -/
inductive Content.Gains (front extra : List Bytes) : Content → Content → Prop where
  | same {content : Content} (h : extra = []) : Gains front extra content content
  | longer {old : List Bytes} : Gains front extra (.list (front ++ old)) (.list (front ++ (extra ++ old)))

/-- What one build leaves to all of them is what all of them would have found without it, except for
the elements that it has pushed. -/
theorem grownBy?_absorbs {builds : List Build} {build : Build} (hmem : build ∈ builds)
    {content between after : Content} (hfirst : build.grow? content = some between)
    (h : grownBy? builds between = some after) :
    ∃ once, grownBy? builds content = some once ∧
      once.Gains (pushes builds) build.pushed.reverse after := by
  have hpatched : grownBy? builds between = grownBy? builds content → build.pushed = [] →
      ∃ once, grownBy? builds content = some once ∧
        once.Gains (pushes builds) build.pushed.reverse after := by
    intro hsame hpushed
    exact ⟨after, hsame ▸ h, .same (by rw [hpushed, List.reverse_nil])⟩
  cases build with
  | expire moment =>
      cases hfirst
      exact hpatched rfl rfl
  | add kind arguments =>
      have hgrow := Build.grow_of_add hfirst
      cases content with
      | string bytes => cases kind <;> cases hgrow
      | list elements =>
          cases kind <;> cases hgrow
          obtain ⟨rfl, honce⟩ := grownBy?_list h elements
          exact ⟨_, honce, .longer⟩
      | set members =>
          cases kind <;> cases hgrow
          exact hpatched (grownBy?_overlay grow?_set hmem hfirst) rfl
      | hash fields =>
          cases kind with
          | hash => exact hpatched (grownBy?_overlay grow?_hash hmem hfirst) rfl
          | list | set | sortedSet | stream => cases hgrow
      | sortedSet scores =>
          cases kind with
          | sortedSet => exact hpatched (grownBy?_overlay grow?_sortedSet hmem hfirst) rfl
          | list | set | hash | stream => cases hgrow
      | stream entries =>
          cases kind with
          | stream =>
              -- Its id would have to be above itself.
              obtain ⟨id, pairs, hid, _, rfl⟩ := grow?_stream hgrow
              obtain ⟨other, hother, hlt⟩ := lastId_lt h hmem
              rw [lastId_append] at hlt
              rw [hid] at hother
              cases hother
              exact absurd hlt (StreamId.lt_irrefl id)
          | list | set | hash | sortedSet => cases hgrow

end RedisSnapshot.Store
