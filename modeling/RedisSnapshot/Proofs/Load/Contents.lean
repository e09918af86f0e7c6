import Mathlib.Data.List.Induction
import RedisSnapshot.Proofs.Load.Solo
import RedisSnapshot.Proofs.Store.Rebuilt

/-!
# What a load leaves at its destination

Behind a destination there may be a store. It carries out a pipeline that succeeds, at the moment
that the clock then shows, and a pipeline that fails changes nothing in it. What is sent for a
parcel are failures and in the end one pipeline that succeeds, which either writes the records of
the parcel or deletes their keys; this fate of the parcels is all that the store knows of them.
-/

namespace RedisSnapshot.Load

namespace Destination

def carriesOut (destination : Destination) (log : List Pipeline) (pipeline : Pipeline) : Bool :=
  match judge pipeline.commands (destination log pipeline.worker pipeline.commands) with
  | .done => true
  | .failed _ | .died => false

/-- What a store has come to behind a log that was continued. -/
def contentsOnto (clock : Nat → Int) (destination : Destination) (before : List Pipeline)
    (store : Store) : List Pipeline → Store
  | [] => store
  | pipeline :: log =>
      let after :=
        if destination.carriesOut before pipeline then
          (store.executeAll? (clock before.length) pipeline.commands).getD store
        else store
      contentsOnto clock destination (before ++ [pipeline]) after log

/-- What is in a store that was empty when the load began. -/
def contents (clock : Nat → Int) (destination : Destination) (log : List Pipeline) : Store :=
  contentsOnto clock destination [] .empty log

/-- A pipeline does not succeed if the store refuses one of its commands. -/
def Serves (clock : Nat → Int) (destination : Destination) : Prop :=
  ∀ log pipeline, destination.carriesOut log pipeline = true →
    ((contents clock destination log).executeAll? (clock log.length) pipeline.commands).isSome = true

/-- A clock whose moments follow one another. -/
def NeverGoesBack (clock : Nat → Int) : Prop :=
  ∀ {first last : Nat}, first ≤ last → clock first ≤ clock last

/-- What is sent in vain. -/
inductive Fails (destination : Destination) : List Pipeline → List Pipeline → Prop where
  | refl (log : List Pipeline) : Fails destination log log
  | snoc {before between : List Pipeline} {pipeline : Pipeline}
      (earlier : Fails destination before between)
      (hfailed : destination.carriesOut between pipeline = false) :
      Fails destination before (between ++ [pipeline])

theorem Fails.trans {destination : Destination} {before between after : List Pipeline}
    (hfirst : Fails destination before between) (hlast : Fails destination between after) :
    Fails destination before after := by
  induction hlast with
  | refl => exact hfirst
  | snoc _ hfailed ih => exact .snoc ih hfailed

section Contents

variable {clock : Nat → Int} {destination : Destination} {before after : List Pipeline}

theorem contentsOnto_append (store : Store) (front back : List Pipeline) :
    contentsOnto clock destination before store (front ++ back) =
      contentsOnto clock destination (before ++ front)
        (contentsOnto clock destination before store front) back := by
  induction front generalizing before store with
  | nil => rw [List.nil_append, List.append_nil, contentsOnto]
  | cons pipeline front ih =>
      rw [List.cons_append, contentsOnto, contentsOnto, ih, List.append_assoc]
      rfl

theorem contents_snoc (log : List Pipeline) (pipeline : Pipeline) :
    contents clock destination (log ++ [pipeline]) =
      if destination.carriesOut log pipeline then
        ((contents clock destination log).executeAll? (clock log.length) pipeline.commands).getD
          (contents clock destination log)
      else contents clock destination log := by
  rw [contents, contentsOnto_append]
  rfl

theorem executeAll?_contents (hserves : destination.Serves clock) {log : List Pipeline}
    {pipeline : Pipeline} (h : destination.carriesOut log pipeline = true) :
    (contents clock destination log).executeAll? (clock log.length) pipeline.commands =
      some (contents clock destination (log ++ [pipeline])) := by
  obtain ⟨after, hafter⟩ := Option.isSome_iff_exists.1 (hserves log pipeline h)
  rw [contents_snoc, if_pos h, hafter]
  rfl

theorem Fails.contents_eq (h : Fails destination before after) :
    contents clock destination after = contents clock destination before := by
  induction h with
  | refl => rfl
  | snoc _ hfailed ih => rw [contents_snoc, hfailed, if_neg Bool.false_ne_true, ih]

theorem Fails.length_le (h : Fails destination before after) : before.length ≤ after.length := by
  induction h with
  | refl => exact Nat.le_refl _
  | snoc _ _ ih =>
      rw [List.length_append]
      exact Nat.le_add_right_of_le ih

end Contents

/-! ### A store behind a connection that may break -/

/-- What a store has come to behind a log that was continued, if it was told all pipelines but those
before which the connection broke. -/
def storedOnto (clock : Nat → Int) (isBroken : List Pipeline → Bool) (before : List Pipeline)
    (store : Store) : List Pipeline → Store
  | [] => store
  | pipeline :: log =>
      let after :=
        if isBroken before then store
        else (store.executeAll? (clock before.length) pipeline.commands).getD store
      storedOnto clock isBroken (before ++ [pipeline]) after log

/-- A store that answers with an error if it refuses something, and not at all if the connection is
broken. -/
def storing (clock : Nat → Int) (isBroken : List Pipeline → Bool) : Destination :=
  fun log _ commands =>
    if isBroken log then .failed (.io .deadline)
    else
      match (storedOnto clock isBroken [] .empty log).executeAll? (clock log.length) commands with
      | some _ => .answered (commands.map fun _ => .simple [79, 75])
      | none => .answered (commands.map fun _ => .error [69, 82, 82])

section Storing

variable {clock : Nat → Int} {isBroken : List Pipeline → Bool}

theorem storedOnto_append (before : List Pipeline) (store : Store) (front back : List Pipeline) :
    storedOnto clock isBroken before store (front ++ back) =
      storedOnto clock isBroken (before ++ front)
        (storedOnto clock isBroken before store front) back := by
  induction front generalizing before store with
  | nil => rw [List.nil_append, List.append_nil, storedOnto]
  | cons pipeline front ih =>
      rw [List.cons_append, storedOnto, storedOnto, ih, List.append_assoc]
      rfl

theorem carriesOut_storing (log : List Pipeline) (pipeline : Pipeline) :
    (storing clock isBroken).carriesOut log pipeline =
      (!isBroken log && ((storedOnto clock isBroken [] .empty log).executeAll? (clock log.length)
        pipeline.commands).isSome) := by
  unfold carriesOut storing
  cases isBroken log with
  | true => rfl
  | false =>
      cases hexecuted : (storedOnto clock isBroken [] .empty log).executeAll? (clock log.length)
          pipeline.commands with
      | some after =>
          have hagreed := agreeing_succeeds log pipeline.worker pipeline.commands
          rw [agreeing] at hagreed
          simp only [Bool.false_eq_true, ↓reduceIte, hagreed]
          rfl
      | none =>
          cases hcommands : pipeline.commands with
          | nil =>
              rw [hcommands] at hexecuted
              cases hexecuted
          | cons command commands =>
              have hlength : (List.map (fun _ => Reply.error [69, 82, 82])
                  (command :: commands)).length = (command :: commands).length := List.length_map _
              simp only [Bool.false_eq_true, ↓reduceIte, judge, hlength]
              rfl

theorem contents_storing (log : List Pipeline) :
    contents clock (storing clock isBroken) log = storedOnto clock isBroken [] .empty log := by
  induction log using List.reverseRecOn with
  | nil => rfl
  | append_singleton log pipeline ih =>
      rw [contents_snoc, ih, carriesOut_storing, storedOnto_append, List.nil_append, storedOnto,
        storedOnto]
      cases isBroken log with
      | true => rfl
      | false =>
          cases (storedOnto clock isBroken [] .empty log).executeAll? (clock log.length)
            pipeline.commands <;> rfl

/-- A store may be served by any connection. -/
theorem serves_storing (clock : Nat → Int) (isBroken : List Pipeline → Bool) :
    (storing clock isBroken).Serves clock := by
  intro log pipeline h
  rw [carriesOut_storing, Bool.and_eq_true] at h
  rw [contents_storing]
  exact h.2

end Storing

end Destination

/-- The pipeline that got a parcel over: its keys were written or deleted. -/
inductive Fate where
  | written
  | deleted

def Fate.pipeline (options : Options) (parcel : Parcel) : Fate → Pipeline
  | written => ⟨0, parcel.writes options⟩
  | deleted => ⟨0, parcel.deletions⟩

/-- The parcels with their fates, and what was sent for them. -/
inductive Fares (options : Options) (destination : Destination) :
    List (Parcel × Fate) → List Pipeline → Prop where
  | nil : Fares options destination [] []
  | snoc {sent : List (Parcel × Fate)} {parcel : Parcel} {fate : Fate}
      {before between : List Pipeline} (earlier : Fares options destination sent before)
      (tries : destination.Fails before between)
      (last : destination.carriesOut between (fate.pipeline options parcel) = true)
      (hfate : options.deleteOnly = true → fate = .deleted) :
      Fares options destination (sent ++ [(parcel, fate)]) (between ++ [fate.pipeline options parcel])

section Delivery

variable {options : Options} {destination : Destination} {before after : List Pipeline}

/-- All attempts but the last have failed. -/
theorem attempt_outcome {number : Nat} {commands : List Command} {retries : Nat}
    {delivered : Delivered}
    (h : attempt (destination.send number) commands retries before = (delivered, after)) :
    match delivered with
    | .done => ∃ between, destination.Fails before between ∧
        destination.carriesOut between ⟨number, commands⟩ = true ∧
          after = between ++ [⟨number, commands⟩]
    | .failed _ | .died => destination.Fails before after := by
  induction retries generalizing before with
  | zero =>
      change (judge commands (destination before number commands), _) = _ at h
      cases hjudged : judge commands (destination before number commands) with
      | done =>
          rw [hjudged] at h
          cases h
          exact ⟨before, .refl before, by rw [Destination.carriesOut, hjudged], rfl⟩
      | failed _ | died =>
          rw [hjudged] at h
          cases h
          exact .snoc (.refl before) (by rw [Destination.carriesOut, hjudged])
  | succ retries ih =>
      rw [attempt, bind_apply, Destination.send] at h
      cases hjudged : judge commands (destination before number commands) with
      | done =>
          rw [hjudged] at h
          cases h
          exact ⟨before, .refl before, by rw [Destination.carriesOut, hjudged], rfl⟩
      | died =>
          rw [hjudged] at h
          cases h
          exact .snoc (.refl before) (by rw [Destination.carriesOut, hjudged])
      | failed error =>
          rw [hjudged] at h
          have hfirst : destination.Fails before (before ++ [⟨number, commands⟩]) :=
            .snoc (.refl before) (by rw [Destination.carriesOut, hjudged])
          have hrest := ih h
          cases delivered with
          | done =>
              obtain ⟨between, hfails, hlast, hafter⟩ := hrest
              exact ⟨between, hfirst.trans hfails, hlast, hafter⟩
          | failed _ | died => exact hfirst.trans hrest

theorem deliver_outcome {parcel : Parcel} (hrecords : parcel.records ≠ [])
    (h : deliver options (destination.send 0) parcel.database parcel.records before =
      (.done, after)) :
    ∃ (fate : Fate) (between : List Pipeline), destination.Fails before between ∧
      destination.carriesOut between (fate.pipeline options parcel) = true ∧
        (options.deleteOnly = true → fate = .deleted) ∧
          after = between ++ [fate.pipeline options parcel] := by
  rw [deliver, if_neg (fun hempty => hrecords (List.isEmpty_iff.1 hempty)), writeCommands_eq,
    deleteCommands_eq] at h
  split at h
  · obtain ⟨between, hfails, hlast, hafter⟩ := attempt_outcome h
    exact ⟨.deleted, between, hfails, hlast, fun _ => rfl, hafter⟩
  · rename_i hdelete
    rw [bind_apply] at h
    cases hwrites : attempt (destination.send 0) (parcel.writes options) options.retries before with
    | mk delivered tried =>
        rw [hwrites] at h
        cases delivered with
        | done =>
            cases h
            obtain ⟨between, hfails, hlast, hafter⟩ := attempt_outcome hwrites
            exact ⟨.written, between, hfails, hlast, fun honly => absurd honly hdelete, hafter⟩
        | died => cases h
        | failed error =>
            have htried : destination.Fails before tried := attempt_outcome hwrites
            obtain ⟨between, hfails, hlast, hafter⟩ := attempt_outcome h
            exact ⟨.deleted, between, htried.trans hfails, hlast, fun _ => rfl, hafter⟩

theorem fares_of_sends {parcels : List Parcel} {log : List Pipeline}
    (h : Sends options destination parcels log) :
    ∃ sent, sent.map Prod.fst = parcels ∧ Fares options destination sent log := by
  induction h with
  | nil => exact ⟨[], rfl, .nil⟩
  | @snoc _ parcel _ _ _ hrecords last ih =>
      obtain ⟨sent, rfl, hfares⟩ := ih
      obtain ⟨fate, between, htries, hlast, hfate, rfl⟩ := deliver_outcome hrecords last
      exact ⟨sent ++ [(parcel, fate)], List.map_append, .snoc hfares htries hlast hfate⟩

end Delivery

end RedisSnapshot.Load
