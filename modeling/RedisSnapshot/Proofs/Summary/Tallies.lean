import Mathlib.Algebra.GroupWithZero.Nat
import Mathlib.Data.List.Nodup
import RedisSnapshot.Proofs.Scan.Taken
import RedisSnapshot.Summary

/-!
# What a summary has counted

A summary takes no more from a keyed record than the database it is in, its name and its value. Its
tallies account for these, each place for those of one database and one type: whatever else comes
in between, one more record of a key is one more entry of one tally, and of no other.
-/

namespace RedisSnapshot.Summary

/-- A value that has come up under a name in a database. -/
structure Occurrence where
  database : Nat
  name : Bytes
  value : Value

namespace Occurrence

def place (found : Occurrence) : Nat × String :=
  (found.database, found.value.typeName)

/-- How it is listed if it is big. -/
def big (found : Occurrence) : BigKey :=
  ⟨Text.lossy found.name, found.value.typeName, found.value.size, found.value.length⟩

end Occurrence

/-- The keyed records, each in the database of the last selector before it. -/
def occurrences (database : Nat) : List Record → List Occurrence
  | [] => []
  | .keyed key value :: records => ⟨database, key.name, value⟩ :: occurrences database records
  | .selectDb index :: records => occurrences index records
  | .resizeDb .. :: records | .aux .. :: records => occurrences database records

/-- A value is larger than the threshold of its type, or than that of all types if its type has none,
or has as many elements as its type asks for. A threshold of zero is none. -/
def Options.IsBig (options : Options) (value : Value) : Prop :=
  let own := (options.thresholds.lookup value.typeName).getD ⟨0, 0⟩
  (own.size ≠ 0 ∧ own.size < value.size) ∨
    (own.size = 0 ∧ options.bigSize ≠ 0 ∧ options.bigSize < value.size) ∨
    (own.length ≠ 0 ∧ own.length ≤ value.length)

instance (options : Options) (value : Value) : Decidable (options.IsBig value) :=
  inferInstanceAs (Decidable (_ ∨ _ ∨ _))

def Options.counts (options : Options) (value : Value) : Bool :=
  if options.findBig then options.IsBig value else options.countKeys

def counted (options : Options) (place : Nat × String) (found : List Occurrence) : List Occurrence :=
  found.filter fun occurrence => occurrence.place = place && options.counts occurrence.value

/-- The tally of everything that is counted. -/
def Tally.of (options : Options) (found : List Occurrence) : Tally where
  count := found.length
  size := (found.map fun occurrence => occurrence.value.size).sum
  big := if options.findBig then (found.map Occurrence.big).reverse else []

/-- The tally of a place, which is empty as long as nothing has been counted there. -/
def tallyAt (summary : Summary) (place : Nat × String) : Tally :=
  (summary.tallies.lookup place).getD .empty

/-- What is known behind a record. -/
def learn (options : Options) (summary : Summary) (record : Record) : Summary :=
  (summary.add options record).2

/-- Every place that something was counted for has its tally, and no place has two. -/
structure Accounts (options : Options) (found : List Occurrence) (summary : Summary) : Prop where
  tally : ∀ place, summary.tallyAt place = Tally.of options (counted options place found)
  place : ∀ place, place ∈ summary.tallies.map Prod.fst ↔ counted options place found ≠ []
  nodup : (summary.tallies.map Prod.fst).Nodup

/-- Neither the name of a key nor its expiry makes it big. -/
theorem Options.isBig_keyed (options : Options) (key : Key) (value : Value) :
    options.isBig (.keyed key value) = true ↔ options.IsBig value := by
  have htype : (Record.keyed key value).typeName = value.typeName := rfl
  have hsize : (Record.keyed key value).size = value.size := rfl
  have hlength : (Record.keyed key value).length = value.length := rfl
  rw [isBig, IsBig, threshold, htype, hsize, hlength]
  cases options.thresholds.lookup value.typeName with
  | none => simp [Nat.pos_iff_ne_zero]
  | some own =>
      by_cases hown : own.size = 0
      · simp [hown, Nat.pos_iff_ne_zero]
      · simp [hown, Nat.pos_iff_ne_zero]

/-! ### One entry more -/

section Places

variable {place : Nat × String} {size : Nat} {big : List BigKey}
  {tallies : List ((Nat × String) × Tally)}

theorem lookup_addTo_self : (addTo place size big tallies).lookup place =
    some ⟨((tallies.lookup place).getD .empty).count + 1,
      ((tallies.lookup place).getD .empty).size + size,
      big ++ ((tallies.lookup place).getD .empty).big⟩ := by
  induction tallies with
  | nil => simp [addTo, Tally.empty]
  | cons entry tallies ih =>
      obtain ⟨other, tally⟩ := entry
      rw [addTo]
      split
      · rename_i heq
        simp [heq]
      · rename_i hne
        have hkey : (place == other) = false := beq_eq_false_iff_ne.2 (Ne.symm hne)
        rw [List.lookup_cons, hkey, ih, List.lookup_cons, hkey]

theorem lookup_addTo_of_ne {other : Nat × String} (h : other ≠ place) :
    (addTo place size big tallies).lookup other = tallies.lookup other := by
  have hkey : (other == place) = false := beq_eq_false_iff_ne.2 h
  induction tallies with
  | nil => rw [addTo, List.lookup_cons, hkey]
  | cons entry tallies ih =>
      obtain ⟨first, tally⟩ := entry
      rw [addTo]
      split
      · rename_i heq
        rw [List.lookup_cons, List.lookup_cons, heq, hkey]
      · rw [List.lookup_cons, List.lookup_cons, ih]

theorem places_addTo : (addTo place size big tallies).map Prod.fst =
    if place ∈ tallies.map Prod.fst then tallies.map Prod.fst
    else tallies.map Prod.fst ++ [place] := by
  induction tallies with
  | nil => simp [addTo]
  | cons entry tallies ih =>
      obtain ⟨other, tally⟩ := entry
      rw [addTo]
      split
      · rename_i heq
        simp [heq]
      · rename_i hne
        rw [List.map_cons, ih, List.map_cons]
        simp only [List.mem_cons, Ne.symm hne, false_or]
        split <;> simp

end Places

/-! ### From one record to the next -/

section Records

variable {options : Options} {found : List Occurrence} {summary : Summary}

theorem counted_append (place : Nat × String) (front back : List Occurrence) :
    counted options place (front ++ back) =
      counted options place front ++ counted options place back :=
  List.filter_append ..

theorem Accounts.unchanged {other : Summary} (h : Accounts options found summary)
    (htallies : other.tallies = summary.tallies) : Accounts options found other := by
  obtain ⟨htally, hplace, hnodup⟩ := h
  refine ⟨fun place => ?_, fun place => ?_, ?_⟩
  · rw [tallyAt, htallies]
    exact htally place
  · rw [htallies]
    exact hplace place
  · rw [htallies]
    exact hnodup

/-- What is not counted changes nothing. -/
theorem Accounts.uncounted (h : Accounts options found summary) {occurrence : Occurrence}
    (hcounts : options.counts occurrence.value = false) :
    Accounts options (found ++ [occurrence]) summary := by
  have hsame : ∀ place, counted options place (found ++ [occurrence]) =
      counted options place found := by
    intro place
    rw [counted_append, counted, counted, List.filter_singleton, hcounts, Bool.and_false]
    exact List.append_nil _
  refine ⟨fun place => ?_, fun place => ?_, h.nodup⟩
  · rw [hsame]
    exact h.tally place
  · rw [hsame]
    exact h.place place

theorem Tally.of_append (front : List Occurrence) (last : Occurrence) :
    Tally.of options (front ++ [last]) =
      ⟨(Tally.of options front).count + 1, (Tally.of options front).size + last.value.size,
        (if options.findBig then [last.big] else []) ++ (Tally.of options front).big⟩ := by
  cases hbig : options.findBig <;> simp [Tally.of, hbig]

theorem Accounts.add (h : Accounts options found summary) {occurrence : Occurrence}
    {big : List BigKey} (hcounts : options.counts occurrence.value = true)
    (hbig : big = if options.findBig then [occurrence.big] else []) :
    Accounts options (found ++ [occurrence])
      { summary with
        tallies := addTo occurrence.place occurrence.value.size big summary.tallies } := by
  have hhere : counted options occurrence.place (found ++ [occurrence]) =
      counted options occurrence.place found ++ [occurrence] := by
    rw [counted_append]
    simp [counted, hcounts]
  have hother : ∀ {place}, place ≠ occurrence.place →
      counted options place (found ++ [occurrence]) = counted options place found := by
    intro place hne
    rw [counted_append]
    simp [counted, Ne.symm hne]
  refine ⟨fun place => ?_, fun place => ?_, ?_⟩
  · by_cases hplace : place = occurrence.place
    · subst hplace
      rw [hhere, Tally.of_append, ← h.tally, ← hbig, tallyAt, lookup_addTo_self]
      rfl
    · rw [hother hplace, ← h.tally, tallyAt, lookup_addTo_of_ne hplace]
      rfl
  · rw [places_addTo]
    by_cases hplace : place = occurrence.place
    · subst hplace
      rw [hhere]
      split <;> simp_all
    · rw [hother hplace, ← h.place]
      split <;> simp [hplace]
  · rw [places_addTo]
    split
    · exact h.nodup
    · rename_i hnew
      rw [← List.concat_eq_append]
      exact h.nodup.concat hnew

theorem Accounts.learn_keyed (h : Accounts options found summary) (key : Key) (value : Value) :
    Accounts options (found ++ [⟨summary.database, key.name, value⟩])
      (learn options summary (.keyed key value)) := by
  change Accounts options _ (summary.addKey options (.keyed key value))
  rw [addKey]
  split
  · rename_i hfind
    split
    · rename_i hbig
      refine @Accounts.add _ _ _ h ⟨summary.database, key.name, value⟩ _ ?_ ?_
      · rw [Options.counts, if_pos hfind]
        exact decide_eq_true ((options.isBig_keyed key value).1 hbig)
      · rw [if_pos hfind]
        rfl
    · rename_i hsmall
      refine h.uncounted ?_
      rw [Options.counts, if_pos hfind]
      exact decide_eq_false (mt (options.isBig_keyed key value).2 hsmall)
  · rename_i hfind
    split
    · rename_i hcount
      refine @Accounts.add _ _ _ h ⟨summary.database, key.name, value⟩ _ ?_ ?_
      · rw [Options.counts, if_neg hfind, hcount]
      · rw [if_neg hfind]
    · rename_i hcount
      refine h.uncounted ?_
      rw [Options.counts, if_neg hfind]
      exact eq_false_of_ne_true hcount

/-- What the server says of itself changes no tally. -/
theorem learn_aux (summary : Summary) (field value : Bytes) :
    (learn options summary (.aux field value)).tallies = summary.tallies ∧
      (learn options summary (.aux field value)).database = summary.database := by
  rw [learn, add]
  split
  · exact ⟨rfl, rfl⟩
  · split <;> exact ⟨rfl, rfl⟩

theorem database_learn_keyed (summary : Summary) (key : Key) (value : Value) :
    (learn options summary (.keyed key value)).database = summary.database := by
  change (summary.addKey options (.keyed key value)).database = _
  rw [addKey]
  split
  · split <;> rfl
  · split <;> rfl

/-- A key changes nothing but the tallies. -/
theorem exists_tallies_learn_keyed (options : Options) (summary : Summary) (key : Key)
    (value : Value) :
    ∃ tallies, learn options summary (.keyed key value) = { summary with tallies } := by
  change ∃ tallies, summary.addKey options (.keyed key value) = { summary with tallies }
  rw [addKey]
  split
  · split <;> exact ⟨_, rfl⟩
  · split <;> exact ⟨_, rfl⟩

/-- **Accounts.** Records of any kind, in any order, leave tallies that account for all of them. -/
theorem Accounts.foldl_learn (h : Accounts options found summary) (records : List Record) :
    Accounts options (found ++ occurrences summary.database records)
      (records.foldl (learn options) summary) := by
  induction records generalizing found summary with
  | nil =>
      rw [occurrences, List.append_nil]
      exact h
  | cons record records ih =>
      rw [List.foldl_cons]
      cases record with
      | keyed key value =>
          have hlater := ih (h.learn_keyed key value)
          rw [database_learn_keyed, List.append_assoc] at hlater
          exact hlater
      | selectDb index =>
          have hselected : Accounts options found (learn options summary (.selectDb index)) :=
            h.unchanged rfl
          exact ih hselected
      | resizeDb keys expiring => exact ih (h.unchanged rfl)
      | aux field value =>
          obtain ⟨htallies, hdatabase⟩ := @learn_aux options summary field value
          have hlater := ih (h.unchanged htallies)
          rw [hdatabase] at hlater
          exact hlater

theorem accounts_empty : Accounts options [] .empty := by
  refine ⟨fun place => ?_, fun place => ?_, List.nodup_nil⟩
  · cases hbig : options.findBig <;> simp [tallyAt, empty, Tally.of, Tally.empty, counted, hbig]
  · simp [empty, counted]

end Records

/-! ### Records that are taken -/

/-- The numbers that a server says about itself are numbers. -/
structure Server.Says (field value : Bytes) : Prop where
  bits : field = Text.bytes "redis-bits" → (Decimal.unsigned? (Word.count 32) value).isSome
  created : field = Text.bytes "ctime" → (Decimal.signed? 64 value).isSome
  usedMemory : field = Text.bytes "used-mem" → (Decimal.signed? 64 value).isSome

theorem Server.Says.exists_update {field value : Bytes} (h : Server.Says field value)
    (server : Server) : ∃ after, server.update field value = .ok after := by
  have hnumber : ∀ {α : Type} (name : String) {found : Option α}, found.isSome →
      ∃ number', number name value found = .ok number' := by
    intro α name found hfound
    obtain ⟨number', rfl⟩ := Option.isSome_iff_exists.1 hfound
    exact ⟨number', rfl⟩
  rw [Server.update]
  split
  · exact ⟨_, rfl⟩
  · split
    · rename_i hfield
      obtain ⟨bits, hbits⟩ := hnumber "redis-bits" (h.bits hfield)
      dsimp only
      rw [hbits]
      exact ⟨_, rfl⟩
    · split
      · rename_i hfield
        obtain ⟨created, hcreated⟩ := hnumber "ctime" (h.created hfield)
        rw [hcreated]
        exact ⟨_, rfl⟩
      · split
        · rename_i hfield
          obtain ⟨usedMemory, husedMemory⟩ := hnumber "used-mem" (h.usedMemory hfield)
          rw [husedMemory]
          exact ⟨_, rfl⟩
        · exact ⟨_, rfl⟩

/-- A record that a summary can make sense of. -/
def IsTakeable : Record → Prop
  | .aux field value => Server.Says field value
  | _ => True

/-- A summary that is not only about the server refuses nothing that makes sense. -/
theorem takes_receiver {options : Options} (honly : options.onlyServer = false) :
    Scan.Takes (receiver options false) IsTakeable (learn options) where
  take := by
    intro record haccepts summary
    have hadd : (summary.add options record).1 = .ok () → (receiver options false).take record summary =
        (.ok (), learn options summary record) := by
      intro hok
      rw [← hok]
      rfl
    apply hadd
    cases record with
    | aux field value =>
        obtain ⟨server, hserver⟩ := haccepts.exists_update summary.server
        rw [add, hserver]
        simp [honly]
    | selectDb index => rfl
    | resizeDb keys expiring => rfl
    | keyed key value => rfl
  finish := fun _ => rfl
  isCancelled := fun _ => rfl

end RedisSnapshot.Summary
