import Mathlib.Data.List.Basic
import RedisSnapshot.Proofs.Load.Ledger

/-!
# Parcels

What one worker sends can be told from the records alone. Selectors cut them into segments, each
with the database in force, and a segment is cut into portions of the size of a batch; what has no
key is in none of them. A worker who has gathered a part of a portion goes on from there, so the
cutting is described from any such state.
-/

namespace RedisSnapshot.Load

/-- The records with a key from one selector to the next, behind some that were there before. -/
def segmentsOnto (database : Nat) (held : List Record) : List Record → List Parcel
  | [] => [⟨database, held⟩]
  | .selectDb index :: records => ⟨database, held⟩ :: segmentsOnto index [] records
  | .keyed key value :: records => segmentsOnto database (held ++ [.keyed key value]) records
  | .resizeDb .. :: records | .aux .. :: records => segmentsOnto database held records

/-- Consecutive records, as many as fit together, and fewer only in the end. -/
def portions (size : Nat) (records : List Record) : List (List Record) :=
  if 0 < size ∧ records ≠ [] then records.take size :: portions size (records.drop size) else []
termination_by records.length
decreasing_by
  rename_i h
  have hlength := List.length_pos_iff.2 h.2
  rw [List.length_drop]
  omega

def Parcel.portions (size : Nat) (parcel : Parcel) : List Parcel :=
  (Load.portions size parcel.records).map fun records => ⟨parcel.database, records⟩

def parcelsOnto (size database : Nat) (held records : List Record) : List Parcel :=
  (segmentsOnto database held records).flatMap (Parcel.portions size)

/-- The parcels that records are sent in. -/
def parcels (options : Options) (records : List Record) : List Parcel :=
  parcelsOnto options.batchSize options.database [] records

theorem Options.batchSize_pos (options : Options) : 0 < options.batchSize :=
  Nat.le_max_left 1 options.batch

/-! ### Cutting -/

section Portions

variable {size : Nat} {front records : List Record}

theorem portions_nil (size : Nat) : portions size [] = [] := by
  rw [portions, if_neg fun h => h.2 rfl]

theorem portions_append (hsize : 0 < size) (hfront : front.length = size) (records : List Record) :
    portions size (front ++ records) = front :: portions size records := by
  have hne : front ++ records ≠ [] := by
    intro hnil
    rw [(List.append_eq_nil_iff.1 hnil).1] at hfront
    exact Nat.ne_of_lt hsize hfront
  rw [portions, if_pos ⟨hsize, hne⟩, List.take_left' hfront, List.drop_left' hfront]

/-- Records that fit together are a portion, unless there are none. -/
theorem portions_of_le (hsize : 0 < size) (h : records.length ≤ size) :
    portions size records = if records.isEmpty then [] else [records] := by
  cases records with
  | nil => exact portions_nil size
  | cons record records =>
      rw [portions, if_pos ⟨hsize, List.cons_ne_nil _ _⟩, List.take_of_length_le h,
        List.drop_of_length_le h, portions_nil]
      rfl

end Portions

section Onto

variable {size database : Nat} {held records : List Record}

theorem parcelsOnto_keyed {record : Record} (h : record.isControl = false) :
    parcelsOnto size database held (record :: records) =
      parcelsOnto size database (held ++ [record]) records := by
  cases record with
  | keyed key value => rfl
  | selectDb _ | resizeDb _ _ | aux _ _ => cases h

theorem parcelsOnto_selector {index : Nat} :
    parcelsOnto size database held (.selectDb index :: records) =
      Parcel.portions size ⟨database, held⟩ ++ parcelsOnto size index [] records :=
  rfl

theorem parcelsOnto_nil :
    parcelsOnto size database held [] = Parcel.portions size ⟨database, held⟩ :=
  List.append_nil _

theorem Parcel.portions_nil (size database : Nat) : Parcel.portions size ⟨database, []⟩ = [] := by
  rw [Parcel.portions, Load.portions_nil, List.map_nil]

theorem Parcel.portions_of_le (hsize : 0 < size) (hheld : held.length ≤ size) :
    Parcel.portions size ⟨database, held⟩ = if held.isEmpty then [] else [⟨database, held⟩] := by
  rw [Parcel.portions, Load.portions_of_le hsize hheld]
  split
  · rfl
  · rfl

/-- What was gathered for a whole portion does not depend on what comes behind it. -/
theorem parcelsOnto_full (hsize : 0 < size) (hheld : held.length = size)
    (gathered records : List Record) :
    parcelsOnto size database (held ++ gathered) records =
      ⟨database, held⟩ :: parcelsOnto size database gathered records := by
  have hcut : ∀ gathered, Parcel.portions size ⟨database, held ++ gathered⟩ =
      ⟨database, held⟩ :: Parcel.portions size ⟨database, gathered⟩ := by
    intro gathered
    rw [Parcel.portions, portions_append hsize hheld]
    rfl
  induction records generalizing gathered with
  | nil => rw [parcelsOnto_nil, parcelsOnto_nil, hcut]
  | cons record records ih =>
      cases record with
      | keyed key value =>
          rw [parcelsOnto_keyed rfl, parcelsOnto_keyed rfl, List.append_assoc]
          exact ih (gathered ++ [.keyed key value])
      | selectDb index =>
          rw [parcelsOnto_selector, parcelsOnto_selector, hcut, List.cons_append]
      | resizeDb _ _ | aux _ _ => exact ih gathered

theorem parcelsOnto_eq_portions (hsize : 0 < size) (hheld : held.length = size)
    (records : List Record) :
    parcelsOnto size database held records =
      Parcel.portions size ⟨database, held⟩ ++ parcelsOnto size database [] records := by
  have hall : ∀ records, parcelsOnto size database held records =
      ⟨database, held⟩ :: parcelsOnto size database [] records := by
    intro records
    rw [← parcelsOnto_full hsize hheld, List.append_nil]
  rw [← parcelsOnto_nil, hall, hall, parcelsOnto_nil, Parcel.portions_nil]
  rfl

/-- A record that is neither written nor selects a database can be left out wherever it stands. -/
theorem parcelsOnto_skip {record : Record} (hcontrol : record.isControl = true)
    (hselected : record.selected? = none) (records later : List Record) :
    parcelsOnto size database held (records ++ record :: later) =
      parcelsOnto size database held (records ++ later) := by
  induction records generalizing database held with
  | nil =>
      cases record with
      | keyed key value => cases hcontrol
      | selectDb index => cases hselected
      | resizeDb _ _ | aux _ _ => rfl
  | cons first records ih =>
      rw [List.cons_append, List.cons_append]
      cases first with
      | keyed key value => exact ih
      | selectDb index => rw [parcelsOnto_selector, parcelsOnto_selector, ih]
      | resizeDb _ _ | aux _ _ => exact ih

end Onto

end RedisSnapshot.Load
