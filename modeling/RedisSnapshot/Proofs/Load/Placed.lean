import RedisSnapshot.Proofs.Load.Survivors

/-!
# Where the records of a key go

The parcels of some records have all those with a key in them, in order and each with the database
that was selected last. So records of one key that stand together all go to one database.
-/

namespace RedisSnapshot.Load

/-- The records with a key, each with the database that it goes to. -/
def placedOnto (database : Nat) : List Record → List (Nat × Record)
  | [] => []
  | .selectDb index :: records => placedOnto index records
  | .keyed key value :: records => (database, .keyed key value) :: placedOnto database records
  | .resizeDb .. :: records | .aux .. :: records => placedOnto database records

def Parcel.placed (parcel : Parcel) : List (Nat × Record) :=
  parcel.records.map (Prod.mk parcel.database)

theorem flatten_portions {size : Nat} (hsize : 0 < size) (records : List Record) :
    (portions size records).flatten = records := by
  fun_induction portions size records with
  | case1 records _ ih => rw [List.flatten_cons, ih, List.take_append_drop]
  | case2 records hnone =>
      have hempty : records = [] := Classical.not_not.1 fun hne => hnone ⟨hsize, hne⟩
      rw [hempty, List.flatten_nil]

theorem placed_portions {size : Nat} (hsize : 0 < size) (parcel : Parcel) :
    (parcel.portions size).flatMap Parcel.placed = parcel.placed := by
  rw [Parcel.portions, List.flatMap_map, Parcel.placed]
  conv => rhs; rw [← flatten_portions hsize parcel.records, List.map_flatten]
  rfl

theorem placed_segmentsOnto (database : Nat) (held records : List Record) :
    (segmentsOnto database held records).flatMap Parcel.placed =
      held.map (Prod.mk database) ++ placedOnto database records := by
  induction records generalizing database held with
  | nil => rfl
  | cons record records ih =>
      cases record with
      | keyed key value =>
          rw [segmentsOnto, ih, List.map_append, List.append_assoc]
          rfl
      | selectDb index =>
          rw [segmentsOnto, List.flatMap_cons, ih]
          rfl
      | resizeDb _ _ | aux _ _ => exact ih database held

theorem placed_parcels (options : Options) (records : List Record) :
    (parcels options records).flatMap Parcel.placed = placedOnto options.database records := by
  rw [parcels, parcelsOnto, List.flatMap_assoc]
  simp only [placed_portions options.batchSize_pos]
  exact placed_segmentsOnto options.database [] records

theorem placedOnto_append (database : Nat) (front : List Record) :
    ∃ next, ∀ back, placedOnto database (front ++ back) =
      placedOnto database front ++ placedOnto next back := by
  induction front generalizing database with
  | nil => exact ⟨database, fun _ => rfl⟩
  | cons record front ih =>
      cases record with
      | keyed key value =>
          obtain ⟨next, hnext⟩ := ih database
          exact ⟨next, fun back => congrArg (_ :: ·) (hnext back)⟩
      | selectDb index => exact ih index
      | resizeDb _ _ | aux _ _ => exact ih database

theorem placedOnto_keyed (database : Nat) (key : Key) (values : List Value) (records : List Record) :
    placedOnto database (values.map (.keyed key) ++ records) =
      values.map (fun value => (database, .keyed key value)) ++ placedOnto database records := by
  induction values with
  | nil => rfl
  | cons value values ih => exact congrArg (_ :: ·) ih

theorem mem_of_mem_placedOnto {database : Nat} {records : List Record} {entry : Nat × Record}
    (h : entry ∈ placedOnto database records) : entry.2 ∈ records := by
  induction records generalizing database with
  | nil => cases h
  | cons record records ih =>
      cases record with
      | keyed key value =>
          rcases List.mem_cons.1 h with rfl | hmem
          · exact List.mem_cons_self
          · exact List.mem_cons_of_mem _ (ih hmem)
      | selectDb _ | resizeDb _ _ | aux _ _ => exact List.mem_cons_of_mem _ (ih h)

theorem valuesOf_eq_placed (name : Bytes) (parcel : Parcel) :
    parcel.valuesOf name = parcel.placed.filterMap fun entry => entry.2.valueOf? name := by
  rw [Parcel.placed, List.filterMap_map]
  rfl

/-- A key whose records stand together and nowhere else. -/
theorem parcels_of_key (options : Options) (key : Key) (parts : List Value)
    {front back : List Record} (hfront : ∀ record ∈ front, record.valueOf? key.name = none)
    (hback : ∀ record ∈ back, record.valueOf? key.name = none) :
    ∃ database, (∀ parcel ∈ parcels options (front ++ (parts.map (.keyed key) ++ back)),
        parcel.Places database key) ∧
      (parcels options (front ++ (parts.map (.keyed key) ++ back))).flatMap
        (Parcel.valuesOf key.name) = parts := by
  obtain ⟨database, hplaced⟩ := placedOnto_append options.database front
  have hparcels := placed_parcels options (front ++ (parts.map (.keyed key) ++ back))
  rw [hplaced, placedOnto_keyed] at hparcels
  have hothers : ∀ (initial : Nat) (records : List Record),
      (∀ record ∈ records, record.valueOf? key.name = none) →
        ∀ entry ∈ placedOnto initial records, entry.2.valueOf? key.name = none :=
    fun _ _ hnone entry hmem => hnone entry.2 (mem_of_mem_placedOnto hmem)
  refine ⟨database, fun parcel hmem record hrecord found hfound hname => ?_, ?_⟩
  · have hentry : (parcel.database, record) ∈ placedOnto options.database front ++
        (parts.map (fun value => (database, .keyed key value)) ++ placedOnto database back) := by
      rw [← hparcels]
      exact List.mem_flatMap.2 ⟨parcel, hmem, List.mem_map.2 ⟨record, hrecord, rfl⟩⟩
    have hvalue : record.valueOf? key.name ≠ none := by
      cases record with
      | keyed other value =>
          cases hfound
          rw [Record.valueOf?, if_pos hname]
          exact Option.some_ne_none value
      | selectDb _ | resizeDb _ _ | aux _ _ => cases hfound
    -- A record of the key's name stands neither in front of the parts nor behind them.
    rcases List.mem_append.1 hentry with hmem | hmem
    · exact absurd (hothers _ _ hfront _ hmem) hvalue
    rcases List.mem_append.1 hmem with hmem | hmem
    · obtain ⟨value, _, hsame⟩ := List.mem_map.1 hmem
      cases hsame
      cases hfound
      exact ⟨rfl, rfl⟩
    · exact absurd (hothers _ _ hback _ hmem) hvalue
  · simp only [funext (valuesOf_eq_placed key.name)]
    rw [← List.filterMap_flatMap, hparcels, List.filterMap_append, List.filterMap_append,
      List.filterMap_eq_nil_iff.2 (hothers _ _ hfront),
      List.filterMap_eq_nil_iff.2 (hothers _ _ hback), List.filterMap_map, List.nil_append,
      List.append_nil]
    have hvalues : ((fun entry : Nat × Record => entry.2.valueOf? key.name) ∘
        fun value => (database, Record.keyed key value)) = some := by
      funext value
      exact if_pos rfl
    rw [hvalues, List.filterMap_some]

end RedisSnapshot.Load
