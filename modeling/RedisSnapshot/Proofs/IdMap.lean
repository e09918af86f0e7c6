import Mathlib.Data.List.Nodup
import RedisSnapshot.Stream

/-!
# Maps under ids are what they hold

A map keeps its entries in descending order, so that it is told by which entries it has. Putting
entries into a map one after another therefore gives the same map in any order, and an entry may be
put in again. The order is that of the ids alone: no id has two values.
-/

namespace RedisSnapshot

theorem StreamId.lt_irrefl (id : StreamId) : ¬ id < id := by
  simp only [StreamId.lt_iff, UInt64.lt_iff_toNat_lt]
  omega

theorem StreamId.ne_of_lt {first second : StreamId} (h : first < second) : first ≠ second := by
  rintro rfl
  exact first.lt_irrefl h

namespace IdMap

variable {α : Type} {map : IdMap α}

theorem mem_toList {entry : StreamId × α} : entry ∈ map.toList ↔ entry ∈ map.newestFirst :=
  List.mem_reverse

theorem eq_of_id_eq {first second : StreamId × α} (hfirst : first ∈ map.toList)
    (hsecond : second ∈ map.toList) (h : first.1 = second.1) : first = second := by
  have hids : (map.newestFirst.map Prod.fst).Nodup :=
    List.pairwise_map.2 (map.descending.imp fun hlt => (StreamId.ne_of_lt hlt).symm)
  exact List.inj_on_of_nodup_map hids (mem_toList.1 hfirst) (mem_toList.1 hsecond) h

theorem get?_of_mem {entry : StreamId × α} (h : entry ∈ map.toList) :
    map.get? entry.1 = some entry.2 := by
  cases hfind : map.newestFirst.find? fun other => other.1 = entry.1 with
  | none =>
      have hnone := List.find?_eq_none.1 hfind entry (mem_toList.1 h)
      exact absurd (decide_eq_true rfl) hnone
  | some found =>
      have hid : found.1 = entry.1 := by simpa using List.find?_some hfind
      have hfound : found ∈ map.toList := mem_toList.2 (List.mem_of_find?_eq_some hfind)
      rw [get?, hfind, eq_of_id_eq hfound h hid]
      rfl

/-- A map is told by the entries that it has. -/
theorem eq_of_mem_iff {first second : IdMap α}
    (h : ∀ entry, entry ∈ first.toList ↔ entry ∈ second.toList) : first = second := by
  have hnodup : ∀ map : IdMap α, map.newestFirst.Nodup := fun map =>
    map.descending.imp fun hlt heq => StreamId.ne_of_lt hlt (congrArg Prod.fst heq).symm
  have hperm : first.newestFirst.Perm second.newestFirst := by
    refine (List.perm_ext_iff_of_nodup (hnodup first) (hnodup second)).2 fun entry => ?_
    rw [← mem_toList, ← mem_toList]
    exact h entry
  have heq : first.newestFirst = second.newestFirst := by
    refine hperm.eq_of_pairwise ?_ first.descending second.descending
    intro a b _ _ hab hba
    exact absurd (StreamId.lt_trans hab hba) (StreamId.lt_irrefl _)
  cases first
  cases second
  congr

/-- In a list in order an insertion replaces what the id had, and nothing else. -/
theorem mem_insertNewestFirst_iff {id : StreamId} {value : α} {entries : List (StreamId × α)}
    (h : entries.Pairwise fun a b => b.1 < a.1) (entry : StreamId × α) :
    entry ∈ insertNewestFirst id value entries ↔
      entry = (id, value) ∨ entry ∈ entries ∧ entry.1 ≠ id := by
  induction entries with
  | nil => simp [insertNewestFirst]
  | cons head rest ih =>
      obtain ⟨hhead, hrest⟩ := List.pairwise_cons.1 h
      rw [insertNewestFirst]
      split
      · -- Every id in the list is below the new one.
        rename_i hlt
        have hbelow : ∀ other ∈ head :: rest, other.1 ≠ id := by
          intro other hmem
          rcases List.mem_cons.1 hmem with rfl | hmem
          · exact StreamId.ne_of_lt hlt
          · exact StreamId.ne_of_lt (StreamId.lt_trans (hhead other hmem) hlt)
        rw [List.mem_cons]
        exact or_congr_right ⟨fun hmem => ⟨hmem, hbelow entry hmem⟩, And.left⟩
      · split
        · rename_i heq
          have hbelow : ∀ other ∈ rest, other.1 ≠ id := fun other hmem =>
            heq ▸ StreamId.ne_of_lt (hhead other hmem)
          rw [List.mem_cons]
          refine or_congr_right ⟨fun hmem => ⟨List.mem_cons_of_mem _ hmem, hbelow entry hmem⟩, ?_⟩
          rintro ⟨hmem, hne⟩
          rcases List.mem_cons.1 hmem with rfl | hmem
          · exact absurd heq.symm hne
          · exact hmem
        · rename_i hne
          rw [List.mem_cons, ih hrest, List.mem_cons]
          constructor
          · rintro (rfl | rfl | ⟨hmem, hother⟩)
            · exact .inr ⟨.inl rfl, Ne.symm hne⟩
            · exact .inl rfl
            · exact .inr ⟨.inr hmem, hother⟩
          · rintro (rfl | ⟨rfl | hmem, hother⟩)
            · exact .inr (.inl rfl)
            · exact .inl rfl
            · exact .inr (.inr ⟨hmem, hother⟩)

theorem mem_insert {id : StreamId} {value : α} (entry : StreamId × α) :
    entry ∈ (map.insert id value).toList ↔
      entry = (id, value) ∨ entry ∈ map.toList ∧ entry.1 ≠ id := by
  rw [mem_toList, mem_toList]
  exact mem_insertNewestFirst_iff map.descending entry

/-- What is put into a part of a map stays a part of it, if it is from there. -/
theorem mem_insertAll {part : IdMap α} {entries : List (StreamId × α)}
    (hpart : ∀ entry ∈ part.toList, entry ∈ map.toList)
    (hentries : ∀ entry ∈ entries, entry ∈ map.toList) (entry : StreamId × α) :
    entry ∈ (part.insertAll entries).toList ↔ entry ∈ part.toList ∨ entry ∈ entries := by
  induction entries generalizing part with
  | nil => simp [insertAll]
  | cons head entries ih =>
      have hhead : head ∈ map.toList := hentries head List.mem_cons_self
      have hinserted : ∀ other, other ∈ (part.insert head.1 head.2).toList ↔
          other = head ∨ other ∈ part.toList := by
        intro other
        rw [mem_insert]
        refine ⟨Or.imp_right And.left, ?_⟩
        rintro (rfl | hother)
        · exact .inl rfl
        · -- Both are from the map, so what is replaced is no other than what replaces it.
          by_cases hid : other.1 = head.1
          · exact .inl (eq_of_id_eq (hpart other hother) hhead hid)
          · exact .inr ⟨hother, hid⟩
      have hlarger : ∀ other ∈ (part.insert head.1 head.2).toList, other ∈ map.toList := by
        intro other hother
        rcases (hinserted other).1 hother with rfl | hother
        · exact hhead
        · exact hpart other hother
      have hlater := ih hlarger fun other hmem => hentries other (List.mem_cons_of_mem _ hmem)
      rw [insertAll, List.foldl_cons]
      change entry ∈ ((part.insert head.1 head.2).insertAll entries).toList ↔ _
      rw [hlater, hinserted, List.mem_cons, or_comm (a := entry = head), or_assoc]

theorem get?_eq_some_iff {id : StreamId} {value : α} :
    map.get? id = some value ↔ (id, value) ∈ map.toList := by
  constructor
  · intro h
    rw [get?, Option.map_eq_some_iff] at h
    obtain ⟨found, hfind, rfl⟩ := h
    have hid : found.1 = id := by simpa using List.find?_some hfind
    rw [mem_toList, ← hid]
    exact List.mem_of_find?_eq_some hfind
  · exact get?_of_mem

/-- Of entries without a second value for an id all are put in, and replace what the ids had. -/
theorem mem_insertAll_of_nodup {entries : List (StreamId × α)} (h : (entries.map Prod.fst).Nodup)
    (entry : StreamId × α) :
    entry ∈ (map.insertAll entries).toList ↔
      entry ∈ entries ∨ entry ∈ map.toList ∧ entry.1 ∉ entries.map Prod.fst := by
  induction entries generalizing map with
  | nil => simp [insertAll]
  | cons head entries ih =>
      obtain ⟨hhead, hentries⟩ := List.nodup_cons.1 h
      change entry ∈ ((map.insert head.1 head.2).insertAll entries).toList ↔ _
      rw [ih hentries, mem_insert, List.map_cons, List.mem_cons, List.mem_cons, not_or]
      constructor
      · rintro (hmem | ⟨rfl | ⟨hmem, hne⟩, hnew⟩)
        · exact .inl (.inr hmem)
        · exact .inl (.inl rfl)
        · exact .inr ⟨hmem, hne, hnew⟩
      · rintro ((rfl | hmem) | ⟨hmem, hne, hnew⟩)
        · exact .inr ⟨.inl rfl, hhead⟩
        · exact .inl hmem
        · exact .inr ⟨.inr ⟨hmem, hne⟩, hnew⟩

theorem mem_ofList_of_nodup {entries : List (StreamId × α)} (h : (entries.map Prod.fst).Nodup)
    (entry : StreamId × α) : entry ∈ (ofList entries).toList ↔ entry ∈ entries := by
  rw [ofList, mem_insertAll_of_nodup h]
  exact or_iff_left fun hempty => List.not_mem_nil hempty.1

/-- Whatever an id had before, and however often it comes, in the end it has something. -/
theorem exists_get?_insertAll {entries : List (StreamId × α)} {id : StreamId} :
    (∃ value, (map.insertAll entries).get? id = some value) ↔
      (∃ value, map.get? id = some value) ∨ id ∈ entries.map Prod.fst := by
  induction entries generalizing map with
  | nil => simp [insertAll]
  | cons head entries ih =>
      have hinserted : (∃ value, (map.insert head.1 head.2).get? id = some value) ↔
          (∃ value, map.get? id = some value) ∨ id = head.1 := by
        simp only [get?_eq_some_iff, mem_insert, Prod.mk.injEq]
        by_cases hid : id = head.1
        · simp [hid]
        · simp [hid]
      change (∃ value, ((map.insert head.1 head.2).insertAll entries).get? id = some value) ↔ _
      rw [ih, hinserted, List.map_cons, List.mem_cons, or_assoc]

theorem get?_ofList_eq_none_iff {entries : List (StreamId × α)} {id : StreamId} :
    (ofList entries).get? id = none ↔ id ∉ entries.map Prod.fst := by
  have hnothing : ¬ ∃ value, (empty : IdMap α).get? id = some value := nofun
  rw [Option.eq_none_iff_forall_ne_some, ← not_exists, ofList, exists_get?_insertAll,
    or_iff_right hnothing]

/-- Whatever the order of the entries, and however often one of them comes, they make the map. -/
theorem ofList_eq {entries : List (StreamId × α)}
    (h : ∀ entry, entry ∈ entries ↔ entry ∈ map.toList) : ofList entries = map := by
  refine eq_of_mem_iff fun entry => ?_
  have hnothing : ∀ entry ∈ (empty : IdMap α).toList, entry ∈ map.toList := fun _ hmem => nomatch hmem
  rw [ofList, mem_insertAll hnothing fun entry => (h entry).1, ← h entry]
  exact or_iff_right List.not_mem_nil

theorem ofList_eq_of_perm {entries : List (StreamId × α)} (h : entries.Perm map.toList) :
    ofList entries = map :=
  ofList_eq fun _ => h.mem_iff

end IdMap

end RedisSnapshot
