import Mathlib.Data.List.Nodup
import RedisSnapshot.Json

/-!
# Members in the order of their names

A document that asks for its members in the order of their names has each name once. If no name comes
twice then nothing is lost, and the members are told by what they are in any order. Otherwise the last
member of a name is the one that stays, since sorting leaves members of one name as they stand.
-/

namespace RedisSnapshot.Json

/-! ### Entries under names -/

section Entries

variable {α β : Type} [BEq α] [LawfulBEq α] {entries : List (α × β)}

/-- Of entries without a second value for a name every one is found. -/
theorem lookup_eq_some_iff_mem (h : (entries.map Prod.fst).Nodup) {name : α} {value : β} :
    entries.lookup name = some value ↔ (name, value) ∈ entries := by
  induction entries with
  | nil => simp
  | cons entry entries ih =>
      obtain ⟨other, kept⟩ := entry
      obtain ⟨hnew, hrest⟩ := List.nodup_cons.1 h
      rw [List.lookup_cons, List.mem_cons, Prod.mk.injEq]
      by_cases hname : name = other
      · subst hname
        rw [beq_self_eq_true]
        have hnone : (name, value) ∉ entries := fun hmem =>
          hnew (List.mem_map.2 ⟨_, hmem, rfl⟩)
        simp [hnone, eq_comm]
      · rw [beq_eq_false_iff_ne.2 hname]
        simp [hname, ih hrest]

end Entries

theorem lastOfEach_of_ascending {members : List (String × Json)}
    (h : (members.map Prod.fst).Pairwise (· < ·)) : lastOfEach members = members := by
  induction members using lastOfEach.induct with
  | case1 first second rest heq ih =>
      have hlt := (List.pairwise_cons.1 h).1 second.1 List.mem_cons_self
      rw [heq] at hlt
      exact absurd hlt (String.lt_irrefl _)
  | case2 first second rest hne ih =>
      rw [lastOfEach, if_neg hne, ih (List.pairwise_cons.1 h).2]
  | case3 members hfew =>
      rw [lastOfEach.eq_def]
      split
      · exact absurd rfl (hfew _ _ _)
      · rfl

section Sorting

variable {α : Type} {entries : List (String × α)}

/-- The entries of one name. -/
def named (name : String) (entries : List (String × α)) : List (String × α) :=
  entries.filter (·.1 = name)

theorem named_cons_of_eq {name : String} {entry : String × α} (h : entry.1 = name)
    (entries : List (String × α)) : named name (entry :: entries) = entry :: named name entries :=
  List.filter_cons_of_pos (decide_eq_true h)

theorem named_cons_of_ne {name : String} {entry : String × α} (h : entry.1 ≠ name)
    (entries : List (String × α)) : named name (entry :: entries) = named name entries :=
  List.filter_cons_of_neg (by simpa using h)

theorem pairwise_mergeSort (entries : List (String × α)) :
    (entries.mergeSort fun a b => a.1 ≤ b.1).Pairwise fun a b => a.1 ≤ b.1 := by
  have hsorted := @List.pairwise_mergeSort _ (fun a b : String × α => decide (a.1 ≤ b.1))
    (fun a b c hab hbc => by simp_all; exact String.le_trans hab hbc)
    (fun a b => by simpa using String.le_total a.1 b.1) entries
  exact hsorted.imp of_decide_eq_true

/-- Entries without a second value for a name are put in the order of their names. -/
theorem ascending_mergeSort (h : (entries.map Prod.fst).Nodup) :
    ((entries.mergeSort fun a b => a.1 ≤ b.1).map Prod.fst).Pairwise (· < ·) := by
  have hdistinct : ((entries.mergeSort fun a b => a.1 ≤ b.1).map Prod.fst).Nodup :=
    ((List.mergeSort_perm entries _).map Prod.fst).nodup_iff.2 h
  refine List.pairwise_map.2 ((pairwise_mergeSort entries).imp₂ (fun a b hle hne => ?_)
    (List.pairwise_map.1 hdistinct))
  exact by_contra fun hlt => hne (String.le_antisymm hle (String.not_lt.1 hlt))

/-- Entries of one name stay in their order. -/
theorem named_mergeSort (name : String) (entries : List (String × α)) :
    named name (entries.mergeSort fun a b => a.1 ≤ b.1) = named name entries := by
  have hequal : (named name entries).Pairwise fun a b => decide (a.1 ≤ b.1) = true := by
    refine List.pairwise_of_forall_mem_list fun a ha b hb => decide_eq_true ?_
    have hsame : a.1 = b.1 :=
      (of_decide_eq_true (List.mem_filter.1 ha).2).trans (of_decide_eq_true (List.mem_filter.1 hb).2).symm
    exact hsame ▸ String.le_refl a.1
  have hsublist := List.sublist_mergeSort
    (fun a b c hab hbc => by simp_all; exact String.le_trans hab hbc)
    (fun a b => by simpa using String.le_total a.1 b.1) hequal List.filter_sublist
  have hfiltered := hsublist.filter (·.1 = name)
  rw [named, List.filter_filter] at hfiltered
  simp only [Bool.and_self] at hfiltered
  refine (hfiltered.eq_of_length ?_).symm
  exact ((List.mergeSort_perm entries _).filter _).length_eq.symm

/-- Entries in the order of their names are told by what is under each name. -/
theorem eq_of_lookup_eq {others : List (String × α)} (h : (entries.map Prod.fst).Pairwise (· < ·))
    (hothers : (others.map Prod.fst).Pairwise (· < ·))
    (hlookup : ∀ name, entries.lookup name = others.lookup name) : entries = others := by
  have hnodup : ∀ {entries : List (String × α)}, (entries.map Prod.fst).Pairwise (· < ·) →
      (entries.map Prod.fst).Nodup := fun h => h.imp String.ne_of_lt
  have hperm : entries.Perm others := by
    refine (List.perm_ext_iff_of_nodup (hnodup h).of_map (hnodup hothers).of_map).2 fun entry => ?_
    rw [← lookup_eq_some_iff_mem (hnodup h), ← lookup_eq_some_iff_mem (hnodup hothers), hlookup]
  refine hperm.eq_of_pairwise ?_ (List.pairwise_map.1 h) (List.pairwise_map.1 hothers)
  intro a b _ _ hab hba
  exact absurd (String.lt_trans hab hba) (String.lt_irrefl _)

end Sorting

/-! ### Sorted members -/

section Sorted

variable {members shown : List (String × Json)}

/-- Members in the order of their names are what sorting makes of them in any order. -/
theorem sorted_of_perm (h : (shown.map Prod.fst).Pairwise (· < ·)) (hperm : shown.Perm members) :
    sorted members = object shown := by
  have hnodup : (members.map Prod.fst).Nodup :=
    (hperm.map Prod.fst).nodup_iff.1 (h.imp String.ne_of_lt)
  have hsame : (members.mergeSort fun a b => a.1 ≤ b.1) = shown := by
    refine ((List.mergeSort_perm members _).trans hperm.symm).eq_of_pairwise ?_
      (List.pairwise_map.1 (ascending_mergeSort hnodup)) (List.pairwise_map.1 h)
    intro a b _ _ hab hba
    exact absurd (String.lt_trans hab hba) (String.lt_irrefl _)
  rw [sorted, hsame, lastOfEach_of_ascending h]

theorem lastOfEach_sublist (members : List (String × Json)) : (lastOfEach members).Sublist members := by
  induction members using lastOfEach.induct with
  | case1 first second rest heq ih =>
      rw [lastOfEach, if_pos heq]
      exact ih.cons first
  | case2 first second rest hne ih =>
      rw [lastOfEach, if_neg hne]
      exact ih.cons_cons first
  | case3 members hfew =>
      rw [lastOfEach.eq_def]
      split
      · exact absurd rfl (hfew _ _ _)
      · exact List.Sublist.refl _

/-- Among members in order the last one of each name stays, and no other. -/
theorem lastOfEach_of_sorted (h : members.Pairwise fun a b => a.1 ≤ b.1) :
    ((lastOfEach members).map Prod.fst).Pairwise (· < ·) ∧
      ∀ name, (lastOfEach members).lookup name =
        (named name members).getLast?.map Prod.snd := by
  induction members using lastOfEach.induct with
  | case1 first second rest heq ih =>
      obtain ⟨hascending, hlookup⟩ := ih (List.pairwise_cons.1 h).2
      rw [lastOfEach, if_pos heq]
      refine ⟨hascending, fun name => ?_⟩
      rw [hlookup]
      by_cases hname : second.1 = name
      · rw [named_cons_of_eq (heq.trans hname), named_cons_of_eq hname, List.getLast?_cons_cons]
      · rw [named_cons_of_ne (heq ▸ hname : first.1 ≠ name)]
  | case2 first second rest hne ih =>
      obtain ⟨hfirst, hrest⟩ := List.pairwise_cons.1 h
      obtain ⟨hascending, hlookup⟩ := ih hrest
      -- The name of the first member is below all others, for it is below the second one.
      have hbelow : ∀ member ∈ second :: rest, first.1 < member.1 := by
        intro member hmem
        refine by_contra fun hle => ?_
        have hsecond : second.1 ≤ member.1 := by
          rcases List.mem_cons.1 hmem with rfl | hmem
          · exact String.le_refl _
          · exact (List.pairwise_cons.1 hrest).1 member hmem
        exact hne (String.le_antisymm (hfirst second List.mem_cons_self)
          (String.le_trans hsecond hle))
      rw [lastOfEach, if_neg hne]
      constructor
      · refine List.pairwise_cons.2 ⟨fun name hname => ?_, hascending⟩
        obtain ⟨member, hmem, rfl⟩ := List.mem_map.1 hname
        exact hbelow member ((lastOfEach_sublist _).subset hmem)
      · intro name
        rw [List.lookup_cons]
        by_cases hname : name = first.1
        · have hnone : named name (second :: rest) = [] := by
            refine List.filter_eq_nil_iff.2 fun member hmem hsame => ?_
            have hlt := hbelow member hmem
            rw [of_decide_eq_true hsame, hname] at hlt
            exact String.lt_irrefl _ hlt
          rw [named_cons_of_eq hname.symm, hnone, hname, beq_self_eq_true]
          rfl
        · rw [named_cons_of_ne (Ne.symm hname), beq_eq_false_iff_ne.2 hname]
          exact hlookup name
  | case3 members hfew =>
      rcases members with - | ⟨first, - | ⟨second, rest⟩⟩
      · exact ⟨.nil, fun _ => rfl⟩
      · refine ⟨List.pairwise_singleton _ _, fun name => ?_⟩
        change [first].lookup name = _
        rw [List.lookup_cons]
        by_cases hname : name = first.1
        · rw [named_cons_of_eq hname.symm, hname, beq_self_eq_true]
          rfl
        · rw [named_cons_of_ne (Ne.symm hname), beq_eq_false_iff_ne.2 hname]
          rfl
      · exact absurd rfl (hfew first second rest)

/-- Sorted members have each name once, and the last member of a name. -/
theorem exists_sorted (members : List (String × Json)) :
    ∃ shown, sorted members = object shown ∧ (shown.map Prod.fst).Pairwise (· < ·) ∧
      ∀ name, shown.lookup name = (named name members).getLast?.map Prod.snd := by
  obtain ⟨hascending, hlookup⟩ := lastOfEach_of_sorted (pairwise_mergeSort members)
  refine ⟨_, rfl, hascending, fun name => ?_⟩
  rw [hlookup, named_mergeSort]

/-- What sorting makes of members is told by the last one of each name. -/
theorem sorted_congr {others : List (String × Json)}
    (h : ∀ name, (named name members).getLast? = (named name others).getLast?) :
    sorted members = sorted others := by
  obtain ⟨shown, hshown, hascending, hlookup⟩ := exists_sorted members
  obtain ⟨other, hother, hothers, hlast⟩ := exists_sorted others
  rw [hshown, hother, eq_of_lookup_eq hascending hothers fun name => ?_]
  rw [hlookup, hlast, h]

end Sorted

end RedisSnapshot.Json
