import RedisSnapshot.Proofs.Json.Members
import RedisSnapshot.Proofs.Summary.Tallies

/-!
# What a summary reports

A summary keeps its tallies in the order in which they came up and reports them by database and, within
a database, by type. No place has two tallies, so that nothing is lost or merged on the way: the report
has for every database and type what there is to be counted among all records, and no more.
-/

namespace RedisSnapshot.Summary

open Json (lookup_eq_some_iff_mem lastOfEach_of_ascending ascending_mergeSort)

/-- A report: the types that each database has, and what is told of each. -/
abbrev Statistics := List (Nat × List (String × Json))

namespace Statistics

def json (statistics : Statistics) : Json :=
  .object (statistics.map fun (database, types) => (Decimal.text database, .object types))

def entry? (statistics : Statistics) (database : Nat) (typeName : String) : Option Json :=
  (statistics.lookup database).bind fun types => types.lookup typeName

/-- Databases stand in the order of their numbers and types in that of their names, each of them once,
and no database is there for nothing. -/
structure IsOrdered (statistics : Statistics) : Prop where
  databases : (statistics.map Prod.fst).Pairwise (· < ·)
  types : ∀ entry ∈ statistics, entry.2 ≠ [] ∧ (entry.2.map Prod.fst).Pairwise (· < ·)

end Statistics

/-- How a value is listed. -/
def Occurrence.listed (found : Occurrence) : Json :=
  .object
    [("key", .string (Text.lossy found.name)), ("type", .string found.value.typeName),
      ("size", .natural found.value.size), ("len", .natural found.value.length)]

/-- What is told of these values: their number, their size and those that are to be listed. Of no
values nothing is told. -/
def told? (found listed : List Occurrence) : Option Json :=
  if found.isEmpty then none
  else some (.object (
    [("count", .natural found.length),
      ("total_size", .natural (found.map fun occurrence => occurrence.value.size).sum)] ++
    if listed.isEmpty then [] else [("big_keys", .array (listed.map Occurrence.listed))]))

/-- The tally of these values, the latest of those that are to be listed first. -/
def Tally.of? (found listed : List Occurrence) : Option Tally :=
  if found.isEmpty then none
  else some ⟨found.length, (found.map fun occurrence => occurrence.value.size).sum,
    (listed.map Occurrence.big).reverse⟩

/-- A summary has counted these values at a place, and its report tells of them. -/
structure Tells (summary : Summary) (report : Statistics) (database : Nat) (typeName : String)
    (found listed : List Occurrence) : Prop where
  tally : summary.tallies.lookup (database, typeName) = Tally.of? found listed
  told : report.entry? database typeName = told? found listed

def talliesIn (summary : Summary) (database : Nat) : List (String × Tally) :=
  summary.tallies.filterMap fun ((place, typeName), tally) =>
    if place = database then some (typeName, tally) else none

def typesOf (summary : Summary) (database : Nat) : List (String × Tally) :=
  (summary.talliesIn database).mergeSort fun a b => a.1 ≤ b.1

def entriesOf (summary : Summary) (database : Nat) : List (String × Json) :=
  (summary.typesOf database).map fun (typeName, tally) => (typeName, tally.json)

def statistics (summary : Summary) : Statistics :=
  summary.databases.map fun database => (database, summary.entriesOf database)

/-! ### Databases -/

theorem mem_insertNat {n other : Nat} {found : List Nat} :
    other ∈ insertNat n found ↔ other = n ∨ other ∈ found := by
  induction found with
  | nil => simp [insertNat]
  | cons first found ih =>
      rw [insertNat]
      split
      · exact List.mem_cons
      · split
        · rename_i heq
          rw [heq, List.mem_cons]
          exact (or_iff_right_of_imp .inl).symm
        · rw [List.mem_cons, ih, List.mem_cons, or_left_comm]

theorem ascending_insertNat (n : Nat) {found : List Nat} (h : found.Pairwise (· < ·)) :
    (insertNat n found).Pairwise (· < ·) := by
  induction found with
  | nil => exact List.pairwise_singleton _ _
  | cons first found ih =>
      obtain ⟨hfirst, hrest⟩ := List.pairwise_cons.1 h
      rw [insertNat]
      split
      · rename_i hlt
        exact List.pairwise_cons.2 ⟨fun other hmem => (List.mem_cons.1 hmem).elim
          (fun heq => heq ▸ hlt) fun hlater => Nat.lt_trans hlt (hfirst other hlater), h⟩
      · split
        · exact h
        · refine List.pairwise_cons.2 ⟨fun other hmem => ?_, ih hrest⟩
          rcases mem_insertNat.1 hmem with rfl | hmem
          · omega
          · exact hfirst other hmem

section Databases

variable {tallies : List ((Nat × String) × Tally)} {found : List Nat}

theorem ascending_foldl_insertNat (h : found.Pairwise (· < ·)) :
    (tallies.foldl (fun found entry => insertNat entry.1.1 found) found).Pairwise (· < ·) := by
  induction tallies generalizing found with
  | nil => exact h
  | cons entry tallies ih => exact ih (ascending_insertNat entry.1.1 h)

theorem mem_foldl_insertNat {database : Nat} :
    database ∈ tallies.foldl (fun found entry => insertNat entry.1.1 found) found ↔
      database ∈ found ∨ ∃ entry ∈ tallies, entry.1.1 = database := by
  induction tallies generalizing found with
  | nil => simp
  | cons entry tallies ih =>
      rw [List.foldl_cons, ih, mem_insertNat, List.exists_mem_cons_iff]
      tauto

end Databases

/-! ### From tallies to a report -/

section Tallies

variable {summary : Summary} {database : Nat} {typeName : String}

theorem mem_databases :
    database ∈ summary.databases ↔ ∃ entry ∈ summary.tallies, entry.1.1 = database := by
  rw [databases, mem_foldl_insertNat]
  exact or_iff_right List.not_mem_nil

theorem mem_typesOf {tally : Tally} :
    (typeName, tally) ∈ summary.typesOf database ↔
      ((database, typeName), tally) ∈ summary.tallies := by
  rw [typesOf, (List.mergeSort_perm _ _).mem_iff, talliesIn, List.mem_filterMap]
  constructor
  · rintro ⟨⟨⟨place, other⟩, kept⟩, hmem, hentry⟩
    dsimp only at hentry
    split at hentry
    · rename_i hplace
      cases hentry
      exact hplace ▸ hmem
    · cases hentry
  · exact fun hmem => ⟨_, hmem, if_pos rfl⟩

section Distinct

variable (h : (summary.tallies.map Prod.fst).Nodup)

include h

theorem nodup_talliesIn (database : Nat) : ((summary.talliesIn database).map Prod.fst).Nodup := by
  have hnames : (summary.talliesIn database).map Prod.fst =
      (summary.tallies.map Prod.fst).filterMap fun (place, typeName) =>
        if place = database then some typeName else none := by
    rw [talliesIn, List.map_filterMap, List.filterMap_map]
    exact List.filterMap_congr fun entry _ => apply_ite (Option.map Prod.fst) _ _ _
  rw [hnames]
  refine h.filterMap fun first second name hfirst hsecond => ?_
  simp_all [Prod.ext_iff]

theorem ascending_typesOf (database : Nat) :
    ((summary.typesOf database).map Prod.fst).Pairwise (· < ·) :=
  ascending_mergeSort (nodup_talliesIn h database)

theorem ascending_entriesOf (database : Nat) :
    ((summary.entriesOf database).map Prod.fst).Pairwise (· < ·) := by
  rw [entriesOf, List.map_map]
  exact ascending_typesOf h database

theorem isOrdered_statistics : summary.statistics.IsOrdered := by
  constructor
  · have hdatabases : summary.statistics.map Prod.fst = summary.databases := by
      rw [statistics, List.map_map]
      exact List.map_id _
    rw [hdatabases]
    exact ascending_foldl_insertNat .nil
  · intro entry hmem
    obtain ⟨database, hdatabase, rfl⟩ := List.mem_map.1 hmem
    refine ⟨fun hnone => ?_, ?_⟩
    · obtain ⟨⟨⟨place, typeName⟩, tally⟩, hentry, rfl⟩ := mem_databases.1 hdatabase
      have htype := mem_typesOf.2 hentry
      rw [List.map_eq_nil_iff.1 hnone] at htype
      cases htype
    · exact ascending_entriesOf h database

theorem statisticsJson_eq : summary.statisticsJson = summary.statistics.json := by
  rw [statisticsJson, Statistics.json, statistics, List.map_map]
  refine congrArg Json.object (List.map_congr_left fun database _ => ?_)
  let member : String × Tally → String × Json := fun entry => (entry.1, entry.2.json)
  have hmembers : (summary.tallies.filterMap fun ((place, typeName), tally) =>
      if place = database then some (typeName, tally.json) else none) =
        (summary.talliesIn database).map member := by
    rw [talliesIn, List.map_filterMap]
    refine List.filterMap_congr fun entry _ => ?_
    obtain ⟨⟨place, typeName⟩, tally⟩ := entry
    exact (apply_ite (Option.map member) (place = database) (some (typeName, tally)) none).symm
  have hsorted : ((summary.talliesIn database).map member).mergeSort (fun a b => a.1 ≤ b.1) =
      summary.entriesOf database :=
    (List.map_mergeSort (f := member) fun _ _ _ _ => rfl).symm
  refine Prod.ext rfl ?_
  change Json.sorted _ = _
  rw [hmembers, Json.sorted, hsorted, lastOfEach_of_ascending (ascending_entriesOf h database)]
  rfl

theorem entry?_statistics (database : Nat) (typeName : String) :
    summary.statistics.entry? database typeName =
      (summary.tallies.lookup (database, typeName)).map Tally.json := by
  refine Option.ext fun told => ?_
  rw [Statistics.entry?, Option.bind_eq_some_iff, Option.map_eq_some_iff]
  have hordered := isOrdered_statistics h
  have hdatabases := hordered.databases.imp Nat.ne_of_lt
  constructor
  · rintro ⟨types, hfound, htold⟩
    have hmem := (lookup_eq_some_iff_mem hdatabases).1 hfound
    have htypes := (hordered.types _ hmem).2.imp String.ne_of_lt
    obtain ⟨place, _, heq⟩ := List.mem_map.1 hmem
    obtain ⟨rfl, rfl⟩ := Prod.mk.inj heq
    obtain ⟨⟨_, tally⟩, htally, hentry⟩ :=
      List.mem_map.1 ((lookup_eq_some_iff_mem htypes).1 htold)
    obtain ⟨rfl, rfl⟩ := Prod.mk.inj hentry
    exact ⟨tally, (lookup_eq_some_iff_mem h).2 (mem_typesOf.1 htally), rfl⟩
  · rintro ⟨tally, htally, rfl⟩
    have hmem := (lookup_eq_some_iff_mem h).1 htally
    have hdatabase : database ∈ summary.databases := mem_databases.2 ⟨_, hmem, rfl⟩
    have hplace : (database, summary.entriesOf database) ∈ summary.statistics :=
      List.mem_map_of_mem hdatabase
    have htypes := (hordered.types _ hplace).2.imp String.ne_of_lt
    refine ⟨_, (lookup_eq_some_iff_mem hdatabases).2 hplace, ?_⟩
    exact (lookup_eq_some_iff_mem htypes).2 (List.mem_map.2 ⟨_, mem_typesOf.2 hmem, rfl⟩)

end Distinct

end Tallies

/-! ### From records to a report -/

theorem Tally.json_of? (found listed : List Occurrence) :
    (Tally.of? found listed).map Tally.json = told? found listed := by
  rw [Tally.of?, told?, apply_ite (Option.map Tally.json), Option.map_none, Option.map_some,
    Tally.json, List.isEmpty_reverse, List.isEmpty_map, List.reverse_reverse, List.map_map]
  rfl

theorem Accounts.lookup_eq {options : Options} {found : List Occurrence} {summary : Summary}
    (h : Accounts options found summary) (place : Nat × String) :
    summary.tallies.lookup place = Tally.of? (counted options place found)
      (if options.findBig then counted options place found else []) := by
  rw [Tally.of?]
  split
  · rename_i hempty
    refine List.lookup_eq_none_iff.2 fun entry hmem => ?_
    refine bne_iff_ne.2 fun hplace => (h.place place).1 ?_ (List.isEmpty_iff.1 hempty)
    exact hplace ▸ List.mem_map_of_mem hmem
  · rename_i hsome
    obtain ⟨entry, hmem, rfl⟩ :=
      List.mem_map.1 ((h.place place).2 fun hnone => hsome (List.isEmpty_iff.2 hnone))
    have hlookup := (lookup_eq_some_iff_mem h.nodup).2 hmem
    have htally := h.tally entry.1
    rw [tallyAt, hlookup, Option.getD_some] at htally
    rw [hlookup, htally, Tally.of]
    cases options.findBig <;> rfl

theorem Accounts.tells {options : Options} {found : List Occurrence} {summary : Summary}
    (h : Accounts options found summary) (database : Nat) (typeName : String) :
    Tells summary summary.statistics database typeName (counted options (database, typeName) found)
      (if options.findBig then counted options (database, typeName) found else []) where
  tally := h.lookup_eq (database, typeName)
  told := by rw [entry?_statistics h.nodup, h.lookup_eq, Tally.json_of?]

theorem mapM_take {options : Options} (honly : options.onlyServer = false) (isCancelled : Bool)
    {records : List Record} (hrecords : ∀ record ∈ records, IsTakeable record) (summary : Summary) :
    (records.mapM (receiver options isCancelled).take).run summary =
      (records.map fun _ => .ok (), records.foldl (learn options) summary) := by
  induction records generalizing summary with
  | nil => rfl
  | cons record records ih =>
      obtain ⟨hrecord, hrest⟩ := List.forall_mem_cons.1 hrecords
      have hfirst : (receiver options isCancelled).take record summary =
          (.ok (), learn options summary record) := (takes_receiver honly).take hrecord summary
      rw [List.mapM_cons]
      change ((receiver options isCancelled).take record >>= _) summary = _
      rw [Scan.bind_of_eq hfirst]
      exact Scan.bind_of_eq (ih hrest (learn options summary record))

/-- **The report** of a summary that was given any records tells for every database and type all that
is to be counted, and lists the big keys in the order of the records. -/
theorem report_records {options : Options} {records : List Record}
    (honly : options.onlyServer = false)
    (hserver : ∀ field value, .aux field value ∈ records → Server.Says field value)
    (isCancelled : Bool) :
    ∃ (summary : Summary) (report : Statistics),
      (records.mapM (receiver options isCancelled).take).run .empty =
          (records.map fun _ => .ok (), summary) ∧
        summary.statisticsJson = report.json ∧ report.IsOrdered ∧
        (options.countKeys = true → options.findBig = false → ∀ database typeName,
          let found := (occurrences 0 records).filter (·.place = (database, typeName))
          Tells summary report database typeName found []) ∧
        (options.findBig = true → ∀ database typeName,
          let found := (occurrences 0 records).filter fun occurrence =>
            occurrence.place = (database, typeName) ∧ options.IsBig occurrence.value
          Tells summary report database typeName found found) ∧
        (options.countKeys = false → options.findBig = false →
          summary.tallies = [] ∧ report = []) := by
  have hrecords : ∀ record ∈ records, IsTakeable record := by
    intro record hmem
    cases record with
    | aux field value => exact hserver field value hmem
    | keyed | selectDb | resizeDb => trivial
  let summary := records.foldl (learn options) .empty
  have haccounts : Accounts options (occurrences 0 records) summary :=
    accounts_empty.foldl_learn records
  have hnodup := haccounts.nodup
  refine ⟨summary, summary.statistics, mapM_take honly isCancelled hrecords .empty,
    statisticsJson_eq hnodup, isOrdered_statistics hnodup, ?_, ?_, ?_⟩
  · intro hcount hfind database typeName found
    have hcounted : counted options (database, typeName) (occurrences 0 records) = found := by
      refine List.filter_congr fun occurrence _ => ?_
      rw [Options.counts, hfind, if_neg Bool.false_ne_true, hcount, Bool.and_true]
    have htells := haccounts.tells database typeName
    rw [hcounted, hfind, if_neg Bool.false_ne_true] at htells
    exact htells
  · intro hfind database typeName found
    have hcounted : counted options (database, typeName) (occurrences 0 records) = found := by
      refine List.filter_congr fun occurrence _ => ?_
      rw [Options.counts, if_pos hfind, Bool.decide_and]
    have htells := haccounts.tells database typeName
    rw [hcounted, if_pos hfind] at htells
    exact htells
  · intro hcount hfind
    have hnone : ∀ value, options.counts value = false := fun value => by
      rw [Options.counts, hfind, if_neg Bool.false_ne_true, hcount]
    have hempty : summary.tallies = [] := by
      refine List.eq_nil_iff_forall_not_mem.2 fun entry hmem => ?_
      refine (haccounts.place entry.1).1 (List.mem_map_of_mem hmem) ?_
      rw [counted, List.filter_eq_nil_iff]
      intro occurrence _
      rw [hnone, Bool.and_false]
      exact Bool.false_ne_true
    refine ⟨hempty, ?_⟩
    rw [Summary.statistics, databases, hempty]
    rfl

/-- Two big strings in a database that is left and selected again, with a small one between them and a
set in another database. -/
def scattered : List Record :=
  [.keyed ⟨[107], 0⟩ (.string [1, 2]), .keyed ⟨[108], 0⟩ (.string [1]), .selectDb 3,
    .aux (Text.bytes "redis-bits") [54, 52], .keyed ⟨[107], 0⟩ (.set [[1]]), .selectDb 0,
    .resizeDb 2 0, .keyed ⟨[109], 0⟩ (.string [1, 2, 3])]

theorem report_scattered :
    (∀ field value, .aux field value ∈ scattered → Server.Says field value) ∧
      ∃ (summary : Summary) (report : Statistics),
        (scattered.mapM (receiver ⟨false, true, true, 1, [("Set", ⟨0, 1⟩)]⟩ false).take).run .empty =
            (scattered.map fun _ => .ok (), summary) ∧
          summary.statisticsJson = report.json ∧
          summary.tallies.lookup (0, "String") =
            some ⟨2, 5, [⟨"m", "String", 3, 3⟩, ⟨"k", "String", 2, 2⟩]⟩ ∧
          report.entry? 3 "Set" = some (.object
            [("count", .integer 1), ("total_size", .integer 1), ("big_keys", .array [.object
              [("key", .string "k"), ("type", .string "Set"), ("size", .integer 1),
                ("len", .integer 1)]])]) ∧
          report.entry? 3 "String" = none := by
  have hserver : ∀ field value, .aux field value ∈ scattered → Server.Says field value := by
    intro field value hmem
    simp only [scattered, List.mem_cons, reduceCtorEq, false_or, List.not_mem_nil, or_false,
      Record.aux.injEq] at hmem
    obtain ⟨rfl, rfl⟩ := hmem
    exact ⟨fun _ => by decide, fun hfield => absurd hfield (by decide),
      fun hfield => absurd hfield (by decide)⟩
  obtain ⟨summary, report, htaken, hjson, _, _, hbig, _⟩ :=
    @report_records ⟨false, true, true, 1, [("Set", ⟨0, 1⟩)]⟩ scattered rfl hserver false
  refine ⟨hserver, summary, report, htaken, hjson, ?_, ?_, ?_⟩
  · exact (hbig rfl 0 "String").tally.trans (by decide +kernel)
  · have hkey : Text.lossy [107] = "k" := Text.lossy_bytes "k"
    rw [← hkey]
    exact (hbig rfl 3 "Set").told
  · exact (hbig rfl 3 "String").told

end RedisSnapshot.Summary
