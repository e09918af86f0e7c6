import RedisSnapshot.Proofs.Summary.Report

/-!
# What a search for big keys withholds

A summary that counts all keys and one that is also to find the big ones are told the same records and
answer them alike. They do not report the same numbers: the search counts what it lists and nothing
else. What is missing from its report at a place is exactly what is not big there, so that the numbers
of a place agree if everything in it is big, and not otherwise.
-/

namespace RedisSnapshot.Summary

def Options.finding (options : Options) (find : Bool) : Options :=
  { options with findBig := find }

/-- The numbers of a type in a database. What has no tally has none of anything. -/
def totals (summary : Summary) (database : Nat) (typeName : String) : Nat × Nat :=
  let tally := summary.tallyAt (database, typeName)
  (tally.count, tally.size)

section Alike

variable {options : Options} {counting listing : Summary}

/-- Looking for big keys changes neither what a summary answers nor what it learns about the server. -/
theorem add_alike (h : counting.server = listing.server) (record : Record) :
    (counting.add (options.finding false) record).1 = (listing.add (options.finding true) record).1 ∧
      (learn (options.finding false) counting record).server =
        (learn (options.finding true) listing record).server := by
  cases record with
  | keyed key value =>
      obtain ⟨_, hcounting⟩ :=
        exists_tallies_learn_keyed (options.finding false) counting key value
      obtain ⟨_, hlisting⟩ := exists_tallies_learn_keyed (options.finding true) listing key value
      rw [hcounting, hlisting]
      exact ⟨rfl, h⟩
  | selectDb index => exact ⟨rfl, h⟩
  | resizeDb keys expiring => exact ⟨rfl, h⟩
  | aux field value =>
      rw [learn, learn, add, add, h]
      cases listing.server.update field value with
      | error error => exact ⟨rfl, h⟩
      | ok server =>
          have honly : (options.finding false).onlyServer = (options.finding true).onlyServer := rfl
          dsimp only
          rw [honly]
          split <;> exact ⟨rfl, rfl⟩

theorem mapM_take_alike (h : counting.server = listing.server) (isCancelled : Bool)
    (records : List Record) :
    ∃ answers,
      (records.mapM (receiver (options.finding false) isCancelled).take).run counting =
          (answers, records.foldl (learn (options.finding false)) counting) ∧
        (records.mapM (receiver (options.finding true) isCancelled).take).run listing =
          (answers, records.foldl (learn (options.finding true)) listing) ∧
        (records.foldl (learn (options.finding false)) counting).server =
          (records.foldl (learn (options.finding true)) listing).server := by
  induction records generalizing counting listing with
  | nil => exact ⟨[], rfl, rfl, h⟩
  | cons record records ih =>
      obtain ⟨hanswer, hserver⟩ := @add_alike options _ _ h record
      obtain ⟨answers, hcounting, hlisting, hlater⟩ := ih hserver
      have hfirst : (receiver (options.finding true) isCancelled).take record listing =
          ((counting.add (options.finding false) record).1,
            learn (options.finding true) listing record) :=
        Prod.ext hanswer.symm rfl
      exact ⟨_ :: answers, Scan.mapM_cons_of_eq rfl hcounting,
        Scan.mapM_cons_of_eq hfirst hlisting, hlater⟩

end Alike

theorem Tells.totals_eq {summary : Summary} {report : Statistics} {database : Nat}
    {typeName : String} {found listed : List Occurrence}
    (h : Tells summary report database typeName found listed) :
    summary.totals database typeName =
      (found.length, (found.map fun occurrence => occurrence.value.size).sum) := by
  rw [totals, tallyAt, h.tally, Tally.of?]
  split
  · rename_i hempty
    rw [List.isEmpty_iff.1 hempty]
    rfl
  · rfl

/-- Of the numbers of some values those of the big ones are all there is exactly if there are no
others. -/
theorem totals_filter_eq_iff {found : List Occurrence} {big : Occurrence → Bool} :
    ((found.filter big).length,
        ((found.filter big).map fun occurrence => occurrence.value.size).sum) =
      (found.length, (found.map fun occurrence => occurrence.value.size).sum) ↔
        ∀ occurrence ∈ found, big occurrence = true := by
  constructor
  · intro h
    exact List.length_filter_eq_length_iff.1 (Prod.mk.inj h).1
  · intro h
    rw [List.filter_eq_self.2 h]

/-- **What is withheld.** Two summaries that count all keys, of which one also looks for big ones, give
the same answers to the same records and say the same about the server. For every database and type the
one reports all values and the other the big ones alone, so that their numbers are the same exactly
where every value is big. -/
theorem report_withheld {options : Options} (hcount : options.countKeys = true)
    (records : List Record) (isCancelled : Bool) :
    ∃ (answers : List (Except Error Unit)) (counting listing : Summary)
      (all big : Statistics),
      (records.mapM (receiver (options.finding false) isCancelled).take).run .empty =
          (answers, counting) ∧
        (records.mapM (receiver (options.finding true) isCancelled).take).run .empty =
          (answers, listing) ∧
        counting.server = listing.server ∧
        counting.statisticsJson = all.json ∧ all.IsOrdered ∧
        listing.statisticsJson = big.json ∧ big.IsOrdered ∧
        ∀ database typeName,
          let found := (occurrences 0 records).filter (·.place = (database, typeName))
          let bigOnes := found.filter fun occurrence => options.IsBig occurrence.value
          Tells counting all database typeName found [] ∧
            Tells listing big database typeName bigOnes bigOnes ∧
            (listing.totals database typeName = counting.totals database typeName ↔
              ∀ occurrence ∈ found, options.IsBig occurrence.value) := by
  obtain ⟨answers, hcounting, hlisting, hserver⟩ :=
    @mapM_take_alike options _ _ (rfl : empty.server = empty.server) isCancelled records
  have hall : Accounts (options.finding false) (occurrences 0 records) _ :=
    accounts_empty.foldl_learn records
  have hbig : Accounts (options.finding true) (occurrences 0 records) _ :=
    accounts_empty.foldl_learn records
  refine ⟨answers, _, _, _, _, hcounting, hlisting, hserver, statisticsJson_eq hall.nodup,
    isOrdered_statistics hall.nodup, statisticsJson_eq hbig.nodup, isOrdered_statistics hbig.nodup,
    fun database typeName => ?_⟩
  intro found bigOnes
  have hfound : counted (options.finding false) (database, typeName) (occurrences 0 records) =
      found := by
    refine List.filter_congr fun occurrence _ => ?_
    change (_ && options.countKeys) = _
    rw [hcount, Bool.and_true]
  have hbigOnes : counted (options.finding true) (database, typeName) (occurrences 0 records) =
      bigOnes := by
    refine Eq.trans (List.filter_congr fun occurrence _ => ?_) (List.filter_filter ..).symm
    rw [Bool.and_comm]
    rfl
  have htold := hall.tells database typeName
  have htoldBig := hbig.tells database typeName
  rw [hfound] at htold
  rw [hbigOnes] at htoldBig
  refine ⟨htold, htoldBig, ?_⟩
  rw [htold.totals_eq, htoldBig.totals_eq, totals_filter_eq_iff]
  simp only [decide_eq_true_eq]

/-- One string, which is not big: it is counted, but not by a search for big keys. -/
theorem report_withheld_small :
    ∃ (counting listing : Summary) (all big : Statistics),
      let options : Options := ⟨false, true, false, 10, []⟩
      let records : List Record := [.keyed ⟨[107], 0⟩ (.string [97, 98])]
      (records.mapM (receiver (options.finding false) false).take).run .empty = ([.ok ()], counting) ∧
        (records.mapM (receiver (options.finding true) false).take).run .empty =
          ([.ok ()], listing) ∧
        counting.statisticsJson = all.json ∧ listing.statisticsJson = big.json ∧
        counting.totals 0 "String" = (1, 2) ∧ listing.totals 0 "String" = (0, 0) ∧
        all.entry? 0 "String" =
          some (.object [("count", .integer 1), ("total_size", .integer 2)]) ∧
        big.entry? 0 "String" = none := by
  let options : Options := ⟨false, true, false, 10, []⟩
  let records : List Record := [.keyed ⟨[107], 0⟩ (.string [97, 98])]
  obtain ⟨answers, counting, listing, all, big, hcounting, hlisting, -, hall, -, hbig, -, htells⟩ :=
    @report_withheld options rfl records false
  have hanswers : answers = [.ok ()] := (Prod.mk.inj hcounting).1.symm
  subst hanswers
  obtain ⟨htold, htoldBig, -⟩ := htells 0 "String"
  refine ⟨counting, listing, all, big, hcounting, hlisting, hall, hbig, ?_, ?_, ?_, ?_⟩
  · exact htold.totals_eq.trans (by decide)
  · exact htoldBig.totals_eq.trans (by decide)
  · exact htold.told.trans rfl
  · exact htoldBig.told.trans rfl

end RedisSnapshot.Summary
