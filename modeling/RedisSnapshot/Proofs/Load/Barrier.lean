import RedisSnapshot.Proofs.Load.Calls

/-!
# The selector is a barrier

Whatever happens in whichever order, every step of the caller and of a worker keeps the ledger up to
date. When the pool has been closed, the ledger has every record with a key in one batch, and in the
order of the batches no era comes behind a later one.
-/

namespace RedisSnapshot.Load

namespace Tracks

variable {options : Options} {system : System} {ledger : Ledger} {destination : Destination}

theorem proceed (h : Tracks options system ledger) (hsucceeds : destination.Succeeds)
    (number : Nat) :
    ∃ after, Tracks options
      { system with
        pool := (system.pool.proceed destination.send number system.log).1
        log := (system.pool.proceed destination.send number system.log).2 } after := by
  cases hworker : system.pool.workers[number]? with
  | none =>
      unfold Pool.proceed
      rw [hworker]
      exact ⟨ledger, h⟩
  | some worker =>
      obtain ⟨_, _, hfits⟩ := h.fits_of_worker hworker
      have hhealthy := hfits.healthy
      unfold Pool.proceed
      rw [hworker]
      cases hstage : worker.stage with
      | running | ended | died =>
          simp only [hstage]
          exact ⟨ledger, h⟩
      | holding record =>
          simp only [hstage]
          exact ⟨ledger, h.keep hworker hstage⟩
      | sending purpose =>
          simp only [hstage]
          rw [bind_apply, flush_of_succeeds hsucceeds]
          exact h.flush hworker hstage
      | changed index =>
          simp only [hstage]
          exact h.change hworker hstage
      | failing error =>
          rw [Worker.IsHealthy, hstage] at hhealthy
          cases hhealthy

theorem act (h : Tracks options system ledger) (hsucceeds : destination.Succeeds)
    {action : Pool.Action} (haction : (Move.act action).isCancellation = false) :
    ∃ after, Tracks options (system.step destination (.act action)) after := by
  cases action with
  | recheck isCancelled =>
      cases isCancelled with
      | true => cases haction
      | false =>
          change ∃ after, Tracks options { system with pool := system.pool.recheck false } after
          rw [h.recheck_eq]
          exact ⟨ledger, h⟩
  | advance => exact h.advance
  | receive number => exact h.receive number
  | listen number => exact ⟨ledger, h.listen number⟩
  | leave number => exact ⟨ledger, h.leave number⟩
  | proceed number => exact h.proceed hsucceeds number

theorem step (h : Tracks options system ledger) (hsucceeds : destination.Succeeds) {move : Move}
    (hmove : move.isCancellation = false) :
    ∃ after, Tracks options (system.step destination move) after := by
  cases move with
  | call isCancelled record =>
      cases isCancelled with
      | true => cases hmove
      | false =>
          rw [System.step]
          split
          · rename_i hcall hopen
            exact h.begin hcall hopen record
          · exact ⟨ledger, h⟩
  | close =>
      rw [System.step]
      split
      · rename_i result hcall
        exact ⟨ledger, h.shut hcall⟩
      · exact ⟨ledger, h⟩
  | cancel => cases hmove
  | act action => exact h.act hsucceeds hmove

theorem run (hsucceeds : destination.Succeeds) {moves : List Move}
    (hmoves : ∀ move ∈ moves, move.isCancellation = false) (h : Tracks options system ledger) :
    ∃ after, Tracks options (system.run destination moves) after := by
  induction moves generalizing system ledger with
  | nil => exact ⟨ledger, h⟩
  | cons move moves ih =>
      obtain ⟨after, hafter⟩ := h.step hsucceeds (hmoves move List.mem_cons_self)
      exact ih (fun candidate hmem => hmoves candidate (List.mem_cons_of_mem _ hmem)) hafter

theorem start (options : Options) :
    Tracks options (.start options)
      ⟨[], [], [], List.replicate options.workerCount ⟨[], .behind options []⟩, []⟩ where
  configured := rfl
  failure := rfl
  cancelled := rfl
  phase := by
    refine .opened rfl nofun ?_
    change (List.replicate options.workerCount (Worker.start options)).length ≠ 0
    rw [List.length_replicate, Options.workerCount]
    omega
  call := rfl
  handed := rfl
  queue := rfl
  queueEra := nofun
  taken := rfl
  lines := fun number => by
    rw [heldBy_eq_nil]
    · rfl
    · intro share hmem
      rw [List.eq_of_mem_replicate hmem]
  log := rfl
  sent := nofun
  past := nofun
  ordered := .nil
  shares := by
    rw [List.length_replicate]
    exact List.length_replicate.symm
  fit := fun number worker share hworker hshare => by
    have hmem : worker ∈ List.replicate options.workerCount (.start options) :=
      List.mem_of_getElem? hworker
    rw [List.eq_of_mem_replicate hmem, List.eq_of_mem_replicate (List.mem_of_getElem? hshare)]
    exact ⟨rfl, rfl, nofun, trivial, nofun, .settled rfl rfl, nofun⟩
  answers := by
    rw [ahead_eq_zero]
    · rfl
    · intro share hmem
      rw [List.eq_of_mem_replicate hmem]
  drained := nofun

theorem closed_of_isOver (h : Tracks options system ledger) (hover : system.isOver = true) :
    ∃ result, system.pool.call = .returned result ∧ system.pool.workers.length = 0 ∧
      ledger.queue = [] := by
  rw [System.isOver, Bool.and_eq_true] at hover
  cases h.phase with
  | opened hopen _ _ =>
      rw [hopen] at hover
      cases hover.1
  | closing _ hjoining _ =>
      rw [hjoining] at hover
      cases hover.2
  | @closed result _ hreturned hworkers hqueue =>
      have hrecords := h.queue
      rw [hqueue] at hrecords
      exact ⟨result, hreturned, hworkers, List.map_eq_nil_iff.mp hrecords.symm⟩

end Tracks

/-- As long as nothing fails and nobody cancels, no call is refused. -/
theorem returned_eq_ok {options : Options} {destination : Destination}
    (hsucceeds : destination.Succeeds) {moves : List Move}
    (hmoves : ∀ move ∈ moves, move.isCancellation = false) {result : Except Error Unit}
    (hcall : ((System.start options).run destination moves).pool.call = .returned result) :
    result = .ok () := by
  obtain ⟨_, h⟩ := (Tracks.start options).run hsucceeds hmoves
  have hsound := h.call
  rw [hcall] at hsound
  exact hsound

/-- **Barriers.** Whoever takes which step when, a pool that has been closed has written every
record with a key in one pipeline, in the database of its era and apart from other eras, the eras
one after another, and each worker has written its records in the order they were handed over. -/
theorem selectors_are_barriers {options : Options} {destination : Destination}
    (hsucceeds : destination.Succeeds) {moves : List Move}
    (hmoves : ∀ move ∈ moves, move.isCancellation = false) {final : System}
    (hfinal : final = (System.start options).run destination moves)
    (hover : final.isOver = true) :
    final.pool.call = .returned (.ok ()) ∧
      ∃ batches : List Batch,
        final.log = batches.map (Batch.pipeline options) ∧
        (batches.flatMap Batch.entries).Perm (entries options final.handed) ∧
        (∀ batch ∈ batches,
          (batch.pipeline options).commands.head? =
              some (.named "SELECT" [Decimal.bytes batch.era.database]) ∧
            batch.entries ≠ [] ∧ ∀ entry ∈ batch.entries, entry.era = batch.era) ∧
        (batches.Pairwise fun first second => first.era.selectors ≤ second.era.selectors) ∧
        ∀ number, (sentBy batches number).Pairwise fun first second =>
          first.place < second.place := by
  obtain ⟨ledger, h⟩ := (Tracks.start options).run hsucceeds hmoves
  rw [← hfinal] at h
  have hsound := h.call
  have hhanded := h.handed
  have htaken := h.taken
  obtain ⟨result, hreturned, hworkers, hqueue⟩ := h.closed_of_isOver hover
  have hshares : ledger.shares = [] := by
    rw [← List.length_eq_zero_iff, h.shares]
    exact hworkers
  have hlines : ∀ number, takenBy ledger.taken number = sentBy ledger.sent number := by
    intro number
    rw [h.lines, hshares]
    exact List.append_nil _
  rw [hreturned] at hsound hhanded
  have hok : result = .ok () := hsound
  have hbefore : ledger.before = final.handed := (List.append_nil _).symm.trans hhanded
  rw [hqueue, List.append_nil, hbefore] at htaken
  refine ⟨hok ▸ hreturned, ledger.sent, h.log, ?_, ?_, h.ordered, ?_⟩
  · rw [← htaken]
    exact perm_of_sentBy hlines
  · intro batch hmem
    exact ⟨batch.parcel.head?_commands options, h.sent batch hmem⟩
  · intro number
    rw [← hlines]
    have hplaces := entriesBehind_pairwise options [] final.handed
    rw [← entries, ← htaken] at hplaces
    exact hplaces.sublist (List.filter_sublist.map Prod.fst)

/-- Two workers, one of whom holds a record when a selector comes. -/
theorem selectors_are_barriers_two_workers :
    ∃ final : System,
      final.handed.map Record.selected? = [none, some 3, none] ∧
        final.log.map Pipeline.worker = [1, 0] ∧
        final.pool.call = .returned (.ok ()) ∧
        ∃ batches : List Batch,
          final.log = batches.map (Batch.pipeline { workers := 2 }) ∧
          (batches.flatMap Batch.entries).Perm (entries { workers := 2 } final.handed) ∧
          (∀ batch ∈ batches,
            (batch.pipeline { workers := 2 }).commands.head? =
                some (.named "SELECT" [Decimal.bytes batch.era.database]) ∧
              batch.entries ≠ [] ∧ ∀ entry ∈ batch.entries, entry.era = batch.era) ∧
          (batches.Pairwise fun first second => first.era.selectors ≤ second.era.selectors) ∧
          ∀ number, (sentBy batches number).Pairwise fun first second =>
            first.place < second.place := by
  let moves : List Move :=
    [.call false (.keyed ⟨[97], 0⟩ (.string [1])), .act .advance, .act (.receive 1),
      .call false (.selectDb 3), .act .advance, .act .advance, .act .advance,
      .act (.listen 0), .act (.proceed 0), .act (.proceed 0),
      .act (.proceed 1), .act (.listen 1), .act (.proceed 1), .act .advance, .act (.proceed 1),
      .act .advance, .act .advance, .act .advance,
      .call false (.keyed ⟨[97], 0⟩ (.string [2])), .act .advance, .act (.receive 0), .close,
      .act (.leave 1), .act (.proceed 1), .act (.proceed 0), .act (.leave 0), .act (.proceed 0),
      .act .advance, .act .advance, .act .advance]
  have hmoves : ∀ move ∈ moves, move.isCancellation = false := by decide
  have hover : ((System.start { workers := 2 }).run .agreeing moves).isOver = true := by
    decide +kernel
  exact ⟨_, by decide +kernel, by decide +kernel,
    selectors_are_barriers Destination.agreeing_succeeds hmoves rfl hover⟩

end RedisSnapshot.Load
