import RedisSnapshot.Proofs.Load.Doomed

/-!
# What one worker delivers

A load with one worker is on its way, doomed or over. If it is over and nobody was told of a
failure, then the parcels of all records that were handed over have been delivered one after
another, whoever took which step when. Nothing can go wrong with a destination that agrees to
everything, and then what is sent is known in advance, and so it is that the load comes to its end.
-/

namespace RedisSnapshot.Load

theorem Pool.Concluded.step_eq {pool : Pool} {result : Except Error Unit}
    (h : pool.Concluded result) (send : Nat → List Command → StateM (List Pipeline) Execution)
    (action : Pool.Action) (log : List Pipeline) : pool.step send action log = (pool, log) := by
  have hnone : ∀ number : Nat, pool.workers[number]? = none := by
    rw [h.workers]
    exact fun _ => rfl
  cases action with
  | recheck isCancelled =>
      change (pool.recheck isCancelled, log) = _
      rw [Pool.recheck, h.call]
  | advance =>
      change (pool.advance, log) = _
      rw [Pool.advance, h.call]
  | receive number =>
      change (pool.receive number, log) = _
      rw [Pool.receive, hnone]
  | listen number =>
      change (pool.listen number, log) = _
      rw [Pool.listen, hnone]
  | leave number =>
      change (pool.leave number, log) = _
      rw [Pool.leave, hnone]
  | proceed number =>
      change pool.proceed send number log = _
      unfold Pool.proceed
      rw [hnone]
      rfl

/-- A load with one worker, at any moment. -/
inductive Follows (options : Options) (destination : Destination) (system : System) : Prop where
  | underWay {worker : Worker} {sent : List Parcel}
      (h : Solo options destination system worker sent)
  | doomed {worker : Worker} (h : Doomed system.pool worker)
  | finished {result : Except Error Unit} (h : system.pool.Concluded result)
      (hsends : result = .ok () →
        Sends options destination (parcels options system.handed) system.log)

def Move.isClosing : Move → Bool
  | close => true
  | call .. | cancel | act _ => false

section Steps

variable {options : Options} {destination : Destination} {system : System} {worker : Worker}
  {sent : List Parcel}

theorem Solo.advance (h : Solo options destination system worker sent) :
    Follows options destination { system with pool := system.pool.advance } := by
  unfold Pool.advance
  cases hcall : system.pool.call with
  | returned result => exact .underWay h
  | admitting record => exact .underWay (h.enqueue hcall)
  | draining index => exact .underWay (h.drain hcall)
  | switching index told gathered =>
      simp only
      cases h.stands with
      | untold _ hswitching _ _ _ =>
          rw [hcall] at hswitching
          cases hswitching
          rw [h.workers]
          exact .underWay (h.announce hcall)
      | told _ hswitching _ _ _ | answered _ hswitching _ _ _ =>
          rw [hcall] at hswitching
          cases hswitching
          rw [h.workers]
          exact .underWay (h.gather hcall)
      | apart _ hother _ _ | joining _ hother _ _ _ =>
          rw [hcall] at hother
          cases hother
  | joining next =>
      simp only
      cases next with
      | zero =>
          rw [h.workers]
          exact .underWay (h.join hcall)
      | succ next =>
          cases h.stands with
          | joining hclosed _ _ _ _ =>
              rw [h.workers]
              refine @Follows.finished _ _ _ (.ok ()) ⟨hclosed, rfl, ?_⟩
                fun _ => h.sends_of_joined hcall
              rw [List.getElem?_cons_succ, List.getElem?_nil]
              simp only
              rw [Pool.conclude, h.failure]
          | apart _ hother _ _ | untold _ hother _ _ _ | told _ hother _ _ _
          | answered _ hother _ _ _ =>
              rw [hcall] at hother
              cases hother

theorem Solo.proceed_sending (h : Solo options destination system worker sent)
    {purpose : Worker.Purpose} (hstage : worker.stage = .sending purpose) :
    Follows options destination
      { system with
        pool := system.pool.update 0
          (worker.flush options (destination.send 0) purpose system.log).1
        log := (worker.flush options (destination.send 0) purpose system.log).2 } := by
  have hfailed : ∀ kept : Worker, kept.hasFailed = true → ∀ log,
      Follows options destination { system with pool := system.pool.update 0 kept, log } := by
    intro kept hkept log
    refine @Follows.doomed _ _ _ kept
      ⟨Pool.workers_update h.workers kept, h.isClosed_iff, .inr ⟨hkept, fun next hnext => ?_⟩⟩
    -- A worker who is joined has ended and has nothing to send.
    apply Nat.eq_zero_of_not_pos
    intro hpositive
    rw [h.ended_of_joining hnext hpositive] at hstage
    cases hstage
  cases hdelivered : deliver options (destination.send 0) worker.database worker.batch.reverse
      system.log with
  | mk delivered after =>
      rw [Worker.flush, bind_apply, hdelivered]
      cases delivered with
      | done => exact .underWay (h.flush hstage hdelivered)
      | failed error => exact hfailed { worker with batch := [], stage := .failing error } rfl after
      | died => exact hfailed { worker with batch := [], stage := .died } rfl after

theorem Solo.proceed (h : Solo options destination system worker sent) (number : Nat) :
    Follows options destination
      { system with
        pool := (system.pool.proceed destination.send number system.log).1
        log := (system.pool.proceed destination.send number system.log).2 } := by
  unfold Pool.proceed
  cases hworker : system.pool.workers[number]? with
  | none => exact .underWay h
  | some found =>
      obtain ⟨rfl, rfl⟩ := Pool.only_worker h.workers hworker
      have hhealthy := h.healthy
      cases hstage : found.stage with
      | running | ended | died =>
          simp only [hstage]
          exact .underWay h
      | holding record =>
          simp only [hstage]
          rw [h.configured]
          exact .underWay (h.keep hstage)
      | sending purpose =>
          simp only [hstage]
          rw [h.configured]
          exact h.proceed_sending hstage
      | changed index =>
          simp only [hstage]
          exact .underWay (h.change hstage)
      | failing error =>
          rw [Worker.IsHealthy, hstage] at hhealthy
          cases hhealthy

theorem Doomed.advance (h : Doomed system.pool worker) :
    Follows options destination { system with pool := system.pool.advance } := by
  unfold Pool.advance
  cases hcall : system.pool.call with
  | returned result => exact .doomed h
  | admitting record => exact .doomed (h.enqueue hcall)
  | draining index => exact .doomed (h.drain hcall)
  | switching index told gathered =>
      simp only
      split
      · rename_i found hworker
        obtain ⟨rfl, rfl⟩ := Pool.only_worker h.workers hworker
        obtain ⟨after, hafter⟩ := h.announce hcall
        exact .doomed hafter
      · exact .doomed (h.gather hcall)
  | joining next =>
      simp only
      split
      · rename_i found hworker
        obtain ⟨rfl, rfl⟩ := Pool.only_worker h.workers hworker
        exact .doomed (h.join hcall)
      · rename_i hworker
        cases next with
        | zero =>
            rw [h.workers] at hworker
            cases hworker
        | succ next =>
            obtain ⟨error, herror⟩ := h.conclude hcall
            exact .finished ⟨h.closing.2 ⟨_, hcall⟩, rfl, herror⟩ nofun

namespace Follows

theorem act (h : Follows options destination system) {action : Pool.Action}
    (haction : (Move.act action).isCancellation = false) :
    Follows options destination (system.step destination (.act action)) := by
  cases h with
  | underWay h =>
      cases action with
      | recheck isCancelled =>
          cases isCancelled with
          | true => cases haction
          | false =>
              change Follows options destination { system with pool := system.pool.recheck false }
              rw [h.recheck_eq]
              exact .underWay h
      | advance => exact h.advance
      | receive number =>
          obtain ⟨after, hafter⟩ := h.receive number
          exact .underWay hafter
      | listen number =>
          obtain ⟨after, hafter⟩ := h.listen number
          exact .underWay hafter
      | leave number =>
          obtain ⟨after, hafter⟩ := h.leave number
          exact .underWay hafter
      | proceed number => exact h.proceed number
  | doomed h =>
      cases action with
      | recheck isCancelled => exact .doomed (h.recheck isCancelled)
      | advance => exact h.advance
      | receive number =>
          obtain ⟨after, hafter⟩ := h.receive number
          exact .doomed hafter
      | listen number =>
          obtain ⟨after, hafter⟩ := h.listen number
          exact .doomed hafter
      | leave number =>
          obtain ⟨after, hafter⟩ := h.leave number
          exact .doomed hafter
      | proceed number =>
          obtain ⟨after, hafter⟩ := h.proceed destination.send number system.log
          exact .doomed hafter
  | finished h hsends =>
      have hsame : system.step destination (.act action) = system := by
        have hstep : (system.pool.step destination.send action).run system.log =
            (system.pool, system.log) := h.step_eq destination.send action system.log
        rw [System.step, hstep]
      rw [hsame]
      exact .finished h hsends

theorem step (h : Follows options destination system) {move : Move}
    (hcancellation : move.isCancellation = false) (hclosing : move.isClosing = false) :
    Follows options destination (system.step destination move) := by
  cases move with
  | close => cases hclosing
  | cancel => cases hcancellation
  | act action => exact h.act hcancellation
  | call isCancelled record =>
      cases isCancelled with
      | true => cases hcancellation
      | false =>
          rw [System.step]
          split
          · rename_i hcall hopen
            cases h with
            | underWay h => exact .underWay (h.begin hcall record)
            | doomed h => exact .doomed (h.begin hcall false record)
            | finished h _ =>
                rw [h.closed] at hopen
                cases hopen
          · exact h

theorem run {moves : List Move} (hcancellations : ∀ move ∈ moves, move.isCancellation = false)
    (hclosings : ∀ move ∈ moves, move.isClosing = false)
    (h : Follows options destination system) :
    Follows options destination (system.run destination moves) := by
  induction moves generalizing system with
  | nil => exact h
  | cons move moves ih =>
      have hstep := h.step (hcancellations move List.mem_cons_self)
        (hclosings move List.mem_cons_self)
      exact ih (fun candidate hmem => hcancellations candidate (List.mem_cons_of_mem _ hmem))
        (fun candidate hmem => hclosings candidate (List.mem_cons_of_mem _ hmem)) hstep

theorem close (h : Follows options destination system) (hopen : system.pool.isClosed = false) :
    Follows options destination (system.step destination .close) := by
  rw [System.step]
  split
  · rename_i hcall
    cases h with
    | underWay h => exact .underWay (h.shut hcall)
    | doomed h => exact .doomed h.shut
    | finished h _ =>
        rw [h.closed] at hopen
        cases hopen
  · exact h

theorem sends_of_isOver (h : Follows options destination system) (hover : system.isOver = true)
    (hcall : system.pool.call = .returned (.ok ())) :
    Sends options destination (parcels options system.handed) system.log := by
  rw [System.isOver, hcall, Bool.and_true] at hover
  cases h with
  | underWay h =>
      obtain ⟨next, hjoining⟩ := h.isClosed_iff.1 hover
      rw [hcall] at hjoining
      cases hjoining
  | doomed h =>
      obtain ⟨next, hjoining⟩ := h.closing.1 hover
      rw [hcall] at hjoining
      cases hjoining
  | finished h hsends =>
      have hresult := h.call.symm.trans hcall
      cases hresult
      exact hsends rfl

end Follows

/-! ### Closing once -/

/-- Nobody who takes a step closes the pool or cancels it. -/
theorem Pool.flags_step (pool : Pool)
    (send : Nat → List Command → StateM (List Pipeline) Execution) (action : Pool.Action)
    (log : List Pipeline) :
    (pool.step send action log).1.isClosed = pool.isClosed ∧
      (pool.step send action log).1.isCancelled = pool.isCancelled := by
  cases action with
  | recheck isCancelled =>
      change (pool.recheck isCancelled).isClosed = _ ∧ (pool.recheck isCancelled).isCancelled = _
      unfold Pool.recheck
      split <;> exact ⟨rfl, rfl⟩
  | advance =>
      change pool.advance.isClosed = _ ∧ pool.advance.isCancelled = _
      unfold Pool.advance Pool.enqueue Pool.drain Pool.announce Pool.gather Pool.join
      repeat' split
      all_goals exact ⟨rfl, rfl⟩
  | receive number =>
      change (pool.receive number).isClosed = _ ∧ (pool.receive number).isCancelled = _
      unfold Pool.receive
      repeat' split
      all_goals exact ⟨rfl, rfl⟩
  | listen number =>
      change (pool.listen number).isClosed = _ ∧ (pool.listen number).isCancelled = _
      unfold Pool.listen
      repeat' split
      all_goals exact ⟨rfl, rfl⟩
  | leave number =>
      change (pool.leave number).isClosed = _ ∧ (pool.leave number).isCancelled = _
      unfold Pool.leave
      repeat' split
      all_goals exact ⟨rfl, rfl⟩
  | proceed number =>
      change (pool.proceed send number log).1.isClosed = _ ∧
        (pool.proceed send number log).1.isCancelled = _
      unfold Pool.proceed
      cases pool.workers[number]? with
      | none => exact ⟨rfl, rfl⟩
      | some worker => cases hstage : worker.stage <;> simp only [hstage] <;> exact ⟨rfl, rfl⟩

theorem isClosed_run {moves : List Move} (hclosings : ∀ move ∈ moves, move.isClosing = false) :
    (system.run destination moves).pool.isClosed = system.pool.isClosed := by
  induction moves generalizing system with
  | nil => rfl
  | cons move moves ih =>
      have hstep : (system.step destination move).pool.isClosed = system.pool.isClosed := by
        cases move with
        | close =>
            have hclosing := hclosings .close List.mem_cons_self
            cases hclosing
        | cancel => rfl
        | act action => exact (system.pool.flags_step destination.send action system.log).1
        | call isCancelled record =>
            rw [System.step]
            split <;> rfl
      rw [← hstep]
      exact ih fun candidate hmem => hclosings candidate (List.mem_cons_of_mem _ hmem)

/-- Records are handed over to one worker and then the pool is closed. -/
theorem sends_parcels (hone : options.workerCount = 1) {handing ending : List Move}
    (hmoves : ∀ move ∈ handing ++ ending, move.isCancellation = false ∧ move.isClosing = false)
    {final : System}
    (hfinal : final = (System.start options).run destination (handing ++ .close :: ending))
    (hover : final.isOver = true) (hcall : final.pool.call = .returned (.ok ())) :
    Sends options destination (parcels options final.handed) final.log := by
  have hhanding : ∀ move ∈ handing, move.isCancellation = false ∧ move.isClosing = false :=
    fun move hmem => hmoves move (List.mem_append_left _ hmem)
  have hending : ∀ move ∈ ending, move.isCancellation = false ∧ move.isClosing = false :=
    fun move hmem => hmoves move (List.mem_append_right _ hmem)
  have hstart : Follows options destination (.start options) := .underWay (Solo.start hone)
  have hhanded := hstart.run (fun move hmem => (hhanding move hmem).1)
    fun move hmem => (hhanding move hmem).2
  have hopen : ((System.start options).run destination handing).pool.isClosed = false :=
    isClosed_run fun move hmem => (hhanding move hmem).2
  have hended := (hhanded.close hopen).run (fun move hmem => (hending move hmem).1)
    fun move hmem => (hending move hmem).2
  have hsame : final = (((System.start options).run destination handing).step destination
      .close).run destination ending := by
    rw [hfinal, System.run, List.foldl_append]
    rfl
  rw [← hsame] at hended
  exact hended.sends_of_isOver hover hcall

end Steps

end RedisSnapshot.Load
