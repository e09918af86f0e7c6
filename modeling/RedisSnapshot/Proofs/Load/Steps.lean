import RedisSnapshot.Proofs.Load.Doomed

/-!
# What a step of a pool can do

Most of what holds of a pool at every moment holds because of the little that one step can do. It
lets a call go on, it takes note of the end of a worker, it tells the result of closing, or one
worker that has not ended does something, which brings that worker nearer to its end. Only the
second and the last of these can report a failure.
-/

namespace RedisSnapshot.Load

namespace Worker

/-- The failure that the worker has met and not told yet. -/
def untold? (worker : Worker) : Option Error :=
  match worker.stage with
  | .failing error => some error
  | _ => none

/-- The failure that is noticed when the worker is joined. -/
def death? (worker : Worker) : Option Error :=
  match worker.stage with
  | .died => some (.destination .workerDied)
  | _ => none

/-- A bound on the steps that the stage and the ones behind it take, if nothing is received. -/
def Stage.toDo : Stage → Nat
  | .running => 3
  | .holding _ => 5
  | .sending .full => 4
  | .sending (.changing _) => 5
  | .sending .leaving => 2
  | .changed _ => 4
  | .failing _ => 1
  | .ended | .died => 0

/-- A bound on the steps that the worker takes, if it receives nothing. -/
def toDo (worker : Worker) : Nat :=
  worker.stage.toDo + if worker.announced.isSome then 3 else 0

theorem isGone_of_isRunning {worker : Worker} (h : worker.isRunning = true) :
    worker.isGone = false := by
  rw [isGone, stage_of_isRunning h]

theorem toDo_of_isRunning {worker : Worker} (h : worker.isRunning = true) :
    worker.toDo = 3 + if worker.announced.isSome then 3 else 0 := by
  rw [toDo, stage_of_isRunning h]
  rfl

/-- Sending the batch brings a worker nearer to its end, whatever comes of it. -/
theorem toDo_flush_lt {worker : Worker} {purpose : Purpose}
    (hstage : worker.stage = .sending purpose) (options : Options)
    (send : List Command → StateM (List Pipeline) Execution) (log : List Pipeline) :
    (worker.flush options send purpose log).1.toDo < worker.toDo := by
  rw [flush, bind_apply]
  generalize (deliver options send worker.database worker.batch.reverse log).1 = delivered
  change toDo { worker with batch := [], stage := _ } < _
  rw [toDo, toDo, hstage]
  apply Nat.add_lt_add_right
  cases delivered <;> cases purpose <;> simp [Stage.toDo, Purpose.next]

end Worker

namespace Pool

/-- The failure that a step reports to the pool, if it does. -/
def report? (pool : Pool) : Action → Option Error
  | .proceed number => pool.workers[number]?.bind Worker.untold?
  | .advance =>
      match pool.call with
      | .joining number => pool.workers[number]?.bind Worker.death?
      | _ => none
  | _ => none

/-- What a step makes of a pool. -/
inductive Effect (pool : Pool) (action : Action) : Pool → Prop where
  | idle (hreport : pool.report? action = none) : Effect pool action pool
  /-- A call goes on that is not about the end of the workers. -/
  | calling {workers : List Worker} {queue : List Record} {changed : Nat} {call : Call}
      (hcall : pool.call.isJoining = false) (hnext : call.isJoining = false)
      (hworkers : workers.length = pool.workers.length)
      (hqueue : queue <:+ pool.queue ∨ ∃ record, pool.call = .admitting record)
      (hrest : ∀ result, pool.call ≠ .returned result)
      (hreport : pool.report? action = none) :
      Effect pool action { pool with workers, queue, changed, call }
  /-- The end of a worker is taken note of. -/
  | joining {number : Nat} {worker : Worker} {failure : Option Error}
      (hcall : pool.call = .joining number) (hworker : pool.workers[number]? = some worker)
      (hgone : worker.isGone = true) (hfailure : failure = pool.failure.or (pool.report? action)) :
      Effect pool action { pool with failure, call := .joining (number + 1) }
  /-- All workers have ended. -/
  | concluding {number : Nat} (hcall : pool.call = .joining number)
      (hworker : pool.workers[number]? = none) (haction : action = .advance) :
      Effect pool action pool.conclude
  /-- A worker goes on, and perhaps takes a record off the queue. -/
  | working {number : Nat} {worker kept : Worker} {queue : List Record} {changed : Nat}
      {failure : Option Error} (hworker : pool.workers[number]? = some worker)
      (hgone : worker.isGone = false) (hqueue : queue <:+ pool.queue)
      (hless : 3 * queue.length + kept.toDo < 3 * pool.queue.length + worker.toDo)
      (hfailure : failure = pool.failure.or (pool.report? action)) :
      Effect pool action { pool.update number kept with queue, changed, failure }

variable {pool : Pool} {number : Nat} {worker : Worker}

theorem failure_fail (error : Error) :
    (pool.fail error).failure = pool.failure.or (some error) := by
  rw [fail]
  cases pool.failure <;> rfl

/-- A call that waits goes on, and nothing else changes. -/
theorem Effect.call {action : Action} {call : Call} (hcall : pool.call.isJoining = false)
    (hnext : call.isJoining = false) (hrest : ∀ result, pool.call ≠ .returned result)
    (hreport : pool.report? action = none) : pool.Effect action { pool with call } :=
  .calling hcall hnext rfl (.inl List.suffix_rfl) hrest hreport

theorem effect_recheck (isCancelled : Bool) :
    pool.Effect (.recheck isCancelled) (pool.recheck isCancelled) := by
  have hstop : ∀ error, pool.call.isJoining = false → (∀ result, pool.call ≠ .returned result) →
      pool.Effect (.recheck isCancelled) (pool.returning (.error error)) :=
    fun error hcall hrest => .call hcall rfl hrest rfl
  unfold recheck
  split <;> rename_i hcall _
  · exact hstop _ (by rw [hcall]; rfl) (by simp [hcall])
  · exact hstop _ (by rw [hcall]; rfl) (by simp [hcall])
  · exact hstop _ (by rw [hcall]; rfl) (by simp [hcall])
  · exact .idle rfl

theorem report?_advance (h : pool.call.isJoining = false) : pool.report? .advance = none := by
  rw [report?]
  split
  · rename_i hcall
    rw [hcall] at h
    cases h
  · rfl

theorem effect_advance : pool.Effect .advance pool.advance := by
  unfold advance
  cases hcall : pool.call with
  | returned result => exact .idle (report?_advance (by rw [hcall]; rfl))
  | admitting record =>
      have hopen : pool.call.isJoining = false := by rw [hcall]; rfl
      have hrest : ∀ result, pool.call ≠ .returned result := by simp [hcall]
      have hreport := report?_advance hopen
      simp only [enqueue]
      split
      · exact .call hopen rfl hrest hreport
      · split
        · exact .calling hopen rfl rfl (.inr ⟨record, hcall⟩) hrest hreport
        · exact .idle hreport
  | draining index =>
      have hopen : pool.call.isJoining = false := by rw [hcall]; rfl
      have hrest : ∀ result, pool.call ≠ .returned result := by simp [hcall]
      have hreport := report?_advance hopen
      simp only [drain]
      split
      · exact .call hopen rfl hrest hreport
      · exact .idle hreport
  | switching index told gathered =>
      have hopen : pool.call.isJoining = false := by rw [hcall]; rfl
      have hrest : ∀ result, pool.call ≠ .returned result := by simp [hcall]
      have hreport := report?_advance hopen
      cases hworker : pool.workers[told]? with
      | some worker =>
          simp only [hworker, announce]
          split
          · exact .call hopen rfl hrest hreport
          · split
            · exact .calling hopen rfl List.length_set (.inl List.suffix_rfl) hrest hreport
            · exact .idle hreport
      | none =>
          simp only [hworker, gather]
          split
          · exact .call hopen rfl hrest hreport
          · split
            · exact .calling hopen rfl rfl (.inl List.suffix_rfl) hrest hreport
            · split
              · exact .call hopen rfl hrest hreport
              · exact .idle hreport
  | joining number =>
      cases hworker : pool.workers[number]? with
      | none =>
          simp only [hworker]
          exact .concluding hcall hworker rfl
      | some worker =>
          have hreport : pool.report? .advance = worker.death? := by
            rw [report?, hcall]
            simp only [hworker, Option.bind_some]
          simp only [hworker, join]
          cases hstage : worker.stage with
          | ended =>
              have hgone : worker.isGone = true := by rw [Worker.isGone, hstage]
              have hnone : pool.report? .advance = none := by rw [hreport, Worker.death?, hstage]
              exact .joining hcall hworker hgone (by rw [hnone, Option.or_none])
          | died =>
              have hgone : worker.isGone = true := by rw [Worker.isGone, hstage]
              have hdeath : worker.death? = some (.destination .workerDied) := by
                rw [Worker.death?, hstage]
              exact .joining hcall hworker hgone (by rw [hreport, hdeath, failure_fail])
          | _ => exact .idle (by rw [hreport, Worker.death?, hstage])

theorem effect_receive : pool.Effect (.receive number) (pool.receive number) := by
  unfold receive
  split
  · rename_i worker record queue hworker hqueue
    split
    · rename_i hrunning
      refine .working hworker (Worker.isGone_of_isRunning hrunning) ?_ ?_ Option.or_none.symm
      · rw [hqueue]
        exact List.suffix_cons record queue
      · rw [hqueue, Worker.toDo_of_isRunning hrunning, List.length_cons, Worker.toDo,
          Worker.Stage.toDo]
        dsimp only
        omega
    · exact .idle rfl
  · exact .idle rfl

theorem effect_listen : pool.Effect (.listen number) (pool.listen number) := by
  unfold listen
  split
  · rename_i worker hworker
    split
    · rename_i index hrunning hannounced
      refine .working hworker (Worker.isGone_of_isRunning hrunning) List.suffix_rfl ?_
        Option.or_none.symm
      rw [Worker.toDo_of_isRunning hrunning, hannounced, Worker.toDo, Worker.Stage.toDo]
      simp
    · exact .idle rfl
  · exact .idle rfl

theorem effect_leave : pool.Effect (.leave number) (pool.leave number) := by
  unfold leave
  split
  · rename_i worker hworker
    split
    · rename_i hleaves
      have hrunning : worker.isRunning = true := by
        rw [Bool.and_eq_true] at hleaves
        exact hleaves.1
      refine .working hworker (Worker.isGone_of_isRunning hrunning) List.suffix_rfl ?_
        Option.or_none.symm
      rw [Worker.toDo_of_isRunning hrunning, Worker.toDo, Worker.Stage.toDo]
      dsimp only
      omega
    · exact .idle rfl
  · exact .idle rfl

/-- A worker that is about to do something does it. -/
theorem proceed_of_busy (hworker : pool.workers[number]? = some worker)
    (hrunning : worker.isRunning = false) (hgone : worker.isGone = false)
    (send : Nat → List Command → StateM (List Pipeline) Execution) (log : List Pipeline) :
    ∃ kept changed failure, (pool.proceed send number log).1 =
        { pool.update number kept with changed, failure } ∧
      kept.toDo < worker.toDo ∧ failure = pool.failure.or worker.untold? := by
  unfold proceed
  rw [hworker]
  cases hstage : worker.stage with
  | running =>
      rw [Worker.isRunning, hstage] at hrunning
      cases hrunning
  | ended | died =>
      rw [Worker.isGone, hstage] at hgone
      cases hgone
  | holding record =>
      simp only [hstage]
      refine ⟨_, _, _, rfl, ?_, by rw [Worker.untold?, hstage, Option.or_none]⟩
      rw [Worker.keep, Worker.toDo, Worker.toDo, hstage]
      dsimp only
      split <;> simp [Worker.Stage.toDo]
  | sending purpose =>
      simp only [hstage]
      exact ⟨_, _, _, rfl, Worker.toDo_flush_lt hstage _ _ _,
        by rw [Worker.untold?, hstage, Option.or_none]⟩
  | changed index =>
      simp only [hstage]
      refine ⟨_, _, _, rfl, ?_, by rw [Worker.untold?, hstage, Option.or_none]; rfl⟩
      rw [Worker.change, Worker.toDo, Worker.toDo, hstage]
      simp [Worker.Stage.toDo]
  | failing error =>
      simp only [hstage]
      have huntold : worker.untold? = some error := by rw [Worker.untold?, hstage]
      refine ⟨_, _, _, rfl, ?_, by rw [huntold, ← failure_fail]⟩
      rw [Worker.toDo, Worker.toDo, hstage]
      simp [Worker.Stage.toDo]

theorem proceed_of_idle (hworker : pool.workers[number]? = some worker)
    (hidle : worker.isRunning = true ∨ worker.isGone = true)
    (send : Nat → List Command → StateM (List Pipeline) Execution) (log : List Pipeline) :
    (pool.proceed send number log).1 = pool ∧ worker.untold? = none := by
  unfold proceed
  rw [hworker]
  cases hstage : worker.stage with
  | running | ended | died =>
      simp only [hstage]
      exact ⟨rfl, by rw [Worker.untold?, hstage]⟩
  | _ =>
      rw [Worker.isRunning, Worker.isGone, hstage] at hidle
      rcases hidle with hidle | hidle <;> cases hidle

theorem effect_proceed (send : Nat → List Command → StateM (List Pipeline) Execution)
    (log : List Pipeline) : pool.Effect (.proceed number) (pool.proceed send number log).1 := by
  cases hworker : pool.workers[number]? with
  | none =>
      unfold proceed
      rw [hworker]
      exact .idle (by rw [report?, hworker]; rfl)
  | some worker =>
      have hreport : pool.report? (.proceed number) = worker.untold? := by
        rw [report?, hworker]
        rfl
      by_cases hidle : worker.isRunning = true ∨ worker.isGone = true
      · obtain ⟨hsame, hnone⟩ := proceed_of_idle hworker hidle send log
        rw [hsame]
        exact .idle (hreport.trans hnone)
      · obtain ⟨hrunning, hgone⟩ := not_or.1 hidle
        rw [Bool.not_eq_true] at hrunning hgone
        obtain ⟨kept, changed, failure, hafter, hless, hfailure⟩ :=
          proceed_of_busy hworker hrunning hgone send log
        rw [hafter]
        exact .working hworker hgone List.suffix_rfl (Nat.add_lt_add_left hless _)
          (hfailure.trans (by rw [hreport]))

/-- **A step of a pool has one of five effects.** -/
theorem effect_step (send : Nat → List Command → StateM (List Pipeline) Execution)
    (action : Action) (log : List Pipeline) : pool.Effect action (pool.step send action log).1 := by
  cases action with
  | recheck isCancelled => exact effect_recheck isCancelled
  | advance => exact effect_advance
  | receive number => exact effect_receive
  | listen number => exact effect_listen
  | leave number => exact effect_leave
  | proceed number => exact effect_proceed send log

end Pool

end RedisSnapshot.Load
