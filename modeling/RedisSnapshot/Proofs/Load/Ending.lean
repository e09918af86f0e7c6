import RedisSnapshot.Proofs.Load.Latch

/-!
# Closing comes to its end

Once a pool is closed, every step that changes anything brings it nearer to its end, and there is
always somebody whose step does. So closing comes to its end if everybody takes a turn again and
again, in whatever order, and the destination answers as it likes.
-/

namespace RedisSnapshot.Load

/-- A bound on the steps until everybody has ended and that was taken note of. -/
def Call.toDo (workers : Nat) : Call → Nat
  | .joining number => 1 + (workers - number)
  | .returned _ | .admitting _ | .draining _ | .switching .. => 0

def workersToDo : List Worker → Nat
  | [] => 0
  | worker :: workers => worker.toDo + workersToDo workers

namespace Pool

def toDo (pool : Pool) : Nat :=
  3 * pool.queue.length + workersToDo pool.workers + pool.call.toDo pool.workers.length

/-- A step that brings a closed pool nearer to its end: one of the worker that is waited for, or
else the next one of the caller. -/
def due (pool : Pool) : Action :=
  match pool.call with
  | .joining number =>
      match pool.workers[number]? with
      | some worker =>
          if worker.isGone then .advance
          else if worker.isRunning then
            if pool.queue.isEmpty then .leave number else .receive number
          else .proceed number
      | none => .advance
  | _ => .advance

variable {pool after : Pool} {number : Nat} {worker : Worker}

theorem workersToDo_set {workers : List Worker} (h : workers[number]? = some worker)
    (kept : Worker) :
    workersToDo (workers.set number kept) + worker.toDo = workersToDo workers + kept.toDo := by
  induction workers generalizing number with
  | nil => cases h
  | cons first rest ih =>
      cases number with
      | zero =>
          cases h
          simp only [List.set_cons_zero, workersToDo]
          omega
      | succ number =>
          have hrest := ih h
          simp only [List.set_cons_succ, workersToDo]
          omega

theorem toDo_update_lt {kept : Worker} {queue : List Record} {changed : Nat}
    {failure : Option Error} (hworker : pool.workers[number]? = some worker)
    (hless : 3 * queue.length + kept.toDo < 3 * pool.queue.length + worker.toDo) :
    toDo { pool.update number kept with queue, changed, failure } < pool.toDo := by
  have hsum := workersToDo_set hworker kept
  simp only [toDo, update, List.length_set]
  omega

/-- A step of a closed pool changes nothing or brings it nearer to its end. -/
theorem Effect.toDo_lt {action : Action} (hcall : pool.call = .joining number)
    (h : pool.Effect action after) : after = pool ∨ after.toDo < pool.toDo := by
  cases h with
  | idle => exact .inl rfl
  | calling hother =>
      rw [hcall] at hother
      cases hother
  | joining hother hworker =>
      rw [hcall] at hother
      cases hother
      have hless := (List.getElem?_eq_some_iff.1 hworker).1
      right
      simp only [toDo, hcall, Call.toDo]
      omega
  | concluding =>
      right
      simp only [toDo, hcall, Call.toDo, conclude, workersToDo]
      omega
  | working hworker _ _ hless => exact .inr (toDo_update_lt hworker hless)

/-- The caller takes note of the end of a worker, or that there is no worker left. -/
theorem advance_ne (hcall : pool.call = .joining number)
    (hgone : ∀ worker, pool.workers[number]? = some worker → worker.isGone = true) :
    pool.advance ≠ pool := by
  intro hsame
  have hother : pool.advance.call = .joining number := by rw [hsame, hcall]
  rw [advance, hcall] at hother
  cases hworker : pool.workers[number]? with
  | none =>
      simp only [hworker] at hother
      cases hother
  | some worker =>
      simp only [hworker, join] at hother
      have hstage := hgone worker hworker
      rw [Worker.isGone] at hstage
      split at hstage <;> rename_i heq
      · rw [heq] at hother
        exact absurd (Call.joining.inj hother) (Nat.succ_ne_self number)
      · rw [heq] at hother
        exact absurd (Call.joining.inj hother) (Nat.succ_ne_self number)
      · cases hstage

theorem toDo_leave_lt (hworker : pool.workers[number]? = some worker)
    (hrunning : worker.isRunning = true) (hending : pool.isEnding = true) :
    (pool.leave number).toDo < pool.toDo := by
  have hafter : pool.leave number =
      pool.update number { worker with stage := .sending .leaving } := by
    rw [leave, hworker]
    simp only [hrunning, hending, Bool.and_self, if_true]
  rw [hafter]
  apply toDo_update_lt hworker
  rw [Worker.toDo_of_isRunning hrunning, Worker.toDo, Worker.Stage.toDo]
  dsimp only
  omega

theorem toDo_receive_lt (hworker : pool.workers[number]? = some worker)
    (hrunning : worker.isRunning = true) (hqueue : pool.queue ≠ []) :
    (pool.receive number).toDo < pool.toDo := by
  obtain ⟨record, queue, hqueue⟩ := List.exists_cons_of_ne_nil hqueue
  have hafter : pool.receive number =
      { pool.update number { worker with stage := .holding record } with queue } := by
    rw [receive, hworker, hqueue]
    simp only [hrunning, if_true]
  rw [hafter]
  apply toDo_update_lt hworker
  rw [hqueue, Worker.toDo_of_isRunning hrunning, List.length_cons, Worker.toDo, Worker.Stage.toDo]
  dsimp only
  omega

/-- The step that is due brings a closed pool nearer to its end. -/
theorem toDo_due_lt (hclosed : pool.isClosed = true) (hcall : pool.call = .joining number)
    (send : Nat → List Command → StateM (List Pipeline) Execution) (log : List Pipeline) :
    (pool.step send pool.due log).1.toDo < pool.toDo := by
  have hadvance : (∀ worker, pool.workers[number]? = some worker → worker.isGone = true) →
      pool.advance.toDo < pool.toDo := fun hgone =>
    (effect_advance.toDo_lt hcall).resolve_left (advance_ne hcall hgone)
  unfold due
  rw [hcall]
  cases hworker : pool.workers[number]? with
  | none =>
      simp only [hworker]
      exact hadvance fun worker hother => by rw [hworker] at hother; cases hother
  | some worker =>
      simp only [hworker]
      by_cases hgone : worker.isGone = true
      · rw [if_pos hgone]
        exact hadvance fun other hother => by rw [hworker] at hother; cases hother; exact hgone
      rw [if_neg hgone]
      by_cases hrunning : worker.isRunning = true
      · rw [if_pos hrunning]
        by_cases hqueue : pool.queue = []
        · have hending : pool.isEnding = true := by
            rw [isEnding, hclosed, hqueue]
            simp
          rw [hqueue, if_pos List.isEmpty_nil]
          exact toDo_leave_lt hworker hrunning hending
        · rw [if_neg (by simp [hqueue])]
          exact toDo_receive_lt hworker hrunning hqueue
      · rw [if_neg hrunning]
        rw [Bool.not_eq_true] at hrunning hgone
        obtain ⟨kept, changed, failure, hafter, hless, _⟩ :=
          proceed_of_busy hworker hrunning hgone send log
        change (pool.proceed send number log).1.toDo < pool.toDo
        rw [hafter]
        exact toDo_update_lt hworker (Nat.add_lt_add_left hless _)

end Pool

/-! ### Fair schedules -/

/-- At every moment somebody makes a move, and the turns of the caller and of each worker do not
end. Closing is not begun again. -/
structure IsFair (workers : Nat) (schedule : Nat → Move) : Prop where
  closing : ∀ time, (schedule time).isClosing = false
  caller : ∀ time, ∃ later ≥ time, schedule later = .act .advance
  worker : ∀ number < workers, ∀ action : Pool.Action,
    action ∈ [.receive number, .leave number, .proceed number] →
      ∀ time, ∃ later ≥ time, schedule later = .act action

/-- The moves in front of a moment. -/
def movesUntil (schedule : Nat → Move) (time : Nat) : List Move :=
  (List.range time).map schedule

section Schedules

variable {workers : Nat} {schedule : Nat → Move} {options : Options} {destination : Destination}
  {system : System} {reports : List Error} {closings : Nat}

theorem movesUntil_succ (schedule : Nat → Move) (time : Nat) :
    movesUntil schedule (time + 1) =
      schedule 0 :: movesUntil (fun later => schedule (later + 1)) time := by
  rw [movesUntil, List.range_succ_eq_map, List.map_cons, List.map_map]
  rfl

theorem IsFair.tail (h : IsFair workers schedule) :
    IsFair workers fun time => schedule (time + 1) := by
  have hlater : ∀ {move : Move}, (∀ time, ∃ later ≥ time, schedule later = move) →
      ∀ time, ∃ later ≥ time, schedule (later + 1) = move := by
    intro move hturns time
    obtain ⟨later, hle, hmove⟩ := hturns (time + 1)
    obtain ⟨before, rfl⟩ := Nat.exists_eq_add_of_le' hle
    exact ⟨before + time, Nat.le_add_left .., hmove⟩
  exact ⟨fun time => h.closing (time + 1), hlater h.caller,
    fun number hless action haction => hlater (h.worker number hless action haction)⟩

theorem IsFair.due (h : IsFair workers schedule) {pool : Pool}
    (hlength : pool.workers.length ≤ workers) : ∃ time, schedule time = .act pool.due := by
  have hcaller : ∃ time, schedule time = .act .advance := by
    obtain ⟨time, _, hmove⟩ := h.caller 0
    exact ⟨time, hmove⟩
  unfold Pool.due
  split
  · rename_i number _
    split
    · rename_i worker hworker
      have hless : number < workers := by
        have hless := (List.getElem?_eq_some_iff.1 hworker).1
        omega
      have hworks : ∀ action : Pool.Action,
          action ∈ [.receive number, .leave number, .proceed number] →
            ∃ time, schedule time = .act action := by
        intro action haction
        obtain ⟨time, _, hmove⟩ := h.worker number hless action haction 0
        exact ⟨time, hmove⟩
      split
      · exact hcaller
      · split
        · split
          · exact hworks _ (by simp)
          · exact hworks _ (by simp)
        · exact hworks _ (by simp)
    · exact hcaller
  · exact hcaller

/-- What a move makes of a pool that is being closed. -/
theorem step_of_joining {number : Nat} (hcall : system.pool.call = .joining number) (move : Move) :
    (∃ isCancelled, (system.step destination move).pool = { system.pool with isCancelled }) ∨
      (system.step destination move).pool.toDo < system.pool.toDo := by
  cases move with
  | act action =>
      rcases (Pool.effect_step destination.send action system.log).toDo_lt hcall with hsame | hless
      · exact .inl ⟨system.pool.isCancelled, hsame⟩
      · exact .inr hless
  | cancel => exact .inl ⟨true, rfl⟩
  | close =>
      refine .inl ⟨system.pool.isCancelled, ?_⟩
      rw [System.step, hcall]
  | call isCancelled record =>
      refine .inl ⟨system.pool.isCancelled, ?_⟩
      rw [System.step, hcall]

theorem Pool.Course.joining_of_closing (h : system.pool.Course options reports closings)
    (hclosing : 1 ≤ closings) (hover : system.isOver = false) :
    system.pool.isClosed = true ∧ system.pool.workers.length ≤ options.workerCount ∧
      ∃ number, system.pool.call = .joining number := by
  have hreturned : ∀ {result}, system.pool.isClosed = true →
      system.pool.call ≠ .returned result := by
    intro result hclosed hcall
    rw [System.isOver_of_returned hclosed hcall] at hover
    cases hover
  cases h with
  | underWay => omega
  | ending hclosed hcall hworkers => exact ⟨hclosed, Nat.le_of_eq hworkers, _, hcall⟩
  | done h => exact absurd h.call (hreturned h.closed)
  | again hclosed hworkers _ hcall =>
      rw [hworkers]
      exact ⟨hclosed, Nat.zero_le _, 0, hcall.resolve_right (hreturned hclosed)⟩

theorem System.closes_eq_false {move : Move} (h : move.isClosing = false) :
    system.closes move = false := by
  cases move with
  | close => cases h
  | call | cancel | act => rfl

/-- **Closing comes to its end** under every fair schedule, whatever the destination answers. -/
theorem over_of_fair (h : system.pool.Course options reports closings) (hclosing : 1 ≤ closings)
    (hfair : IsFair options.workerCount schedule) :
    ∃ time, (system.run destination (movesUntil schedule time)).isOver = true := by
  induction hbound : system.pool.toDo using Nat.strongRecOn
    generalizing system schedule reports closings with
  | ind bound ih =>
      have hafter : ∀ {system : System} {schedule reports},
          system.pool.Course options reports closings →
          IsFair options.workerCount schedule →
          (system.step destination (schedule 0)).pool.toDo < bound →
          ∃ time, (system.run destination (movesUntil schedule time)).isOver = true := by
        intro system schedule reports h hfair hless
        obtain ⟨time, hover⟩ :=
          ih _ hless (h.step (schedule 0)) (Nat.le_add_right_of_le hclosing) hfair.tail rfl
        exact ⟨time + 1, by rw [movesUntil_succ]; exact hover⟩
      cases hover : system.isOver with
      | true => exact ⟨0, hover⟩
      | false =>
          obtain ⟨hclosed, hlength, number, hcall⟩ := h.joining_of_closing hclosing hover
          obtain ⟨time, hdue⟩ := hfair.due hlength
          -- Until the step that is due is taken, any other one is of use or makes no difference.
          induction time generalizing system schedule reports with
          | zero =>
              apply hafter h hfair
              rw [hdue, ← hbound]
              exact Pool.toDo_due_lt hclosed hcall destination.send system.log
          | succ time ihtime =>
              rcases @step_of_joining destination system number hcall (schedule 0) with
                ⟨isCancelled, hsame⟩ | hless
              · have hnext := @Pool.Course.step _ destination _ _ _ h (schedule 0)
                rw [System.closes_eq_false (hfair.closing 0)] at hnext
                have hstill : (system.step destination (schedule 0)).isOver = false := by
                  rw [System.isOver, hsame]
                  exact hover
                obtain ⟨later, hlater⟩ := ihtime hnext hfair.tail (by rw [hsame]; exact hbound)
                  hstill (by rw [hsame]; exact hclosed) (by rw [hsame]; exact hlength)
                  (by rw [hsame]; exact hcall) (by rw [hsame]; exact hdue)
                exact ⟨later + 1, by rw [movesUntil_succ]; exact hlater⟩
              · exact hafter h hfair (hbound ▸ hless)

end Schedules

end RedisSnapshot.Load
