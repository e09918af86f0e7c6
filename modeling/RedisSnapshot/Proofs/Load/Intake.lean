import Mathlib.Data.List.Infix
import RedisSnapshot.Proofs.Load.Tracks

/-!
# What a worker has taken

Between two batches a worker takes records off the queue, and these are all that it holds. Sending a
batch leaves nothing of it behind, whatever comes of the pipelines, so nothing that has been sent or
given up can get into a later batch. This holds for any number of workers, under any schedule and
behind any failure, for it depends on nothing but the single steps.
-/

namespace RedisSnapshot.Load

/-- The record that a step gives to a worker, if it does. -/
def Pool.intake? (pool : Pool) (number : Nat) : Pool.Action → Option Record
  | .receive other =>
      if other = number ∧ pool.workers[number]?.any Worker.isRunning then pool.queue.head? else none
  | .recheck _ | .advance | .listen _ | .leave _ | .proceed _ => none

namespace System

/-- The record that a move gives to a worker, if it does. -/
def intake? (system : System) (number : Nat) : Move → Option Record
  | .act action => system.pool.intake? number action
  | .call .. | .close | .cancel => none

/-- The records that a worker takes off the queue in a run, the oldest first. -/
def intake (destination : Destination) (system : System) (number : Nat) : List Move → List Record
  | [] => []
  | move :: moves =>
      (system.intake? number move).toList ++
        (system.step destination move).intake destination number moves

end System

/-- A worker of the later pool holds at most what it held in the earlier one and has taken since. -/
def Pool.Carries (pool after : Pool) (number : Nat) (taken : List Record) : Prop :=
  ∀ found, after.workers[number]? = some found →
    ∃ worker, pool.workers[number]? = some worker ∧ found.held <:+ worker.held ++ taken

/-- A worker that has not just taken a record holds what is in its batch. -/
theorem Worker.held_eq_batch {worker : Worker} (h : ∀ record, worker.stage ≠ .holding record) :
    worker.held = worker.batch.reverse := by
  rw [held]
  split
  · rename_i record hstage
    exact absurd hstage (h record)
  · exact List.append_nil _

theorem Worker.held_of_isRunning {worker : Worker} (h : worker.isRunning = true) :
    worker.held = worker.batch.reverse :=
  held_eq_batch fun record => by simp [stage_of_isRunning h]

/-- What was taken is put into the batch. -/
theorem Worker.held_keep (options : Options) {worker : Worker} {record : Record}
    (hstage : worker.stage = .holding record) : (worker.keep options record).held = worker.held := by
  have hnext : ∀ other, (worker.keep options record).stage ≠ .holding other := by
    intro other
    rw [keep]
    dsimp only
    split <;> simp
  rw [held_eq_batch hnext, held, hstage]
  exact List.reverse_cons

section Steps

variable {pool after : Pool} {number : Nat} {taken : List Record}

theorem Pool.carries_of_eq (h : after.workers = pool.workers) : pool.Carries after number [] := by
  intro found hfound
  rw [h] at hfound
  refine ⟨found, hfound, ?_⟩
  rw [List.append_nil]

theorem Pool.carries_set {other : Nat} {worker kept : Worker}
    (hafter : after.workers = pool.workers.set other kept)
    (hworker : pool.workers[other]? = some worker)
    (hheld : other = number → kept.held <:+ worker.held ++ taken)
    (htaken : other ≠ number → taken = []) : pool.Carries after number taken := by
  intro found hfound
  rw [hafter, List.getElem?_set] at hfound
  by_cases hsame : other = number
  · subst hsame
    obtain ⟨hlength, _⟩ := List.getElem?_eq_some_iff.1 hworker
    rw [if_pos rfl, if_pos hlength] at hfound
    cases hfound
    exact ⟨worker, hworker, hheld rfl⟩
  · rw [if_neg hsame] at hfound
    refine ⟨found, hfound, ?_⟩
    rw [htaken hsame, List.append_nil]

/-- A worker who goes on without a new record holds what it held before, or nothing. -/
theorem Pool.carries_update {other : Nat} {worker kept : Worker}
    (hafter : after.workers = pool.workers.set other kept)
    (hworker : pool.workers[other]? = some worker) (hheld : kept.held <:+ worker.held) :
    pool.Carries after number [] := by
  refine carries_set hafter hworker (fun _ => ?_) fun _ => rfl
  rw [List.append_nil]
  exact hheld

theorem Pool.carries_recheck (isCancelled : Bool) :
    pool.Carries (pool.recheck isCancelled) number [] := by
  apply carries_of_eq
  unfold recheck
  split <;> rfl

theorem Pool.carries_advance : pool.Carries pool.advance number [] := by
  unfold advance
  cases pool.call with
  | returned result => exact carries_of_eq rfl
  | admitting record =>
      apply carries_of_eq
      simp only [enqueue]
      split
      · rfl
      · split <;> rfl
  | draining index =>
      apply carries_of_eq
      simp only [drain]
      split <;> rfl
  | switching index told gathered =>
      cases hworker : pool.workers[told]? with
      | some worker =>
          simp only [hworker, announce]
          split
          · exact carries_of_eq rfl
          · split
            · exact carries_update rfl hworker List.suffix_rfl
            · exact carries_of_eq rfl
      | none =>
          apply carries_of_eq
          simp only [hworker, gather]
          split
          · rfl
          · split
            · rfl
            · split <;> rfl
  | joining next =>
      cases hworker : pool.workers[next]? with
      | some worker =>
          apply carries_of_eq
          simp only [hworker, join]
          split <;> rfl
      | none =>
          -- There are no workers any more.
          simp only [hworker]
          exact nofun

theorem Pool.carries_listen (other : Nat) : pool.Carries (pool.listen other) number [] := by
  unfold listen
  split
  · rename_i worker hworker
    split
    · rename_i hrunning _
      refine carries_update rfl hworker ?_
      rw [Worker.held_of_isRunning hrunning, Worker.held_eq_batch (by simp)]
    · exact carries_of_eq rfl
  · exact carries_of_eq rfl

theorem Pool.carries_leave (other : Nat) : pool.Carries (pool.leave other) number [] := by
  unfold leave
  split
  · rename_i worker hworker
    split
    · rename_i hleaves
      refine carries_update rfl hworker ?_
      rw [Worker.held_of_isRunning (Bool.and_eq_true_iff.1 hleaves).1, Worker.held_eq_batch (by simp)]
    · exact carries_of_eq rfl
  · exact carries_of_eq rfl

/-- A batch that is sent is not held any more, whatever comes of it. -/
theorem Worker.held_flush (options : Options) (send : List Command → StateM (List Pipeline) Execution)
    (purpose : Purpose) (worker : Worker) (log : List Pipeline) :
    (worker.flush options send purpose log).1.held = [] := by
  rw [flush, bind_apply]
  generalize (deliver options send worker.database worker.batch.reverse log).1 = delivered
  refine held_eq_batch fun record hsame => ?_
  cases delivered <;> cases purpose <;> cases hsame

theorem Pool.carries_proceed (send : Nat → List Command → StateM (List Pipeline) Execution)
    (other : Nat) (log : List Pipeline) :
    pool.Carries (pool.proceed send other log).1 number [] := by
  unfold proceed
  cases hworker : pool.workers[other]? with
  | none => exact carries_of_eq rfl
  | some worker =>
      cases hstage : worker.stage with
      | running | ended | died =>
          simp only [hstage]
          exact carries_of_eq rfl
      | holding record =>
          simp only [hstage]
          refine carries_update rfl hworker ?_
          rw [Worker.held_keep _ hstage]
      | sending purpose =>
          simp only [hstage]
          refine @carries_update _ _ _ _ worker (worker.flush pool.options (send other) purpose log).1 rfl
            hworker ?_
          rw [Worker.held_flush]
          exact List.nil_suffix
      | changed index =>
          simp only [hstage]
          refine carries_update rfl hworker ?_
          have hbefore : worker.held = worker.batch.reverse := Worker.held_eq_batch (by simp [hstage])
          have hafter : (worker.change index).held = worker.batch.reverse :=
            Worker.held_eq_batch (by simp [Worker.change])
          rw [hbefore, hafter]
      | failing error =>
          simp only [hstage]
          refine carries_update rfl hworker ?_
          have hbefore : worker.held = worker.batch.reverse := Worker.held_eq_batch (by simp [hstage])
          rw [hbefore, Worker.held_eq_batch (by simp)]

theorem Pool.carries_receive (other : Nat) :
    pool.Carries (pool.receive other) number (pool.intake? number (.receive other)).toList := by
  rw [intake?]
  cases hworker : pool.workers[other]? with
  | none =>
      have hnone : ¬ (other = number ∧ pool.workers[number]?.any Worker.isRunning = true) := by
        rintro ⟨rfl, hrunning⟩
        rw [hworker] at hrunning
        cases hrunning
      rw [receive, hworker, if_neg hnone]
      exact carries_of_eq rfl
  | some worker =>
      cases hqueue : pool.queue with
      | nil =>
          have hsame : pool.receive other = pool := by rw [receive, hworker, hqueue]
          rw [hsame, List.head?_nil, ite_self]
          exact carries_of_eq rfl
      | cons record queue =>
          rw [receive, hworker, hqueue]
          dsimp only
          by_cases hrunning : worker.isRunning = true
          · rw [if_pos hrunning]
            refine carries_set rfl hworker (fun hsame => ?_) fun hother => ?_
            · subst hsame
              rw [hworker, if_pos ⟨rfl, hrunning⟩, Worker.held_of_isRunning hrunning]
              exact List.suffix_rfl
            · rw [if_neg fun h => hother h.1]
              rfl
          · have hnone : ¬ (other = number ∧ pool.workers[number]?.any Worker.isRunning = true) := by
              rintro ⟨rfl, hany⟩
              rw [hworker] at hany
              exact hrunning hany
            rw [if_neg hrunning, if_neg hnone]
            exact carries_of_eq rfl

theorem Pool.carries_step (send : Nat → List Command → StateM (List Pipeline) Execution)
    (action : Action) (log : List Pipeline) :
    pool.Carries (pool.step send action log).1 number (pool.intake? number action).toList := by
  cases action with
  | recheck isCancelled => exact carries_recheck isCancelled
  | advance => exact carries_advance
  | receive other => exact carries_receive other
  | listen other => exact carries_listen other
  | leave other => exact carries_leave other
  | proceed other => exact carries_proceed send other log

end Steps

section Runs

variable {destination : Destination} {number : Nat}

theorem carries_move (system : System) (move : Move) :
    system.pool.Carries (system.step destination move).pool number
      (system.intake? number move).toList := by
  cases move with
  | act action => exact system.pool.carries_step destination.send action system.log
  | call isCancelled record =>
      apply Pool.carries_of_eq
      rw [System.step]
      split <;> rfl
  | close =>
      apply Pool.carries_of_eq
      rw [System.step]
      split <;> rfl
  | cancel => exact Pool.carries_of_eq rfl

/-- **Intake.** Behind any run a worker holds at most what it held before and what it has taken. -/
theorem carries_run (system : System) (moves : List Move) :
    system.pool.Carries (system.run destination moves).pool number
      (system.intake destination number moves) := by
  induction moves generalizing system with
  | nil => exact Pool.carries_of_eq rfl
  | cons move moves ih =>
      intro found hfound
      obtain ⟨between, hbetween, hlater⟩ := ih (system.step destination move) found hfound
      obtain ⟨worker, hworker, hfirst⟩ := carries_move system move between hbetween
      refine ⟨worker, hworker, ?_⟩
      rw [System.intake, ← List.append_assoc]
      exact hlater.trans ((List.suffix_append_inj_of_length_eq rfl).2 ⟨hfirst, rfl⟩)

end Runs

end RedisSnapshot.Load
