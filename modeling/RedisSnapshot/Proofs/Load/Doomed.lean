import RedisSnapshot.Proofs.Load.Solo

/-!
# A failure is told

A worker who has met a failure that it cannot get over never runs again. Before its end is taken note
of the failure is kept, and what is kept is told when the pool is closed, so nobody who is told that
a load went well has been told so by mistake.
-/

namespace RedisSnapshot.Load

/-- A failure is kept, or the only worker is about to bring it. -/
structure Doomed (pool : Pool) (worker : Worker) : Prop where
  workers : pool.workers = [worker]
  closing : pool.isClosed = true ↔ ∃ next, pool.call = .joining next
  cause : pool.failure.isSome = true ∨
    worker.hasFailed = true ∧ ∀ next, pool.call = .joining next → next = 0

/-- The pool is closed, there are no workers any more, and this was told. -/
structure Pool.Concluded (pool : Pool) (result : Except Error Unit) : Prop where
  closed : pool.isClosed = true
  workers : pool.workers = []
  call : pool.call = .returned result

theorem Worker.not_hasFailed {worker : Worker} (h : worker.isRunning = true) :
    worker.hasFailed ≠ true := by
  rw [Worker.hasFailed, Worker.stage_of_isRunning h]
  exact Bool.false_ne_true

namespace Call

def isJoining : Call → Bool
  | joining _ => true
  | returned _ | admitting _ | draining _ | switching .. => false

theorem ne_joining {call : Call} (h : call.isJoining = false) (next : Nat) : call ≠ .joining next := by
  intro hjoining
  rw [hjoining] at h
  cases h

end Call

namespace Doomed

variable {pool : Pool} {worker : Worker}

theorem isOpen (h : Doomed pool worker) (hcall : pool.call.isJoining = false) :
    pool.isClosed = false := by
  cases hclosed : pool.isClosed with
  | false => rfl
  | true =>
      obtain ⟨next, hjoining⟩ := h.closing.1 hclosed
      exact absurd hjoining (Call.ne_joining hcall next)

/-- A call that is not about the end of the workers makes no difference. -/
theorem calling (h : Doomed pool worker) (hcall : pool.call.isJoining = false)
    {queue : List Record} {changed records : Nat} {call : Call} (hafter : call.isJoining = false) :
    Doomed { pool with queue, changed, records, call } worker where
  workers := h.workers
  closing := by
    rw [h.isOpen hcall]
    exact ⟨nofun, fun ⟨next, hnext⟩ => absurd hnext (Call.ne_joining hafter next)⟩
  cause := h.cause.imp_right fun hfailed =>
    ⟨hfailed.1, fun next hnext => absurd hnext (Call.ne_joining hafter next)⟩

theorem begin (h : Doomed pool worker) {result : Except Error Unit}
    (hcall : pool.call = .returned result) (isCancelled : Bool) (record : Record) :
    Doomed (pool.begin isCancelled record) worker := by
  refine h.calling (by rw [hcall]; rfl) ?_
  split
  · rfl
  · cases record <;> rfl

theorem shut (h : Doomed pool worker) : Doomed pool.shut worker where
  workers := h.workers
  closing := ⟨fun _ => ⟨0, rfl⟩, fun _ => rfl⟩
  cause := h.cause.imp_right fun hfailed =>
    ⟨hfailed.1, fun next hnext => by cases hnext; rfl⟩

theorem recheck (h : Doomed pool worker) (isCancelled : Bool) :
    Doomed (pool.recheck isCancelled) worker := by
  rw [Pool.recheck]
  split <;> rename_i hcall _
  · exact h.calling (by rw [hcall]; rfl) rfl
  · exact h.calling (by rw [hcall]; rfl) rfl
  · exact h.calling (by rw [hcall]; rfl) rfl
  · exact h

/-- The worker goes on, if it can. -/
theorem update (h : Doomed pool worker) {kept : Worker} {queue : List Record} {changed : Nat}
    (hkept : worker.hasFailed = true → kept.hasFailed = true) :
    Doomed { pool.update 0 kept with queue, changed } kept where
  workers := Pool.workers_update h.workers kept
  closing := h.closing
  cause := h.cause.imp_right fun hfailed => ⟨hkept hfailed.1, hfailed.2⟩

theorem enqueue (h : Doomed pool worker) {record : Record} (hcall : pool.call = .admitting record) :
    Doomed (pool.enqueue record) worker := by
  have hopen : pool.call.isJoining = false := by
    rw [hcall]
    rfl
  rw [Pool.enqueue]
  split
  · exact h.calling hopen rfl
  · split
    · exact h.calling hopen rfl
    · exact h

theorem drain (h : Doomed pool worker) {index : Nat} (hcall : pool.call = .draining index) :
    Doomed (pool.drain index) worker := by
  rw [Pool.drain]
  split
  · exact h.calling (by rw [hcall]; rfl) rfl
  · exact h

theorem announce (h : Doomed pool worker) {index gathered : Nat}
    (hcall : pool.call = .switching index 0 gathered) :
    ∃ after, Doomed (pool.announce index 0 gathered worker) after := by
  have hopen : pool.call.isJoining = false := by
    rw [hcall]
    rfl
  rw [Pool.announce]
  split
  · exact ⟨worker, h.calling hopen rfl⟩
  · split
    · have hcalling : Doomed { pool with call := .switching index 1 gathered } worker :=
        h.calling hopen rfl
      exact ⟨{ worker with announced := some index }, hcalling.update id⟩
    · exact ⟨worker, h⟩

theorem gather (h : Doomed pool worker) {index told gathered : Nat}
    (hcall : pool.call = .switching index told gathered) :
    Doomed (pool.gather index told gathered) worker := by
  have hopen : pool.call.isJoining = false := by
    rw [hcall]
    rfl
  rw [Pool.gather]
  split
  · exact h.calling hopen rfl
  · split
    · exact h.calling hopen rfl
    · split
      · exact h.calling hopen rfl
      · exact h

theorem join (h : Doomed pool worker) {number : Nat} (hcall : pool.call = .joining number) :
    Doomed (pool.join number worker) worker := by
  have hcause := h.cause
  have hclosed : pool.isClosed = true := h.closing.2 ⟨number, hcall⟩
  rw [Pool.join]
  cases hstage : worker.stage with
  | ended =>
      -- The worker has ended, so it is not about to bring the failure, which has been kept then.
      rw [Worker.hasFailed, hstage] at hcause
      have hkept := hcause.resolve_right fun hfailed => Bool.false_ne_true hfailed.1
      exact ⟨h.workers, ⟨fun _ => ⟨number + 1, rfl⟩, fun _ => hclosed⟩, .inl hkept⟩
  | died => exact ⟨h.workers, ⟨fun _ => ⟨number + 1, rfl⟩, fun _ => hclosed⟩, .inl rfl⟩
  | running | holding _ | sending _ | changed _ | failing _ => exact h

theorem conclude (h : Doomed pool worker) {next : Nat} (hcall : pool.call = .joining (next + 1)) :
    ∃ error : Error, pool.conclude.call = .returned (.error error) := by
  have hcause := h.cause.resolve_right fun hfailed => by
    have hzero := hfailed.2 (next + 1) hcall
    cases hzero
  obtain ⟨error, herror⟩ := Option.isSome_iff_exists.1 hcause
  refine ⟨error, ?_⟩
  rw [Pool.conclude, herror]

theorem receive (h : Doomed pool worker) (number : Nat) :
    ∃ after, Doomed (pool.receive number) after := by
  rw [Pool.receive]
  split
  · rename_i found record queue hworker hqueue
    by_cases hrunning : found.isRunning
    · rw [if_pos hrunning]
      obtain ⟨rfl, rfl⟩ := Pool.only_worker h.workers hworker
      exact ⟨_, h.update fun hfailed => absurd hfailed (Worker.not_hasFailed hrunning)⟩
    · rw [if_neg hrunning]
      exact ⟨worker, h⟩
  · exact ⟨worker, h⟩

theorem listen (h : Doomed pool worker) (number : Nat) :
    ∃ after, Doomed (pool.listen number) after := by
  rw [Pool.listen]
  split
  · rename_i found hworker
    split
    · rename_i index hrunning hannounced
      obtain ⟨rfl, rfl⟩ := Pool.only_worker h.workers hworker
      exact ⟨_, h.update fun hfailed => absurd hfailed (Worker.not_hasFailed hrunning)⟩
    · exact ⟨worker, h⟩
  · exact ⟨worker, h⟩

theorem leave (h : Doomed pool worker) (number : Nat) :
    ∃ after, Doomed (pool.leave number) after := by
  rw [Pool.leave]
  split
  · rename_i found hworker
    by_cases hleaving : found.isRunning && pool.isEnding
    · rw [if_pos hleaving]
      obtain ⟨rfl, rfl⟩ := Pool.only_worker h.workers hworker
      have hrunning := (Bool.and_eq_true_iff.1 hleaving).1
      exact ⟨_, h.update fun hfailed => absurd hfailed (Worker.not_hasFailed hrunning)⟩
    · rw [if_neg hleaving]
      exact ⟨worker, h⟩
  · exact ⟨worker, h⟩

theorem proceed (h : Doomed pool worker) (send : Nat → List Command → StateM (List Pipeline) Execution)
    (number : Nat) (log : List Pipeline) :
    ∃ after, Doomed (pool.proceed send number log).1 after := by
  unfold Pool.proceed
  cases hworker : pool.workers[number]? with
  | none => exact ⟨worker, h⟩
  | some found =>
      obtain ⟨rfl, rfl⟩ := Pool.only_worker h.workers hworker
      cases hstage : found.stage with
      | running | ended | died =>
          simp only [hstage]
          exact ⟨found, h⟩
      | holding _ | sending _ | changed _ =>
          have hworks : found.hasFailed = false := by
            rw [Worker.hasFailed, hstage]
          simp only [hstage]
          exact ⟨_, h.update fun hfailed => absurd (hworks.symm.trans hfailed) Bool.false_ne_true⟩
      | failing error =>
          simp only [hstage]
          exact ⟨{ found with stage := .ended }, Pool.workers_update h.workers _, h.closing, .inl rfl⟩

end Doomed

end RedisSnapshot.Load
