import RedisSnapshot.Proofs.Load.Intake
import RedisSnapshot.Proofs.Load.Retries

/-!
# What is sent for a batch

A pipeline is sent until it succeeds, but only so often. What comes of it then is its success or the
error of the last attempt. A batch that could not be written has its keys deleted instead, and that is
tried as often; of a batch that could not be deleted either, the error of the last deletion is told,
for the errors of the writes are of no interest any more. Whatever comes of it, the batch is gone.
-/

namespace RedisSnapshot.Load

/-! ### One attempt -/

namespace Execution

/-- All commands were answered, and no answer is an error. -/
def Succeeds (commands : List Command) : Execution → Prop
  | answered replies => replies.length = commands.length ∧ ∀ line, Reply.error line ∉ replies
  | failed _ | died => False

/-- Why a pipeline has not succeeded. Of several refusals the first one is told. -/
inductive FailsWith (commands : List Command) : Error → Execution → Prop where
  | broken (error : Error) : FailsWith commands error (failed error)
  | miscounted {replies : List Reply} (hcount : replies.length ≠ commands.length) :
      FailsWith commands (.destination (.replyCount commands.length replies.length))
        (answered replies)
  | refused {front back : List Reply} {line : Bytes}
      (hcount : (front ++ .error line :: back).length = commands.length)
      (hfront : ∀ line, Reply.error line ∉ front) :
      FailsWith commands (.destination (.refused line)) (answered (front ++ .error line :: back))

end Execution

theorem judge_of_succeeds {commands : List Command} {execution : Execution}
    (h : execution.Succeeds commands) : judge commands execution = .done := by
  cases execution with
  | answered replies => rw [judge, if_pos h.1, mapM_result_of_accepted h.2]
  | failed error => cases h
  | died => cases h

/-- An answer to a pipeline is judged by whether it succeeds, and by why not. -/
theorem judge_cases (commands : List Command) {execution : Execution} (h : execution ≠ .died) :
    (execution.Succeeds commands ∧ judge commands execution = .done) ∨
      ∃ error, execution.FailsWith commands error ∧ judge commands execution = .failed error := by
  cases execution with
  | died => exact absurd rfl h
  | failed error => exact .inr ⟨error, .broken error, rfl⟩
  | answered replies =>
      by_cases hcount : replies.length = commands.length
      · rcases accepted_or_refused replies with haccepted | ⟨front, back, line, rfl, hfront⟩
        · have hsucceeds : (Execution.answered replies).Succeeds commands := ⟨hcount, haccepted⟩
          exact .inl ⟨hsucceeds, judge_of_succeeds hsucceeds⟩
        · refine .inr ⟨.destination (.refused line), .refused hcount hfront, ?_⟩
          rw [judge, if_pos hcount, mapM_result_of_refused hfront]
      · exact .inr ⟨_, .miscounted hcount, by rw [judge, if_neg hcount]⟩

theorem failsWith_of_judge {commands : List Command} {execution : Execution} {error : Error}
    (h : judge commands execution = .failed error) : execution.FailsWith commands error := by
  have halive : execution ≠ .died := by
    rintro rfl
    cases h
  rcases judge_cases commands halive with ⟨-, hdone⟩ | ⟨found, hfails, hfailed⟩
  · cases hdone.symm.trans h
  · cases hfailed.symm.trans h
    exact hfails

/-! ### Attempt after attempt -/

namespace Destination

/-- No worker dies of a pipeline. -/
def Answers (destination : Destination) : Prop :=
  ∀ log number commands, destination log number commands ≠ .died

/-- The answer to a pipeline that has been sent so many times before, behind what had been sent then. -/
def again (destination : Destination) (log : List Pipeline) (pipeline : Pipeline) (times : Nat) :
    Execution :=
  destination (log ++ List.replicate times pipeline) pipeline.worker pipeline.commands

theorem again_zero (destination : Destination) (log : List Pipeline) (pipeline : Pipeline) :
    destination.again log pipeline 0 = destination log pipeline.worker pipeline.commands := by
  rw [again, List.replicate_zero, List.append_nil]

theorem again_succ (destination : Destination) (log : List Pipeline) (pipeline : Pipeline)
    (times : Nat) :
    destination.again log pipeline (times + 1) =
      destination.again (log ++ [pipeline]) pipeline times := by
  rw [again, again, List.replicate_succ, List.append_assoc, List.singleton_append]

end Destination

/-- So many attempts were followed by another one: each of them has failed, and the one behind them
has not, or else it was the last one that there is. -/
structure Reattempts (commands : List Command) (outcomes : Nat → Execution) (retries failures : Nat) :
    Prop where
  limit : failures ≤ retries
  earlier : ∀ times < failures, ∃ error, judge commands (outcomes times) = .failed error
  last : failures < retries → ∀ error, judge commands (outcomes failures) ≠ .failed error

theorem Reattempts.behind {commands : List Command} {outcomes : Nat → Execution}
    {retries failures : Nat} {error : Error} (hfirst : judge commands (outcomes 0) = .failed error)
    (h : Reattempts commands (fun times => outcomes (times + 1)) retries failures) :
    Reattempts commands outcomes (retries + 1) (failures + 1) where
  limit := Nat.succ_le_succ h.limit
  earlier times htimes := by
    cases times with
    | zero => exact ⟨error, hfirst⟩
    | succ times => exact h.earlier times (Nat.lt_of_succ_lt_succ htimes)
  last hlt := h.last (Nat.lt_of_succ_lt_succ hlt)

/-- A pipeline is sent again behind each failure, unless it has been sent so often already. -/
theorem attempt_reattempts (destination : Destination) (number : Nat) (commands : List Command)
    (retries : Nat) (log : List Pipeline) :
    ∃ failures,
      Reattempts commands (destination.again log ⟨number, commands⟩) retries failures ∧
      attempt (destination.send number) commands retries log =
        (judge commands (destination.again log ⟨number, commands⟩ failures),
          log ++ List.replicate (failures + 1) ⟨number, commands⟩) := by
  induction retries generalizing log with
  | zero =>
      refine ⟨0, ⟨Nat.le_refl 0, nofun, nofun⟩, ?_⟩
      rw [Destination.again_zero]
      rfl
  | succ retries ih =>
      rw [attempt, bind_apply, Destination.send]
      have hfirst : destination.again log ⟨number, commands⟩ 0 = destination log number commands :=
        destination.again_zero log _
      by_cases hfailed : ∃ error, judge commands (destination log number commands) = .failed error
      · obtain ⟨error, hjudge⟩ := hfailed
        obtain ⟨failures, hreattempts, hattempt⟩ := ih (log ++ [⟨number, commands⟩])
        refine ⟨failures + 1, .behind (hfirst ▸ hjudge) ?_, ?_⟩
        · simpa only [Destination.again_succ] using hreattempts
        · rw [hjudge, Destination.again_succ]
          refine hattempt.trans ?_
          rw [List.append_assoc, List.replicate_succ (n := failures + 1)]
          rfl
      · have hnever : ∀ error, judge commands (destination log number commands) ≠ .failed error :=
          fun error hjudge => hfailed ⟨error, hjudge⟩
        refine ⟨0, ⟨Nat.zero_le _, nofun, fun _ => hfirst ▸ hnever⟩, ?_⟩
        rw [hfirst]
        cases hjudge : judge commands (destination log number commands) with
        | failed error => exact absurd hjudge (hnever error)
        | done => rfl
        | died => rfl

def Delivered.ofResult : Except Error Unit → Delivered
  | .ok () => .done
  | .error error => .failed error

/-- How sending a pipeline ends, and how many times it has been sent then: it is sent until its first
success, and no more often than the limit allows, in which case the last error is told. -/
inductive Tries (destination : Destination) (limit : Nat) (pipeline : Pipeline)
    (log : List Pipeline) : Except Error Unit → Nat → Prop where
  | success {failures : Nat} (hlimit : failures < limit)
      (hfailures : ∀ times < failures,
        ∃ error, (destination.again log pipeline times).FailsWith pipeline.commands error)
      (hsuccess : (destination.again log pipeline failures).Succeeds pipeline.commands) :
      Tries destination limit pipeline log (.ok ()) (failures + 1)
  | exhausted {failures : Nat} {error : Error} (hlimit : failures + 1 = limit)
      (hfailures : ∀ times < failures,
        ∃ error, (destination.again log pipeline times).FailsWith pipeline.commands error)
      (hlast : (destination.again log pipeline failures).FailsWith pipeline.commands error) :
      Tries destination limit pipeline log (.error error) (failures + 1)

theorem attempt_tries {destination : Destination} (hanswers : destination.Answers) (number : Nat)
    (commands : List Command) (retries : Nat) (log : List Pipeline) :
    ∃ result times, Tries destination (retries + 1) ⟨number, commands⟩ log result times ∧
      attempt (destination.send number) commands retries log =
        (.ofResult result, log ++ List.replicate times ⟨number, commands⟩) := by
  obtain ⟨failures, hreattempts, hattempt⟩ :=
    attempt_reattempts destination number commands retries log
  have hfailures : ∀ times < failures, ∃ error,
      (destination.again log ⟨number, commands⟩ times).FailsWith commands error := by
    intro times htimes
    obtain ⟨error, hjudge⟩ := hreattempts.earlier times htimes
    exact ⟨error, failsWith_of_judge hjudge⟩
  have halive : destination.again log ⟨number, commands⟩ failures ≠ .died := hanswers _ _ _
  rcases judge_cases commands halive with ⟨hsucceeds, hjudge⟩ | ⟨error, hfails, hjudge⟩
  · rw [hjudge] at hattempt
    exact ⟨.ok (), failures + 1,
      .success (Nat.lt_succ_of_le hreattempts.limit) hfailures hsucceeds, hattempt⟩
  · have hlast : failures = retries := by
      refine Nat.le_antisymm hreattempts.limit (Nat.le_of_not_lt fun hlt => ?_)
      exact hreattempts.last hlt error hjudge
    rw [hjudge] at hattempt
    exact ⟨.error error, failures + 1, .exhausted (congrArg Nat.succ hlast) hfailures hfails, hattempt⟩

/-! ### Writes, and deletions if need be -/

/-- What is sent for a batch behind a log, and how that ends. Of a batch that was written nothing else
is sent; if it could not be, then what comes of deleting its keys is told, and not the error of the
writes. -/
inductive Settles (options : Options) (destination : Destination) (number database : Nat)
    (batch : List Record) (log : List Pipeline) : Except Error Unit → List Pipeline → Prop where
  | written {times : Nat} (hmode : options.deleteOnly = false)
      (hwrites : Tries destination (max 1 options.attempts)
        ⟨number, Parcel.writes options ⟨database, batch⟩⟩ log (.ok ()) times) :
      Settles options destination number database batch log (.ok ())
        (List.replicate times ⟨number, Parcel.writes options ⟨database, batch⟩⟩)
  | replaced {error : Error} {result : Except Error Unit} {tried times : Nat}
      (hmode : options.deleteOnly = false)
      (hwrites : Tries destination (max 1 options.attempts)
        ⟨number, Parcel.writes options ⟨database, batch⟩⟩ log (.error error) tried)
      (hdeletions : Tries destination (max 1 options.attempts)
        ⟨number, Parcel.deletions ⟨database, batch⟩⟩
        (log ++ List.replicate tried ⟨number, Parcel.writes options ⟨database, batch⟩⟩)
        result times) :
      Settles options destination number database batch log result
        (List.replicate tried ⟨number, Parcel.writes options ⟨database, batch⟩⟩ ++
          List.replicate times ⟨number, Parcel.deletions ⟨database, batch⟩⟩)
  | deleted {result : Except Error Unit} {times : Nat} (hmode : options.deleteOnly = true)
      (hdeletions : Tries destination (max 1 options.attempts)
        ⟨number, Parcel.deletions ⟨database, batch⟩⟩ log result times) :
      Settles options destination number database batch log result
        (List.replicate times ⟨number, Parcel.deletions ⟨database, batch⟩⟩)

section Batches

variable {destination : Destination}

theorem Options.retries_succ (options : Options) :
    options.retries + 1 = max 1 options.attempts := by
  rw [retries]
  omega

theorem deliver_settles (hanswers : destination.Answers) (options : Options) (number database : Nat)
    {batch : List Record} (hbatch : batch ≠ []) (log : List Pipeline) :
    ∃ result trail, Settles options destination number database batch log result trail ∧
      deliver options (destination.send number) database batch log =
        (.ofResult result, log ++ trail) := by
  have hattempt := fun commands => attempt_tries hanswers number commands options.retries
  rw [options.retries_succ] at hattempt
  rw [deliver, if_neg fun hempty => hbatch (List.isEmpty_iff.1 hempty), writeCommands_eq,
    deleteCommands_eq]
  by_cases hmode : options.deleteOnly = true
  · rw [if_pos hmode]
    obtain ⟨result, times, htries, hdeliver⟩ := hattempt (Parcel.deletions ⟨database, batch⟩) log
    exact ⟨result, _, .deleted hmode htries, hdeliver⟩
  · rw [if_neg hmode]
    rw [Bool.not_eq_true] at hmode
    obtain ⟨result, tried, hwrites, hdeliver⟩ :=
      hattempt (Parcel.writes options ⟨database, batch⟩) log
    rw [bind_apply, hdeliver]
    cases result with
    | ok =>
        exact ⟨.ok (), _, .written hmode hwrites, rfl⟩
    | error error =>
        obtain ⟨result, times, hdeletions, hdelete⟩ := hattempt (Parcel.deletions ⟨database, batch⟩)
          (log ++ List.replicate tried ⟨number, Parcel.writes options ⟨database, batch⟩⟩)
        refine ⟨result, _, .replaced hmode hwrites hdeletions, ?_⟩
        rw [← List.append_assoc]
        exact hdelete

/-- Nothing is deleted by a pipeline that writes. -/
theorem head?_ne_delete_of_mem {options : Options} {database : Nat} {batch : List Record}
    {command : Command} (h : command ∈ Parcel.writes options ⟨database, batch⟩) :
    command.head? ≠ some (Text.bytes "DEL") := by
  have hverb : ∀ {verb : Store.Verb}, some (Text.bytes verb.name) = some (Text.bytes "DEL") →
      verb = .delete := fun hname => Store.Verb.eq_of_name (Option.some.inj hname)
  intro hdelete
  rcases List.mem_cons.1 h with rfl | hmem
  · exact Store.Verb.delete.name_ne_select (Option.some.inj hdelete).symm
  · obtain ⟨record, _, hcommand⟩ := List.mem_flatMap.1 hmem
    cases record with
    | keyed key value =>
        rcases commands_of_record.2 command hcommand with hwrites | ⟨moment, _, _, rfl⟩
        · cases hwrites with
          | set value => cases @hverb .set hdelete
          | add kind arguments => cases @hverb (.add kind) hdelete
        · cases @hverb .expire hdelete
    | selectDb _ | resizeDb _ _ | aux _ _ => cases hcommand

end Batches

namespace Worker

/-- What a worker does next behind a batch that ended so. -/
def Purpose.behind (purpose : Purpose) : Except Error Unit → Stage
  | .ok () => purpose.next
  | .error error => .failing error

end Worker

/-- **One batch.** A worker sends the writes of its batch until they succeed, and deletes the keys of
the batch only if they never do. Whatever comes of that, it holds nothing of the batch any more, and
all that it holds at any later moment it has taken off the queue since. -/
theorem batch_settles {destination : Destination} (hanswers : destination.Answers)
    {system : System} {number : Nat} {worker : Worker} {purpose : Worker.Purpose}
    (hworker : system.pool.workers[number]? = some worker)
    (hstage : worker.stage = .sending purpose) (hbatch : worker.batch ≠ []) :
    ∃ result trail after,
      Settles system.pool.options destination number worker.database worker.batch.reverse system.log
        result trail ∧
      (∀ command ∈ Parcel.writes system.pool.options ⟨worker.database, worker.batch.reverse⟩,
        command.head? ≠ some (Text.bytes "DEL")) ∧
      after = system.step destination (.act (.proceed number)) ∧
      after.log = system.log ++ trail ∧
      after.pool = system.pool.update number
        { worker with batch := [], stage := purpose.behind result } ∧
      ∀ moves found, (after.run destination moves).pool.workers[number]? = some found →
        found.held <:+ after.intake destination number moves := by
  obtain ⟨result, trail, hsettles, hdeliver⟩ := deliver_settles hanswers system.pool.options number
    worker.database (mt List.reverse_eq_nil_iff.1 hbatch) system.log
  let kept : Worker := { worker with batch := [], stage := purpose.behind result }
  let after : System :=
    { system with pool := system.pool.update number kept, log := system.log ++ trail }
  have hflush : worker.flush system.pool.options (destination.send number) purpose system.log =
      (kept, system.log ++ trail) := by
    rw [Worker.flush, bind_apply, hdeliver]
    cases result <;> rfl
  have hstep : system.step destination (.act (.proceed number)) = after := by
    have hproceed : (system.pool.proceed destination.send number).run system.log =
        (system.pool.update number kept, system.log ++ trail) := by
      unfold Pool.proceed
      simp only [hworker, hstage]
      change (_ >>= _ : StateM (List Pipeline) Pool) system.log = _
      rw [bind_apply, hflush]
      rfl
    rw [System.step, Pool.step, hproceed]
  have hnothing : kept.held = [] := by
    have hheld := Worker.held_flush system.pool.options (destination.send number) purpose worker
      system.log
    rw [hflush] at hheld
    exact hheld
  have hkept : after.pool.workers[number]? = some kept := by
    obtain ⟨hlength, _⟩ := List.getElem?_eq_some_iff.1 hworker
    exact (List.getElem?_set_self hlength).trans rfl
  refine ⟨result, trail, after, hsettles, fun _ => head?_ne_delete_of_mem, hstep.symm, rfl, rfl, ?_⟩
  intro moves found hfound
  obtain ⟨before, hbefore, hheld⟩ := carries_run after moves found hfound
  rw [hkept] at hbefore
  cases hbefore
  rw [hnothing, List.nil_append] at hheld
  exact hheld

/-- Too few answers, then an error, then a connection that breaks, and from then on everything goes
well. -/
def faltering : Destination :=
  fun log number commands =>
    match log.length with
    | 0 => .answered []
    | 1 => .answered [.simple [79, 75], .error [69, 82, 82]]
    | 2 => .failed (.io .deadline)
    | _ => Destination.agreeing log number commands

/-- Two attempts to write a string fail, and the second one to delete its key succeeds. -/
theorem batch_settles_deleted :
    ∃ (system : System) (worker : Worker) (after : System),
      faltering.Answers ∧ system.pool.workers[0]? = some worker ∧ worker.stage = .sending .full ∧
      worker.batch ≠ [] ∧ system.pool.options.attempts = 2 ∧
      worker.batch = [.keyed ⟨[97], 0⟩ (.string [98])] ∧ system.log = [] ∧
      Settles system.pool.options faltering 0 3 worker.batch.reverse [] (.ok ())
        [⟨0, [.named "SELECT" [Decimal.bytes 3], .named "SET" [[97], [98]]]⟩,
          ⟨0, [.named "SELECT" [Decimal.bytes 3], .named "SET" [[97], [98]]]⟩,
          ⟨0, [.named "SELECT" [Decimal.bytes 3], .named "DEL" [[97]]]⟩,
          ⟨0, [.named "SELECT" [Decimal.bytes 3], .named "DEL" [[97]]]⟩] ∧
      after = system.step faltering (.act (.proceed 0)) ∧
      after.pool.workers = [{ worker with batch := [], stage := .running }] := by
  let options : Options := { attempts := 2 }
  let worker : Worker := ⟨3, [.keyed ⟨[97], 0⟩ (.string [98])], none, .sending .full⟩
  let system : System := ⟨{ Pool.start options false with workers := [worker] }, [], []⟩
  let writing : Pipeline := ⟨0, [.named "SELECT" [Decimal.bytes 3], .named "SET" [[97], [98]]]⟩
  let deleting : Pipeline := ⟨0, [.named "SELECT" [Decimal.bytes 3], .named "DEL" [[97]]]⟩
  have hanswers : faltering.Answers := by
    intro log number commands
    rw [faltering]
    split <;> exact nofun
  obtain ⟨result, trail, after, hsettles, _, hafter, hlog, hpool, _⟩ :=
    @batch_settles faltering hanswers system 0 worker .full rfl rfl (List.cons_ne_nil _ _)
  have htrail : trail = [writing, writing, deleting, deleting] := by
    rw [hafter] at hlog
    exact hlog.symm
  have hworkers : after.pool.workers = [{ worker with batch := [], stage := .running }] := by
    rw [hafter]
    rfl
  have hresult : result = .ok () := by
    rw [hpool] at hworkers
    have hstage := congrArg Worker.stage (List.cons.inj hworkers).1
    cases result with
    | ok => rfl
    | error error => cases hstage
  rw [htrail, hresult] at hsettles
  exact ⟨system, worker, after, hanswers, rfl, rfl, List.cons_ne_nil _ _, rfl, rfl, rfl, hsettles,
    hafter, hworkers⟩

end RedisSnapshot.Load
