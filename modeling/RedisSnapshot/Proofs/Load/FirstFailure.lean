import RedisSnapshot.Proofs.Load.Ending
import RedisSnapshot.Proofs.Scan.Received

/-!
# What a failed load ends with

The scan of a failed load is told to stop, and not why. Why is told when the pool is closed, and
that is what the load ends with, in whatever order everybody has taken turns.
-/

namespace RedisSnapshot.Load

/-! ### Loads under a schedule -/

/-- What somebody other than the caller does. -/
inductive Turn where
  | cancel
  | act (action : Pool.Action)

def Turn.move : Turn → Move
  | cancel => .cancel
  | act action => .act action

/-- What is still to come of a schedule: the turns in front of every move of the caller and those
behind it. -/
abbrev Schedule :=
  List (List Turn × List Turn)

/-- A load under a schedule has no result if a call waits when its turns are over. -/
abbrev Scheduled :=
  StateT (System × Schedule) Option

/-- The caller makes a move, among the turns of others, and is told its result. -/
def await (destination : Destination) (move : Move) : Scheduled (Except Error Unit)
  | (system, (before, behind) :: schedule) =>
      let after :=
        system.run destination (before.map Turn.move ++ move :: behind.map Turn.move)
      match after.pool.call with
      | .returned result => some (result, after, schedule)
      | _ => none
  | (_, []) => none

/-- The caller looks whether the load is cancelled, among the turns of others. -/
def glance (destination : Destination) : Scheduled Bool
  | (system, (before, behind) :: schedule) =>
      let seen := system.run destination (before.map Turn.move)
      some (seen.pool.isCancelled, seen.run destination (behind.map Turn.move), schedule)
  | (_, []) => none

/-- The caller is cancelled with the load, which the pool sees for itself. -/
def scheduled (destination : Destination) : Receiver Scheduled where
  take record := await destination (.call false record)
  finish := return .ok ()
  isCancelled := glance destination

section Turns

variable {options : Options} {destination : Destination} {system : System}

theorem isClosing_of_turns {turns : List Turn} {move : Move} (h : move ∈ turns.map Turn.move) :
    move.isClosing = false := by
  obtain ⟨turn, _, rfl⟩ := List.mem_map.1 h
  cases turn <;> rfl

theorem System.closings_eq_zero {moves : List Move} (h : ∀ move ∈ moves, move.isClosing = false) :
    system.closings destination moves = 0 := by
  induction moves generalizing system with
  | nil => rfl
  | cons move moves ih =>
      rw [closings, closes_eq_false (h move List.mem_cons_self),
        ih fun other hmem => h other (List.mem_cons_of_mem _ hmem)]
      rfl

/-- Nobody takes back what the caller was told. -/
theorem returned_of_turns (turns : List Turn)
    (h : ∃ result, system.pool.call = .returned result) :
    ∃ result, (system.run destination (turns.map Turn.move)).pool.call = .returned result := by
  induction turns generalizing system with
  | nil => exact h
  | cons turn turns ih =>
      apply ih
      obtain ⟨result, hcall⟩ := h
      refine ⟨result, ?_⟩
      cases turn with
      | cancel => exact hcall
      | act action =>
          have heffect := @Pool.effect_step system.pool destination.send action system.log
          change (system.pool.step destination.send action system.log).1.call = _
          generalize (system.pool.step destination.send action system.log).1 = after at heffect
          cases heffect with
          | idle => exact hcall
          | calling _ _ _ _ hrest => exact absurd hcall (hrest result)
          | joining hother =>
              rw [hcall] at hother
              cases hother
          | concluding hother =>
              rw [hcall] at hother
              cases hother
          | working => exact hcall

end Turns

/-- The pool has been handed records and not been closed, and the caller need not wait. -/
def IsHanding (options : Options) (destination : Destination) (state : System × Schedule) : Prop :=
  ∃ moves, state.1 = (System.start options).run destination moves ∧
    (System.start options).closings destination moves = 0 ∧
      ∃ result, state.1.pool.call = .returned result

section Loads

variable {options : Options} {destination : Destination}

theorem await_eq_some {move : Move} {state after : System × Schedule} {result : Except Error Unit}
    (h : await destination move state = some (result, after)) :
    ∃ before behind : List Turn,
      after.1 = state.1.run destination (before.map Turn.move ++ move :: behind.map Turn.move) ∧
        after.1.pool.call = .returned result := by
  obtain ⟨system, _ | ⟨⟨before, behind⟩, schedule⟩⟩ := state
  · cases h
  · rw [await] at h
    split at h
    · rename_i hcall
      cases h
      exact ⟨before, behind, rfl, hcall⟩
    · cases h

theorem glance_eq_some {state after : System × Schedule} {answer : Bool}
    (h : glance destination state = some (answer, after)) :
    ∃ turns : List Turn, after.1 = state.1.run destination (turns.map Turn.move) := by
  obtain ⟨system, _ | ⟨⟨before, behind⟩, schedule⟩⟩ := state
  · cases h
  · cases h
    exact ⟨before ++ behind, by rw [List.map_append, System.run_append]⟩

/-- More moves, none of which closes the pool. -/
theorem IsHanding.run {state after : System × Schedule} {moves : List Move}
    {result : Except Error Unit} (h : IsHanding options destination state)
    (hmoves : ∀ move ∈ moves, move.isClosing = false)
    (hafter : after.1 = state.1.run destination moves)
    (hcall : after.1.pool.call = .returned result) : IsHanding options destination after := by
  obtain ⟨before, hstate, hclosings, -⟩ := h
  refine ⟨before ++ moves, ?_, ?_, result, hcall⟩
  · rw [hafter, hstate, System.run_append]
  · rw [System.closings_append, hclosings, System.closings_eq_zero hmoves]

theorem keeps_isHanding :
    Scan.Keeps (scheduled destination) (IsHanding options destination) fun _ => True where
  take := by
    intro record state result after hstate htaken
    obtain ⟨before, behind, hafter, hcall⟩ := await_eq_some htaken
    refine ⟨hstate.run (fun move hmem => ?_) hafter hcall, fun _ _ => trivial⟩
    rcases List.mem_append.1 hmem with hmem | hmem
    · exact isClosing_of_turns hmem
    · rcases List.mem_cons.1 hmem with rfl | hmem
      · rfl
      · exact isClosing_of_turns hmem
  finish := by
    intro state result after hstate hfinished
    cases Scan.pure_eq_some hfinished
    exact ⟨hstate, fun _ _ => trivial⟩
  isCancelled := by
    intro state answer after hstate hasked
    obtain ⟨turns, hafter⟩ := glance_eq_some hasked
    obtain ⟨result, hcall⟩ := @returned_of_turns destination _ turns hstate.choose_spec.2.2
    rw [← hafter] at hcall
    refine ⟨?_, fun _ => trivial⟩
    exact hstate.run (fun move hmem => isClosing_of_turns hmem) hafter hcall

/-- Closing the pool behind a scan is one run of the pool, in which it is closed once. -/
theorem told_of_closing {state after : System × Schedule} {result : Except Error Unit}
    (h : IsHanding options destination state)
    (hclosed : await destination .close state = some (result, after)) :
    ∃ moves, after.1 = (System.start options).run destination moves ∧
      (System.start options).closings destination moves = 1 ∧
        result = told ((System.start options).reported destination moves).head? := by
  obtain ⟨moves, hstate, hclosings, hreturned⟩ := h
  obtain ⟨before, behind, hafter, hcall⟩ := await_eq_some hclosed
  let between := state.1.run destination (before.map Turn.move)
  have hcloses : between.closes .close = true := by
    obtain ⟨result, hidle⟩ := @returned_of_turns destination _ before hreturned
    rw [System.closes, hidle]
  have honce : (System.start options).closings destination
      (moves ++ (before.map Turn.move ++ .close :: behind.map Turn.move)) = 1 := by
    rw [System.closings_append, hclosings, ← hstate, System.closings_append, System.closings,
      System.closings_eq_zero fun _ hmem => isClosing_of_turns hmem,
      System.closings_eq_zero fun _ hmem => isClosing_of_turns hmem]
    change 0 + (0 + ((between.closes .close).toNat + 0)) = 1
    rw [hcloses]
    rfl
  have hrun : after.1 = (System.start options).run destination
      (moves ++ (before.map Turn.move ++ .close :: behind.map Turn.move)) := by
    rw [hafter, hstate, ← System.run_append]
  refine ⟨_, hrun, honce, ?_⟩
  have hcourse := course_of_run options destination
    (moves ++ (before.map Turn.move ++ .close :: behind.map Turn.move))
  rw [honce, ← hrun] at hcourse
  cases hcourse with
  | ending _ hother =>
      rw [hcall] at hother
      cases hother
  | done h => exact Call.returned.inj (hcall.symm.trans h.call)

theorem outcome_told {scan : Scan} {failure : Option Error}
    (hscan : ∀ length, scan.result ≠ .error (.beyondMemory length)) :
    outcome scan (told failure) =
      match failure with
      | some error => .error error
      | none => scan.bannerOrError := by
  unfold outcome
  split
  · rename_i length hresult
    exact absurd hresult (hscan length)
  · rename_i hclosing _
    cases failure with
    | none => cases hclosing
    | some error =>
        cases hclosing
        rfl
  · rename_i hclosing _
    cases failure with
    | none => rfl
    | some error => cases hclosing

/-! ### The first failure, from its report to its telling -/

/-- What becomes of the first failure that is reported to a pool. -/
structure FirstFailureTold (options : Options) (destination : Destination) : Prop where
  /-- Until closing has come to its end, the first report is what is kept. -/
  kept : ∀ moves, let system := (System.start options).run destination moves
    (System.start options).closings destination moves ≤ 1 → system.isOver = false →
      system.pool.failure = ((System.start options).reported destination moves).head?
  /-- What is kept once is kept, whoever fails later. -/
  unchanged : ∀ moves more error,
    ((System.start options).run destination moves).pool.failure = some error →
      let system := (System.start options).run destination (moves ++ more)
      (System.start options).closings destination (moves ++ more) ≤ 1 → system.isOver = false →
        system.pool.failure = some error
  /-- Whoever hands over a record of any kind behind it is told to stop, and the queue does not
  grow any more. -/
  stopped : ∀ moves isCancelled record,
    let system := (System.start options).run destination moves
    system.pool.failure.isSome = true → system.pool.isClosed = false →
      (∃ result, system.pool.call = .returned result) →
        let after := system.step destination (.call isCancelled record)
        after.pool.call = .returned (.error .stopped) ∧ after.pool.queue = system.pool.queue ∧
          ∀ more, (after.run destination more).pool.queue <:+ system.pool.queue
  /-- It is what closing the pool ends with, and then there are no workers any more. -/
  told : ∀ moves, let system := (System.start options).run destination moves
    (System.start options).closings destination moves = 1 → system.isOver = true →
      system.pool.call =
        .returned (Load.told ((System.start options).reported destination moves).head?) ∧
      ∃ front back, moves = front ++ .act .advance :: back ∧
        let before := (System.start options).run destination front
        before.pool.workers.length = options.workerCount ∧
          (∀ worker ∈ before.pool.workers, worker.isGone = true) ∧ system.pool.workers = []
  /-- It is told once. -/
  once : ∀ moves, let system := (System.start options).run destination moves
    2 ≤ (System.start options).closings destination moves → system.isOver = true →
      system.pool.call = .returned (.ok ())
  /-- Closing comes to its end. -/
  ends : ∀ moves schedule, 1 ≤ (System.start options).closings destination moves →
    IsFair options.workerCount schedule →
      ∃ time, ((System.start options).run destination
        (moves ++ movesUntil schedule time)).isOver = true
  /-- It is what a load ends with. Without it, it is what the scan ends with. -/
  loaded : ∀ withAux source schedule result final,
    scanInto (scheduled destination) (await destination .close) withAux source
        (System.start options, schedule) = some (result, final) →
      ∃ scan between moves,
        Scan.run (scheduled destination) withAux source (System.start options, schedule) =
          some (scan, between) ∧
        final.1 = (System.start options).run destination moves ∧
        (System.start options).closings destination moves = 1 ∧
        ((∀ length, scan.result ≠ .error (.beyondMemory length)) →
          result = match ((System.start options).reported destination moves).head? with
            | some error => .error error
            | none => scan.bannerOrError)

/-- **The first failure of a worker is kept and told**, whatever the number of workers, the records,
the destination and the order of all steps. -/
theorem first_failure_told (options : Options) (destination : Destination) :
    FirstFailureTold options destination where
  kept moves honce hover := (course_of_run options destination moves).failure_eq honce hover
  unchanged := by
    intro moves more error hfailure system honce hover
    have hfirst := (course_of_run options destination moves).head?_of_failure hfailure
    rw [(course_of_run options destination (moves ++ more)).failure_eq honce hover,
      System.reported_append, List.head?_append, hfirst, Option.some_or]
  stopped := by
    intro moves isCancelled record system hfailure hopen hreturned after
    obtain ⟨result, hcall⟩ := hreturned
    have hafter : after.pool = { system.pool with
        records := system.pool.records + 1, call := .returned (.error .stopped) } :=
      stopped_of_failure hopen hcall hfailure isCancelled record
    have hqueue : after.pool.queue = system.pool.queue := by rw [hafter]
    have hrefuses : after.pool.Refuses := by
      rw [hafter]
      exact .inr ⟨hfailure, _, rfl⟩
    refine ⟨by rw [hafter], hqueue, fun more => ?_⟩
    rw [← hqueue]
    exact ((course_of_run options destination moves).step (.call isCancelled record)).queue_run
      hrefuses more
  told := by
    intro moves system honce hover
    have hcourse := course_of_run options destination moves
    rw [honce] at hcourse
    have hconcluded := hcourse.concluded hover
    obtain ⟨front, back, hmoves, hlength, hgone⟩ := joined_of_run moves hconcluded.workers
    exact ⟨hconcluded.call, front, back, hmoves, hlength, hgone, hconcluded.workers⟩
  once moves hagain hover :=
    ((course_of_run options destination moves).concluded_again hagain hover).call
  ends := by
    intro moves schedule hclosing hfair
    obtain ⟨time, hover⟩ := over_of_fair (course_of_run options destination moves) hclosing hfair
    exact ⟨time, by rw [System.run_append]; exact hover⟩
  loaded := by
    intro withAux source schedule result final hrun
    have hstart : IsHanding options destination (System.start options, schedule) :=
      ⟨[], rfl, rfl, .ok (), rfl⟩
    rw [scanInto] at hrun
    obtain ⟨scan, between, hscanned, hrest⟩ := Scan.bind_eq_some hrun
    obtain ⟨closing, after, hclosed, hlast⟩ := Scan.bind_eq_some hrest
    cases Scan.pure_eq_some hlast
    have hbetween := (keeps_isHanding.run hstart hscanned).1
    obtain ⟨moves, hmoves, honce, rfl⟩ := told_of_closing hbetween hclosed
    exact ⟨scan, between, moves, hscanned, hmoves, honce, outcome_told⟩

end Loads

end RedisSnapshot.Load
