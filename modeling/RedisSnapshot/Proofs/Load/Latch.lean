import RedisSnapshot.Proofs.Load.Handing
import RedisSnapshot.Proofs.Load.Steps

/-!
# The first failure is kept

Workers report failures as long as there are workers, and so does whoever finds that one has died.
The first report is kept, and nobody who comes later changes it. As soon as there is one, no record
is admitted any more. It is told to whoever closes the pool, who waits for all workers, and it is
told once.
-/

namespace RedisSnapshot.Load

namespace System

/-- The failure that a move reports to the pool, if it does. -/
def report? (system : System) : Move → Option Error
  | .act action => system.pool.report? action
  | .call .. | .close | .cancel => none

/-- The failures that are reported to the pool in a run, the oldest first. -/
def reported (destination : Destination) (system : System) : List Move → List Error
  | [] => []
  | move :: moves =>
      (system.report? move).toList ++ (system.step destination move).reported destination moves

/-- Whether a move closes the pool, which has to wait until the caller is told of the last call. -/
def closes (system : System) : Move → Bool
  | .close =>
      match system.pool.call with
      | .returned _ => true
      | _ => false
  | .call .. | .cancel | .act _ => false

/-- How often the pool is closed in a run. -/
def closings (destination : Destination) (system : System) : List Move → Nat
  | [] => 0
  | move :: moves =>
      (system.closes move).toNat + (system.step destination move).closings destination moves

end System

/-- What whoever closes the pool is told. -/
def told : Option Error → Except Error Unit
  | some error => .error error
  | none => .ok ()

/-- How far a pool is, which has had so many reports and was closed so often. -/
inductive Pool.Course (options : Options) (pool : Pool) (reports : List Error) : Nat → Prop where
  | underWay (hopen : pool.isClosed = false) (hcall : pool.call.isJoining = false)
      (hworkers : pool.workers.length = options.workerCount)
      (hfailure : pool.failure = reports.head?) : Course options pool reports 0
  /-- The workers before this one have ended. -/
  | ending {number : Nat} (hclosed : pool.isClosed = true) (hcall : pool.call = .joining number)
      (hworkers : pool.workers.length = options.workerCount)
      (hgone : ∀ worker ∈ pool.workers.take number, worker.isGone = true)
      (hfailure : pool.failure = reports.head?) : Course options pool reports 1
  | done (h : pool.Concluded (told reports.head?)) (hfailure : pool.failure = none) :
      Course options pool reports 1
  /-- Without workers there is nothing that can fail any more. -/
  | again {closings : Nat} (hclosed : pool.isClosed = true) (hworkers : pool.workers = [])
      (hfailure : pool.failure = none)
      (hcall : pool.call = .joining 0 ∨ pool.call = .returned (.ok ())) :
      Course options pool reports (closings + 2)

namespace Pool.Course

variable {options : Options} {pool after : Pool} {reports : List Error} {closings : Nat}
  {action : Action}

theorem start (options : Options) : (Pool.start options false).Course options [] 0 :=
  .underWay rfl rfl List.length_replicate rfl

theorem head?_snoc (reports : List Error) (report : Option Error) :
    (reports ++ report.toList).head? = reports.head?.or report := by
  rw [List.head?_append]
  cases report <;> rfl

/-- Without workers and once told, a pool stays as it is. -/
theorem effect_of_returned {result : Except Error Unit} (hworkers : pool.workers = [])
    (hcall : pool.call = .returned result) (h : pool.Effect action after) : after = pool := by
  cases h with
  | idle => rfl
  | calling _ _ _ _ hrest => exact absurd hcall (hrest result)
  | joining hother => rw [hcall] at hother; cases hother
  | concluding hother => rw [hcall] at hother; cases hother
  | working hworker =>
      rw [hworkers] at hworker
      cases hworker

theorem report?_of_nil (hworkers : pool.workers = []) (action : Action) :
    pool.report? action = none := by
  cases action with
  | proceed number => rw [report?, hworkers]; rfl
  | advance =>
      rw [report?]
      split
      · rw [hworkers]
        rfl
      · rfl
  | recheck | receive | listen | leave => rfl

theorem conclude_call (hfailure : pool.failure = reports.head?) :
    pool.conclude.call = .returned (told reports.head?) := by
  rw [conclude, hfailure]
  cases reports.head? <;> rfl

theorem act_underWay (hopen : pool.isClosed = false) (hcall : pool.call.isJoining = false)
    (hworkers : pool.workers.length = options.workerCount) (hfailure : pool.failure = reports.head?)
    (heffect : pool.Effect action after) :
    after.Course options (reports ++ (pool.report? action).toList) 0 := by
  cases heffect with
  | idle hreport =>
      rw [hreport, Option.toList_none, List.append_nil]
      exact .underWay hopen hcall hworkers hfailure
  | calling _ hnext hlength _ _ hreport =>
      rw [hreport, Option.toList_none, List.append_nil]
      exact .underWay hopen hnext (hlength.trans hworkers) hfailure
  | joining hother | concluding hother =>
      rw [hother] at hcall
      cases hcall
  | working _ _ _ _ hnext =>
      refine .underWay hopen hcall (List.length_set.trans hworkers) ?_
      rw [head?_snoc, ← hfailure]
      exact hnext

theorem act_ending {number : Nat} (hclosed : pool.isClosed = true)
    (hcall : pool.call = .joining number) (hworkers : pool.workers.length = options.workerCount)
    (hgone : ∀ worker ∈ pool.workers.take number, worker.isGone = true)
    (hfailure : pool.failure = reports.head?) (heffect : pool.Effect action after) :
    after.Course options (reports ++ (pool.report? action).toList) 1 := by
  have hnext : ∀ {failure}, failure = pool.failure.or (pool.report? action) →
      failure = (reports ++ (pool.report? action).toList).head? := by
    intro failure h
    rw [head?_snoc, ← hfailure, h]
  cases heffect with
  | idle hreport =>
      rw [hreport, Option.toList_none, List.append_nil]
      exact .ending hclosed hcall hworkers hgone hfailure
  | calling hother =>
      rw [hcall] at hother
      cases hother
  | @joining joined worker _ hother hworker hjoined hreported =>
      rw [hcall] at hother
      cases hother
      refine .ending hclosed rfl hworkers ?_ (hnext hreported)
      intro kept hmem
      rw [List.take_add_one, hworker, List.mem_append] at hmem
      rcases hmem with hmem | hmem
      · exact hgone kept hmem
      · rw [List.mem_singleton.1 hmem]
        exact hjoined
  | @concluding joined hother hworker haction =>
      have hreport : pool.report? action = none := by
        rw [haction, report?, hother]
        simp only [hworker, Option.bind_none]
      rw [hreport, Option.toList_none, List.append_nil]
      exact .done ⟨hclosed, rfl, conclude_call hfailure⟩ rfl
  | @working changed worker kept _ _ _ hworker hstays _ _ hreported =>
      refine .ending hclosed hcall (List.length_set.trans hworkers) ?_ (hnext hreported)
      -- A worker whose end was taken note of does nothing any more.
      have hbehind : number ≤ changed := by
        by_contra hless
        have hmem : worker ∈ pool.workers.take number := by
          have hfound : (pool.workers.take number)[changed]? = some worker := by
            rw [List.getElem?_take_of_lt (Nat.lt_of_not_le hless), hworker]
          exact List.mem_of_getElem? hfound
        rw [hgone worker hmem] at hstays
        cases hstays
      intro other hmem
      apply hgone
      rwa [update, List.take_set_of_le hbehind] at hmem

theorem act_again (hclosed : pool.isClosed = true) (hworkers : pool.workers = [])
    (hfailure : pool.failure = none)
    (hcall : pool.call = .joining 0 ∨ pool.call = .returned (.ok ()))
    (heffect : pool.Effect action after) : after.Course options reports (closings + 2) := by
  rcases hcall with hcall | hcall
  · cases heffect with
    | idle => exact .again hclosed hworkers hfailure (.inl hcall)
    | calling hother =>
        rw [hcall] at hother
        cases hother
    | joining _ hworker | working hworker =>
        rw [hworkers] at hworker
        cases hworker
    | concluding => exact .again hclosed rfl rfl (.inr (@conclude_call pool [] hfailure))
  · rw [effect_of_returned hworkers hcall heffect]
    exact .again hclosed hworkers hfailure (.inr hcall)

theorem act (h : pool.Course options reports closings) (heffect : pool.Effect action after) :
    after.Course options (reports ++ (pool.report? action).toList) closings := by
  cases h with
  | underWay hopen hcall hworkers hfailure =>
      exact act_underWay hopen hcall hworkers hfailure heffect
  | ending hclosed hcall hworkers hgone hfailure =>
      exact act_ending hclosed hcall hworkers hgone hfailure heffect
  | done h hfailure =>
      rw [report?_of_nil h.workers, Option.toList_none, List.append_nil,
        effect_of_returned h.workers h.call heffect]
      exact .done h hfailure
  | again hclosed hworkers hfailure hcall =>
      rw [report?_of_nil hworkers, Option.toList_none, List.append_nil]
      exact act_again hclosed hworkers hfailure hcall heffect

end Pool.Course

section Runs

variable {options : Options} {destination : Destination} {system : System} {reports : List Error}
  {closings : Nat}

theorem Call.isJoining_begin (pool : Pool) (isCancelled : Bool) (record : Record) :
    (pool.begin isCancelled record).call.isJoining = false := by
  simp only [Pool.begin]
  split
  · rfl
  · cases record <;> rfl

theorem Pool.Course.shut (h : system.pool.Course options reports closings)
    {result : Except Error Unit} (hcall : system.pool.call = .returned result) :
    system.pool.shut.Course options reports (closings + 1) := by
  cases h with
  | underWay hopen _ hworkers hfailure => exact .ending rfl rfl hworkers nofun hfailure
  | ending _ hother =>
      rw [hcall] at hother
      cases hother
  | done h hfailure => exact .again rfl h.workers hfailure (.inl rfl)
  | again _ hworkers hfailure => exact .again rfl hworkers hfailure (.inl rfl)

theorem Pool.Course.step (h : system.pool.Course options reports closings) (move : Move) :
    (system.step destination move).pool.Course options
      (reports ++ (system.report? move).toList) (closings + (system.closes move).toNat) := by
  cases move with
  | act action => exact h.act (Pool.effect_step destination.send action system.log)
  | call isCancelled record =>
      simp only [System.report?, System.closes, Option.toList_none, List.append_nil,
        Bool.toNat_false, Nat.add_zero, System.step]
      split
      · rename_i hopen
        cases h with
        | underWay hopen _ hworkers hfailure =>
            exact .underWay hopen (Call.isJoining_begin ..) hworkers hfailure
        | ending hclosed | again hclosed =>
            rw [hclosed] at hopen
            cases hopen
        | done h =>
            rw [h.closed] at hopen
            cases hopen
      · exact h
  | close =>
      simp only [System.report?, System.closes, Option.toList_none, List.append_nil, System.step]
      cases hcall : system.pool.call with
      | returned result => exact h.shut hcall
      | _ => exact h
  | cancel =>
      simp only [System.report?, System.closes, Option.toList_none, List.append_nil,
        Bool.toNat_false, Nat.add_zero, System.step]
      cases h with
      | underWay hopen hcall hworkers hfailure => exact .underWay hopen hcall hworkers hfailure
      | ending hclosed hcall hworkers hgone hfailure =>
          exact .ending hclosed hcall hworkers hgone hfailure
      | done h hfailure => exact .done ⟨h.closed, h.workers, h.call⟩ hfailure
      | again hclosed hworkers hfailure hcall => exact .again hclosed hworkers hfailure hcall

theorem Pool.Course.run (h : system.pool.Course options reports closings) (moves : List Move) :
    (system.run destination moves).pool.Course options
      (reports ++ system.reported destination moves)
      (closings + system.closings destination moves) := by
  induction moves generalizing system reports closings with
  | nil => rwa [System.reported, System.closings, List.append_nil]
  | cons move moves ih =>
      rw [System.reported, System.closings, ← List.append_assoc, ← Nat.add_assoc]
      exact ih (h.step move)

/-- Every run has its course. -/
theorem course_of_run (options : Options) (destination : Destination) (moves : List Move) :
    ((System.start options).run destination moves).pool.Course options
      ((System.start options).reported destination moves)
      ((System.start options).closings destination moves) := by
  have hstart : (System.start options).pool.Course options [] 0 := .start options
  have hrun := @Pool.Course.run _ destination _ _ _ hstart moves
  rwa [List.nil_append, Nat.zero_add] at hrun

theorem System.reported_append (system : System) (front back : List Move) :
    system.reported destination (front ++ back) =
      system.reported destination front ++
        (system.run destination front).reported destination back := by
  induction front generalizing system with
  | nil => rfl
  | cons move front ih =>
      rw [List.cons_append, reported, ih, reported, List.append_assoc]
      rfl

theorem System.closings_append (system : System) (front back : List Move) :
    system.closings destination (front ++ back) =
      system.closings destination front +
        (system.run destination front).closings destination back := by
  induction front generalizing system with
  | nil => rw [List.nil_append, System.closings, Nat.zero_add]; rfl
  | cons move front ih =>
      rw [List.cons_append, System.closings, ih, System.closings, Nat.add_assoc]
      rfl

/-! ### What the caller is told -/

theorem System.isOver_of_returned {result : Except Error Unit}
    (hclosed : system.pool.isClosed = true) (hcall : system.pool.call = .returned result) :
    system.isOver = true := by
  rw [isOver, hclosed, hcall]
  rfl

theorem System.returned_of_isOver (h : system.isOver = true) :
    system.pool.isClosed = true ∧ ∃ result, system.pool.call = .returned result := by
  rw [isOver, Bool.and_eq_true] at h
  refine ⟨h.1, ?_⟩
  cases hcall : system.pool.call with
  | returned result => exact ⟨result, rfl⟩
  | _ =>
      rw [hcall] at h
      cases h.2

namespace Pool.Course

/-- Until the first closing has come to its end, the first report is what is kept. -/
theorem failure_eq (h : system.pool.Course options reports closings) (honce : closings ≤ 1)
    (hover : system.isOver = false) : system.pool.failure = reports.head? := by
  cases h with
  | underWay _ _ _ hfailure => exact hfailure
  | ending _ _ _ _ hfailure => exact hfailure
  | done h =>
      rw [System.isOver_of_returned h.closed h.call] at hover
      cases hover
  | again => omega

/-- What is kept was the first report. -/
theorem head?_of_failure (h : system.pool.Course options reports closings) {error : Error}
    (hfailure : system.pool.failure = some error) : reports.head? = some error := by
  cases h with
  | underWay _ _ _ hkept | ending _ _ _ _ hkept => exact hkept.symm.trans hfailure
  | done _ hnone | again _ _ hnone =>
      rw [hnone] at hfailure
      cases hfailure

theorem concluded (h : system.pool.Course options reports 1) (hover : system.isOver = true) :
    system.pool.Concluded (told reports.head?) := by
  obtain ⟨_, result, hcall⟩ := System.returned_of_isOver hover
  cases h with
  | ending _ hother =>
      rw [hcall] at hother
      cases hother
  | done h => exact h

theorem concluded_again (h : system.pool.Course options reports closings) (hagain : 2 ≤ closings)
    (hover : system.isOver = true) : system.pool.Concluded (.ok ()) := by
  obtain ⟨_, result, hcall⟩ := System.returned_of_isOver hover
  cases h with
  | underWay | ending | done => omega
  | again hclosed hworkers _ hreturned =>
      rcases hreturned with hother | hreturned
      · rw [hcall] at hother
        cases hother
      · exact ⟨hclosed, hworkers, hreturned⟩

/-! #### All workers have ended before anything is told. -/

/-- The workers are given up in one step, when the caller has seen each of them end. -/
theorem joined_of_step (h : system.pool.Course options reports closings)
    (hsome : system.pool.workers ≠ []) {move : Move}
    (hnone : (system.step destination move).pool.workers = []) :
    move = .act .advance ∧ system.pool.workers.length = options.workerCount ∧
      ∀ worker ∈ system.pool.workers, worker.isGone = true := by
  cases move with
  | call isCancelled record =>
      rw [System.step] at hnone
      split at hnone <;> exact absurd hnone hsome
  | close =>
      rw [System.step] at hnone
      split at hnone <;> exact absurd hnone hsome
  | cancel => exact absurd hnone hsome
  | act action =>
      have hlength : ∀ {workers : List Worker}, workers.length = system.pool.workers.length →
          workers ≠ [] := by
        intro workers hlength hempty
        rw [hempty] at hlength
        exact hsome (List.length_eq_zero_iff.1 hlength.symm)
      have heffect := @Pool.effect_step system.pool destination.send action system.log
      change ((system.pool.step destination.send action system.log).1).workers = [] at hnone
      generalize (system.pool.step destination.send action system.log).1 = after at heffect hnone
      cases heffect with
      | idle | joining => exact absurd hnone hsome
      | calling _ _ hkept => exact absurd hnone (hlength hkept)
      | working => exact absurd hnone (hlength List.length_set)
      | @concluding number hcall hworker haction =>
          refine ⟨by rw [haction], ?_⟩
          cases h with
          | underWay _ hopen =>
              rw [hcall] at hopen
              cases hopen
          | ending _ hother hworkers hgone =>
              rw [hcall] at hother
              cases hother
              rw [List.take_of_length_le (List.getElem?_eq_none_iff.1 hworker)] at hgone
              exact ⟨hworkers, hgone⟩
          | done h => exact absurd h.workers hsome
          | again _ hworkers => exact absurd hworkers hsome

end Pool.Course

theorem joined_of_run (moves : List Move)
    (hnone : ((System.start options).run destination moves).pool.workers = []) :
    ∃ front back, moves = front ++ .act .advance :: back ∧
      ((System.start options).run destination front).pool.workers.length = options.workerCount ∧
      ∀ worker ∈ ((System.start options).run destination front).pool.workers,
        worker.isGone = true := by
  induction moves using List.reverseRecOn with
  | nil =>
      have hlength : options.workerCount = 0 := (List.replicate_eq_nil_iff _).1 hnone
      unfold Options.workerCount at hlength
      omega
  | append_singleton moves move ih =>
      by_cases hsome : ((System.start options).run destination moves).pool.workers = []
      · obtain ⟨front, back, rfl, hjoined⟩ := ih hsome
        exact ⟨front, back ++ [move], by simp, hjoined⟩
      · rw [System.run_append] at hnone
        obtain ⟨rfl, hjoined⟩ :=
          (course_of_run options destination moves).joined_of_step hsome hnone
        exact ⟨moves, [], rfl, hjoined⟩

/-! ### Nothing is admitted any more -/

/-- Whoever hands over a record behind a failure is told to stop. -/
theorem stopped_of_failure {result : Except Error Unit} (hopen : system.pool.isClosed = false)
    (hcall : system.pool.call = .returned result) (hfailure : system.pool.failure.isSome = true)
    (isCancelled : Bool) (record : Record) :
    (system.step destination (.call isCancelled record)).pool =
      { system.pool with
        records := system.pool.records + 1, call := .returned (.error .stopped) } := by
  have hcheck : system.pool.check isCancelled = .error .stopped := by
    rw [Pool.check, if_pos hfailure]
  rw [System.step, hcall, hopen]
  simp only [Pool.begin, hcheck]

/-- The pool admits nothing: it is closed, or it has failed and nobody waits for room. -/
def Pool.Refuses (pool : Pool) : Prop :=
  pool.isClosed = true ∨ pool.failure.isSome = true ∧ ∃ result, pool.call = .returned result

theorem Pool.Refuses.isClosed_of_joining {pool : Pool} (h : pool.Refuses) {number : Nat}
    (hcall : pool.call = .joining number) : pool.isClosed = true := by
  rcases h with hclosed | ⟨_, result, hother⟩
  · exact hclosed
  · rw [hcall] at hother
    cases hother

theorem Pool.Course.queue_act (h : system.pool.Course options reports closings)
    (hrefuses : system.pool.Refuses) {action : Pool.Action} {after : Pool}
    (heffect : system.pool.Effect action after) :
    after.queue <:+ system.pool.queue ∧ after.Refuses := by
  cases heffect with
  | idle => exact ⟨List.suffix_rfl, hrefuses⟩
  | calling hcall _ _ _ hrest =>
      -- A call that waits is neither told anything nor about the end of the workers.
      exfalso
      rcases hrefuses with hclosed | ⟨_, result, hreturned⟩
      · cases h with
        | underWay hopen =>
            rw [hclosed] at hopen
            cases hopen
        | ending _ hother =>
            rw [hother] at hcall
            cases hcall
        | done h => exact hrest _ h.call
        | again _ _ _ hother =>
            rcases hother with hother | hother
            · rw [hother] at hcall
              cases hcall
            · exact hrest _ hother
      · exact hrest result hreturned
  | joining hcall => exact ⟨List.suffix_rfl, .inl (hrefuses.isClosed_of_joining hcall)⟩
  | concluding hcall => exact ⟨List.suffix_rfl, .inl (hrefuses.isClosed_of_joining hcall)⟩
  | working _ _ hsuffix _ hreported =>
      refine ⟨hsuffix, hrefuses.imp_right fun ⟨hfailure, hreturned⟩ => ⟨?_, hreturned⟩⟩
      rw [hreported, Option.isSome_or, hfailure, Bool.true_or]

theorem Pool.Course.queue_step (h : system.pool.Course options reports closings)
    (hrefuses : system.pool.Refuses) (move : Move) :
    (system.step destination move).pool.queue <:+ system.pool.queue ∧
      (system.step destination move).pool.Refuses := by
  cases move with
  | act action =>
      exact h.queue_act hrefuses (Pool.effect_step destination.send action system.log)
  | cancel => exact ⟨List.suffix_rfl, hrefuses⟩
  | close =>
      rw [System.step]
      split
      · exact ⟨List.suffix_rfl, .inl rfl⟩
      · exact ⟨List.suffix_rfl, hrefuses⟩
  | call isCancelled record =>
      cases hopen : system.pool.isClosed with
      | true =>
          have hsame : system.step destination (.call isCancelled record) = system := by
            rw [System.step, hopen]
            cases system.pool.call <;> rfl
          rw [hsame]
          exact ⟨List.suffix_rfl, hrefuses⟩
      | false =>
          rcases hrefuses with hclosed | ⟨hfailure, result, hcall⟩
          · rw [hopen] at hclosed
            cases hclosed
          · rw [stopped_of_failure hopen hcall hfailure]
            exact ⟨List.suffix_rfl, .inr ⟨hfailure, _, rfl⟩⟩

theorem Pool.Course.queue_run (h : system.pool.Course options reports closings)
    (hrefuses : system.pool.Refuses) (moves : List Move) :
    (system.run destination moves).pool.queue <:+ system.pool.queue := by
  induction moves generalizing system reports closings with
  | nil => exact List.suffix_rfl
  | cons move moves ih =>
      obtain ⟨hsuffix, hstill⟩ := @queue_step _ destination _ _ _ h hrefuses move
      exact (ih (h.step move) hstill).trans hsuffix

end Runs

end RedisSnapshot.Load
