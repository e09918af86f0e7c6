import RedisSnapshot.Load.Run
import RedisSnapshot.Proofs.Load.Requests

/-!
# Loads under any schedule

A load consists of the pool, its caller and a destination. Whoever takes the next step is left open:
a run is a list of moves, in any order, and a move that cannot be made changes nothing. The
destination answers a pipeline as it likes and may take into account all that it was sent before.
-/

namespace RedisSnapshot.Load

structure Pipeline where
  worker : Nat
  commands : List Command

/-- What is answered to a pipeline behind those that were sent before it. -/
def Destination : Type :=
  List Pipeline → Nat → List Command → Execution

theorem mapM_result_of_accepted {replies : List Reply} (h : ∀ line, Reply.error line ∉ replies) :
    replies.mapM Reply.result = .ok replies := by
  induction replies with
  | nil => rfl
  | cons reply replies ih =>
      have hreply : reply.result = .ok reply := by
        cases reply with
        | error line => exact absurd List.mem_cons_self (h line)
        | simple _ | integer _ | bulk _ | array _ | nullBulk | nullArray => rfl
      have hrest := ih fun line hmem => h line (List.mem_cons_of_mem _ hmem)
      rw [List.mapM_cons, hreply, hrest]
      rfl

/-- The first error line is told. -/
theorem mapM_result_of_refused {front back : List Reply} {line : Bytes}
    (h : ∀ other, Reply.error other ∉ front) :
    (front ++ .error line :: back).mapM Reply.result = .error (.destination (.refused line)) := by
  rw [List.mapM_append, mapM_result_of_accepted h, List.mapM_cons]
  rfl

theorem accepted_or_refused (replies : List Reply) :
    (∀ line, Reply.error line ∉ replies) ∨
      ∃ (front back : List Reply) (line : Bytes), replies = front ++ .error line :: back ∧
        ∀ other, Reply.error other ∉ front := by
  have hnever : ∀ {others : List Reply}, (∀ reply ∈ others, reply.isError = false) →
      ∀ line, Reply.error line ∉ others := by
    intro others hothers line hmem
    cases hothers _ hmem
  cases hfirst : replies.find? Reply.isError with
  | none =>
      refine .inl (hnever fun reply hmem => ?_)
      exact Bool.eq_false_iff.2 (List.find?_eq_none.1 hfirst reply hmem)
  | some reply =>
      obtain ⟨hreply, front, back, hreplies, hfront⟩ := List.find?_eq_some_iff_append.1 hfirst
      cases reply with
      | error line =>
          refine .inr ⟨front, back, line, hreplies, hnever fun reply hmem => ?_⟩
          exact (Bool.not_eq_true' _).mp (hfront reply hmem)
      | simple _ | integer _ | bulk _ | array _ | nullBulk | nullArray => cases hreply

theorem accepted_of_judge {commands : List Command} {replies : List Reply}
    (h : judge commands (.answered replies) = .done) : ∀ line, Reply.error line ∉ replies := by
  rw [judge] at h
  split at h
  · rcases accepted_or_refused replies with haccepted | ⟨front, back, line, hreplies, hfront⟩
    · exact haccepted
    · rw [hreplies, mapM_result_of_refused hfront] at h
      cases h
  · cases h

namespace Destination

def send (destination : Destination) (number : Nat) (commands : List Command) :
    StateM (List Pipeline) Execution :=
  fun log => (destination log number commands, log ++ [⟨number, commands⟩])

def Succeeds (destination : Destination) : Prop :=
  ∀ log number commands, judge commands (destination log number commands) = .done

def agreeing : Destination :=
  fun _ _ commands => .answered (commands.map fun _ => .simple [79, 75])

theorem agreeing_succeeds : agreeing.Succeeds := by
  intro _ _ commands
  have haccepted : ∀ line, Reply.error line ∉ commands.map fun _ => Reply.simple [79, 75] := by
    intro line hmem
    obtain ⟨_, _, hreply⟩ := List.mem_map.mp hmem
    cases hreply
  rw [agreeing, judge, if_pos (List.length_map _), mapM_result_of_accepted haccepted]

end Destination

structure System where
  pool : Pool
  handed : List Record
  log : List Pipeline

inductive Move where
  /-- A record is handed over by a caller who may be cancelled. -/
  | call (isCancelled : Bool) (record : Record)
  | close
  | cancel
  | act (action : Pool.Action)

def Move.isCancellation : Move → Bool
  | call isCancelled _ => isCancelled
  | close => false
  | cancel => true
  | act (.recheck isCancelled) => isCancelled
  | act _ => false

namespace System

def start (options : Options) : System :=
  ⟨.start options false, [], []⟩

/-- The caller waits for a call to return before the next, and hands nothing over once closed. -/
def step (destination : Destination) (system : System) : Move → System
  | .call isCancelled record =>
      match system.pool.call, system.pool.isClosed with
      | .returned _, false =>
          { system with
            pool := system.pool.begin isCancelled record, handed := system.handed ++ [record] }
      | _, _ => system
  | .close =>
      match system.pool.call with
      | .returned _ => { system with pool := system.pool.shut }
      | _ => system
  | .cancel => { system with pool := { system.pool with isCancelled := true } }
  | .act action =>
      let (pool, log) := (system.pool.step destination.send action).run system.log
      { system with pool, log }

def isOver (system : System) : Bool :=
  system.pool.isClosed && match system.pool.call with
    | .returned _ => true
    | _ => false

def run (destination : Destination) (system : System) (moves : List Move) : System :=
  moves.foldl (step destination) system

end System

theorem bind_apply {σ α β : Type} (first : StateM σ α) (next : α → StateM σ β) (state : σ) :
    (first >>= next) state = next (first state).1 (first state).2 :=
  rfl

theorem bind_apply_pool {α β : Type} (first : StateT Pool (StateM (List Pipeline)) α)
    (next : α → StateT Pool (StateM (List Pipeline)) β) (pool : Pool) (log : List Pipeline) :
    (first >>= next) pool log =
      next (first pool log).1.1 (first pool log).1.2 (first pool log).2 :=
  rfl

section Success

variable {destination : Destination} (hsucceeds : destination.Succeeds)

include hsucceeds

theorem attempt_of_succeeds (number : Nat) (commands : List Command) (retries : Nat)
    (log : List Pipeline) :
    attempt (destination.send number) commands retries log =
      (.done, log ++ [⟨number, commands⟩]) := by
  have hsend : judge commands (destination.send number commands log).1 = .done :=
    hsucceeds log number commands
  cases retries with
  | zero =>
      rw [attempt, bind_apply, hsend]
      rfl
  | succ retries =>
      rw [attempt, bind_apply, hsend]
      rfl

theorem deliver_of_succeeds (options : Options) (number database : Nat) (batch : List Record)
    (log : List Pipeline) :
    deliver options (destination.send number) database batch log =
      (.done, log ++ if batch.isEmpty then []
        else [⟨number, Parcel.commands options ⟨database, batch⟩⟩]) := by
  rw [deliver, writeCommands_eq, deleteCommands_eq, Parcel.commands]
  by_cases hempty : batch.isEmpty
  · rw [if_pos hempty, if_pos hempty, List.append_nil]
    rfl
  · rw [if_neg hempty, if_neg hempty]
    by_cases hdelete : options.deleteOnly
    · rw [if_pos hdelete, if_pos hdelete]
      exact attempt_of_succeeds hsucceeds number _ _ log
    · rw [if_neg hdelete, if_neg hdelete, bind_apply, attempt_of_succeeds hsucceeds]
      rfl

theorem flush_of_succeeds (options : Options) (number : Nat) (purpose : Worker.Purpose)
    (worker : Worker) (log : List Pipeline) :
    worker.flush options (destination.send number) purpose log =
      ({ worker with batch := [], stage := purpose.next },
        log ++ if worker.batch.reverse.isEmpty then []
          else [⟨number, Parcel.commands options ⟨worker.database, worker.batch.reverse⟩⟩]) := by
  rw [Worker.flush, bind_apply, deliver_of_succeeds hsucceeds]
  rfl

end Success

/-! ### The program's own schedule -/

section Program

variable {destination : Destination} {destinations : Destinations (StateM (List Pipeline))}
  {system : System} {result : Except Error Unit}

theorem steps_eq_run (actions : List Pool.Action) (system : System) :
    system.pool.steps destination.send actions system.log =
      ((system.run destination (actions.map .act)).pool,
        (system.run destination (actions.map .act)).log) := by
  induction actions generalizing system with
  | nil => rfl
  | cons action actions ih =>
      rw [Pool.steps, List.foldlM_cons, bind_apply]
      exact ih (system.step destination (.act action))

theorem conclude_steps_eq_run (actions : List Pool.Action) (system : System) :
    (do return conclude (← system.pool.steps destination.send actions) :
        StateM (List Pipeline) (Except Error Unit × Pool)) system.log =
      (conclude (system.run destination (actions.map .act)).pool,
        (system.run destination (actions.map .act)).log) := by
  rw [bind_apply, steps_eq_run]
  rfl

/-! The program cancels nothing by itself. -/

theorem isCancellation_of_mem_settle {pool : Pool} {action : Pool.Action} (h : action ∈ settle pool) :
    (Move.act action).isCancellation = false := by
  rcases List.mem_append.1 h with hmem | hmem
  · obtain ⟨number, _, rfl⟩ := List.mem_map.1 hmem
    rfl
  · obtain ⟨number, _, hmem⟩ := List.mem_flatMap.1 hmem
    simp only [List.mem_cons, List.not_mem_nil, or_false] at hmem
    rcases hmem with rfl | rfl | rfl <;> rfl

theorem isCancellation_of_mem_assign {pool : Pool} {action : Pool.Action} (h : action ∈ assign pool) :
    (Move.act action).isCancellation = false := by
  unfold assign at h
  dsimp only at h
  split at h
  · rcases List.mem_append.1 h with hmem | hmem
    · simp only [List.mem_cons, List.not_mem_nil, or_false] at hmem
      rcases hmem with rfl | rfl | rfl | rfl <;> rfl
    · exact isCancellation_of_mem_settle hmem
  · rw [List.mem_singleton.1 h]
    rfl

theorem isCancellation_of_mem_switch {pool : Pool} {action : Pool.Action}
    (h : action ∈ switch false pool) : (Move.act action).isCancellation = false := by
  unfold switch at h
  simp only [List.mem_append, List.mem_flatMap, List.mem_cons, List.not_mem_nil, or_false] at h
  rcases h with ((rfl | ⟨_, _, hmem | hmem⟩) | ⟨_, _, hmem⟩) | rfl
  · rfl
  · rcases hmem with rfl | rfl | rfl | rfl | rfl <;> rfl
  · exact isCancellation_of_mem_settle hmem
  · rcases hmem with rfl | rfl <;> rfl
  · rfl

variable (hsend : destinations.send = destination.send)

include hsend

/-- What the program does with a record is one of the runs that begin with its call. -/
theorem handle_eq_run (hpause : destinations.pause = pure ()) (isCancelled : Bool) (record : Record)
    (hcall : system.pool.call = .returned result) (hopen : system.pool.isClosed = false) :
    ∃ actions : List Pool.Action,
      (isCancelled = false → ∀ action ∈ actions, (Move.act action).isCancellation = false) ∧
      handle destinations isCancelled record system.pool system.log =
        (conclude (system.run destination (.call isCancelled record :: actions.map .act)).pool,
          (system.run destination (.call isCancelled record :: actions.map .act)).log) := by
  let after : System :=
    { system with
      pool := system.pool.begin isCancelled record, handed := system.handed ++ [record] }
  have hafter : system.step destination (.call isCancelled record) = after := by
    rw [System.step, hcall, hopen]
  have hrun : ∀ actions : List Pool.Action,
      system.run destination (.call isCancelled record :: actions.map .act) =
        after.run destination (actions.map .act) := by
    intro actions
    rw [← hafter]
    rfl
  simp only [hrun]
  unfold handle
  rw [hsend, hpause]
  cases hbegun : (system.pool.begin isCancelled record).call with
  | admitting admitted =>
      refine ⟨assign after.pool, fun _ _ => isCancellation_of_mem_assign, ?_⟩
      rw [← conclude_steps_eq_run]
      by_cases hspeed : 0 < (system.pool.begin isCancelled record).options.speed
      · simp only [hspeed, if_true]
        rfl
      · simp only [hspeed, if_false]
        rfl
  | draining index =>
      refine ⟨switch isCancelled after.pool, fun hcaller _ hmem => ?_, ?_⟩
      · rw [hcaller] at hmem
        exact isCancellation_of_mem_switch hmem
      rw [← conclude_steps_eq_run]
  | returned _ | switching _ _ _ | joining _ => exact ⟨[], nofun, rfl⟩

theorem close_eq_run (hcall : system.pool.call = .returned result) :
    ∃ actions : List Pool.Action,
      (∀ action ∈ actions, (Move.act action).isCancellation = false) ∧
      close destinations system.pool system.log =
        (conclude (system.run destination (.close :: actions.map .act)).pool,
          (system.run destination (.close :: actions.map .act)).log) := by
  let after : System := { system with pool := system.pool.shut }
  have hafter : system.step destination .close = after := by
    rw [System.step, hcall]
  have hrun : ∀ actions : List Pool.Action,
      system.run destination (.close :: actions.map .act) =
        after.run destination (actions.map .act) := by
    intro actions
    rw [← hafter]
    rfl
  simp only [hrun]
  unfold close
  rw [hsend]
  refine ⟨(numbers system.pool).flatMap
    (fun number => [.leave number, .proceed number, .proceed number, .advance]) ++ [.advance],
    fun action hmem => ?_, ?_⟩
  · rcases List.mem_append.1 hmem with hmem | hmem
    · obtain ⟨number, _, hmem⟩ := List.mem_flatMap.1 hmem
      simp only [List.mem_cons, List.not_mem_nil, or_false] at hmem
      rcases hmem with rfl | rfl | rfl | rfl <;> rfl
    · rw [List.mem_singleton.1 hmem]
      rfl
  rw [← conclude_steps_eq_run]

end Program

end RedisSnapshot.Load
