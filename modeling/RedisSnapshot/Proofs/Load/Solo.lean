import RedisSnapshot.Proofs.Load.Parcels
import RedisSnapshot.Proofs.Load.Tracks

/-!
# A load with one worker

With one worker nothing overtakes anything, so what it has delivered at any moment and what it will
deliver of the records that wait are together the parcels of all that was handed over. This holds
whatever the destination answers, up to the first failure that the worker cannot get over; from then
on the load is doomed, and closing it tells so.
-/

namespace RedisSnapshot.Load

/-- The parcels were delivered one after another, each before the next, and this was sent. -/
inductive Sends (options : Options) (destination : Destination) :
    List Parcel → List Pipeline → Prop where
  | nil : Sends options destination [] []
  | snoc {sent : List Parcel} {parcel : Parcel} {before after : List Pipeline}
      (earlier : Sends options destination sent before) (hrecords : parcel.records ≠ [])
      (last : deliver options (destination.send 0) parcel.database parcel.records before =
        (.done, after)) : Sends options destination (sent ++ [parcel]) after

theorem Sends.portions {options : Options} {destination : Destination} {sent : List Parcel}
    {before after : List Pipeline} {database : Nat} {records : List Record}
    (h : Sends options destination sent before)
    (hdelivered : deliver options (destination.send 0) database records before = (.done, after))
    (hlength : records.length ≤ options.batchSize) :
    Sends options destination (sent ++ Parcel.portions options.batchSize ⟨database, records⟩)
      after := by
  rw [Parcel.portions_of_le options.batchSize_pos hlength]
  by_cases hempty : records.isEmpty
  · rw [deliver, if_pos hempty] at hdelivered
    cases hdelivered
    rw [if_pos hempty, List.append_nil]
    exact h
  · rw [if_neg hempty]
    exact .snoc h (fun hnone => hempty (List.isEmpty_iff.2 hnone)) hdelivered

namespace Worker

def HasRoom (options : Options) (worker : Worker) : Prop :=
  match worker.stage with
  | .sending .full => worker.batch.length = options.batchSize
  | _ => worker.batch.length < options.batchSize

/-- A worker who was told nothing can be told a database. -/
theorem IsHealthy.announced_of_pending {worker : Worker} (h : worker.IsHealthy)
    (hpending : worker.pending? = none) (index : Nat) :
    worker.announced = none ∧
      ({ worker with announced := some index } : Worker).pending? = some index ∧
      ({ worker with announced := some index } : Worker).IsHealthy := by
  unfold IsHealthy at h ⊢
  unfold pending? at hpending ⊢
  cases hstage : worker.stage with
  | sending purpose => cases purpose <;> simp_all
  | _ => simp_all

/-- The worker has met a failure and its end has not been taken note of. -/
def hasFailed (worker : Worker) : Bool :=
  match worker.stage with
  | .failing _ | .died => true
  | _ => false

end Worker

namespace Call

/-- The record that the call has not brought to anyone yet. -/
def awaited : Call → List Record
  | admitting record => [record]
  | draining index | switching index 0 _ => [.selectDb index]
  | returned _ | switching _ (_ + 1) _ | joining _ => []

/-- Whether the call has to do with the workers themselves. -/
def isAmongWorkers : Call → Bool
  | switching .. | joining _ => true
  | returned _ | admitting _ | draining _ => false

end Call

/-! ### A pool with one worker -/

section Only

variable {pool : Pool} {worker : Worker}

theorem Pool.workers_update (h : pool.workers = [worker]) (kept : Worker) :
    (pool.update 0 kept).workers = [kept] := by
  change pool.workers.set 0 kept = _
  rw [h]
  rfl

theorem Pool.only_worker (h : pool.workers = [worker]) {number : Nat} {found : Worker}
    (hworker : pool.workers[number]? = some found) : number = 0 ∧ found = worker := by
  rw [h, List.getElem?_singleton] at hworker
  split at hworker
  · exact ⟨‹_›, (Option.some.inj hworker).symm⟩
  · cases hworker

end Only

/-- The records that the worker is still to get, the next one first. -/
def Pool.awaiting (pool : Pool) (worker : Worker) : List Record :=
  pool.queue ++ worker.pending?.toList.map .selectDb ++ pool.call.awaited

/-- How the call and the only worker stand to each other. -/
inductive Pool.Stands (pool : Pool) (worker : Worker) : Prop where
  | apart (hopen : pool.isClosed = false) (hcall : pool.call.isAmongWorkers = false)
      (hpending : worker.pending? = none) (hchanged : pool.changed = 0)
  | untold {index : Nat} (hopen : pool.isClosed = false) (hcall : pool.call = .switching index 0 0)
      (hqueue : pool.queue = []) (hpending : worker.pending? = none) (hchanged : pool.changed = 0)
  | told {index : Nat} (hopen : pool.isClosed = false) (hcall : pool.call = .switching index 1 0)
      (hqueue : pool.queue = []) (hpending : worker.pending? = some index)
      (hchanged : pool.changed = 0)
  | answered {index gathered : Nat} (hopen : pool.isClosed = false)
      (hcall : pool.call = .switching index 1 gathered) (hqueue : pool.queue = [])
      (hpending : worker.pending? = none) (hchanged : pool.changed + gathered = 1)
  | joining {next : Nat} (hclosed : pool.isClosed = true) (hcall : pool.call = .joining next)
      (hpending : worker.pending? = none) (hchanged : pool.changed = 0)
      (hnext : 0 < next → worker.stage = .ended)

theorem Pool.Stands.working {pool : Pool} {worker kept : Worker} {queue : List Record}
    (h : pool.Stands worker) (hpending : kept.pending? = worker.pending?)
    (hstage : worker.stage ≠ .ended) (hqueue : pool.queue = [] → queue = []) :
    Pool.Stands { pool.update 0 kept with queue } kept := by
  cases h with
  | apart hopen hcall hnone hchanged => exact .apart hopen hcall (hpending.trans hnone) hchanged
  | untold hopen hcall hempty hnone hchanged =>
      exact .untold hopen hcall (hqueue hempty) (hpending.trans hnone) hchanged
  | told hopen hcall hempty hsome hchanged =>
      exact .told hopen hcall (hqueue hempty) (hpending.trans hsome) hchanged
  | answered hopen hcall hempty hnone hchanged =>
      exact .answered hopen hcall (hqueue hempty) (hpending.trans hnone) hchanged
  | joining hclosed hcall hnone hchanged hended =>
      exact .joining hclosed hcall (hpending.trans hnone) hchanged
        fun hnext => absurd (hended hnext) hstage

/-- Nothing has gone wrong for the only worker, and these parcels were sent. -/
structure Solo (options : Options) (destination : Destination) (system : System) (worker : Worker)
    (sent : List Parcel) : Prop where
  configured : system.pool.options = options
  workers : system.pool.workers = [worker]
  failure : system.pool.failure = none
  cancelled : system.pool.isCancelled = false
  call : system.pool.call.IsSound
  healthy : worker.IsHealthy
  room : worker.HasRoom options
  queue : ∀ record ∈ system.pool.queue, record.isControl = false
  stands : system.pool.Stands worker
  leaving : worker.isLeaving = true → system.pool.isClosed = true ∧ system.pool.queue = []
  sends : Sends options destination sent system.log
  -- Whatever is still handed over, the cut goes on from what the worker has in its hands.
  plan : ∀ later : List Record, (system.pool.isClosed = true → later = []) →
    parcels options (system.handed ++ later) =
      sent ++ parcelsOnto options.batchSize worker.database worker.held
        (system.pool.awaiting worker ++ later)

namespace Solo

variable {options : Options} {destination : Destination} {system : System} {worker : Worker}
  {sent : List Parcel}

theorem start (hone : options.workerCount = 1) :
    Solo options destination (.start options) (.start options) [] where
  configured := rfl
  workers := by
    change List.replicate options.workerCount (Worker.start options) = _
    rw [hone]
    rfl
  failure := rfl
  cancelled := rfl
  call := rfl
  healthy := trivial
  room := by
    change 0 < max 1 options.batch
    omega
  queue := nofun
  stands := .apart rfl rfl rfl rfl
  leaving := nofun
  sends := .nil
  plan := fun later _ => by
    rw [List.nil_append]
    rfl

/-- The worker is at work as long as the pool is open. -/
theorem isGone_eq_false (h : Solo options destination system worker sent)
    (hopen : system.pool.isClosed = false) : worker.isGone = false := by
  have hhealthy := h.healthy
  have hleaving := h.leaving
  unfold Worker.IsHealthy at hhealthy
  unfold Worker.isLeaving at hleaving
  unfold Worker.isGone
  split
  · rename_i hstage
    rw [hstage] at hleaving
    rw [(hleaving rfl).1] at hopen
    cases hopen
  · rename_i hstage
    rw [hstage] at hhealthy
    cases hhealthy
  · rfl

theorem isDeserted_eq_false (h : Solo options destination system worker sent)
    (hopen : system.pool.isClosed = false) : system.pool.isDeserted = false := by
  rw [Pool.isDeserted, h.workers, List.all_cons, h.isGone_eq_false hopen]
  rfl

theorem check_eq (h : Solo options destination system worker sent) :
    system.pool.check false = .ok () := by
  rw [Pool.check, h.failure, h.cancelled]
  rfl

theorem isEnding_eq (h : Solo options destination system worker sent) :
    system.pool.isEnding = (system.pool.isClosed && system.pool.queue.isEmpty) := by
  rw [Pool.isEnding, h.cancelled, h.failure]
  rfl

theorem recheck_eq (h : Solo options destination system worker sent) :
    system.pool.recheck false = system.pool := by
  rw [Pool.recheck, h.check_eq]
  cases system.pool.call <;> rfl

theorem not_isLeaving (h : Solo options destination system worker sent)
    (hopen : system.pool.isClosed = false) : worker.isLeaving ≠ true := by
  intro hleaving
  rw [(h.leaving hleaving).1] at hopen
  cases hopen

theorem apart (h : Solo options destination system worker sent)
    (hcall : system.pool.call.isAmongWorkers = false) :
    system.pool.isClosed = false ∧ worker.pending? = none ∧ system.pool.changed = 0 := by
  cases h.stands with
  | apart hopen _ hpending hchanged => exact ⟨hopen, hpending, hchanged⟩
  | untold _ hother _ _ _ | told _ hother _ _ _ | answered _ hother _ _ _ | joining _ hother _ _ _ =>
      rw [hother] at hcall
      cases hcall

theorem isClosed_iff (h : Solo options destination system worker sent) :
    system.pool.isClosed = true ↔ ∃ next, system.pool.call = .joining next := by
  cases h.stands with
  | joining hclosed hcall _ _ _ => exact ⟨fun _ => ⟨_, hcall⟩, fun _ => hclosed⟩
  | apart hopen hcall _ _ | untold hopen hcall _ _ _ | told hopen hcall _ _ _
  | answered hopen hcall _ _ _ =>
      rw [hopen]
      refine ⟨nofun, fun ⟨next, hjoining⟩ => ?_⟩
      rw [hjoining] at hcall
      cases hcall

theorem ended_of_joining (h : Solo options destination system worker sent) {next : Nat}
    (hcall : system.pool.call = .joining next) (hnext : 0 < next) : worker.stage = .ended := by
  cases h.stands with
  | joining _ hjoining _ _ hended =>
      rw [hcall] at hjoining
      cases hjoining
      exact hended hnext
  | apart _ hother _ _ | untold _ hother _ _ _ | told _ hother _ _ _ | answered _ hother _ _ _ =>
      rw [hcall] at hother
      cases hother

/-! ### Steps of the caller -/

/-- The call goes on, and what the worker is still to get is the same as before. -/
theorem calling (h : Solo options destination system worker sent)
    (hopen : system.pool.isClosed = false) {queue : List Record} {changed : Nat} {call : Call}
    (hsound : call.IsSound) (hqueue : ∀ record ∈ queue, record.isControl = false)
    (hstands : Pool.Stands { system.pool with queue, changed, call } worker)
    (hawaiting : queue ++ worker.pending?.toList.map .selectDb ++ call.awaited =
      system.pool.awaiting worker) :
    Solo options destination { system with pool := { system.pool with queue, changed, call } }
      worker sent :=
  { h with
    call := hsound
    queue := hqueue
    stands := hstands
    leaving := fun hleaving => absurd hleaving (h.not_isLeaving hopen)
    plan := fun later hlater => by
      rw [Pool.awaiting, hawaiting]
      exact h.plan later hlater }

theorem begin (h : Solo options destination system worker sent) {result : Except Error Unit}
    (hcall : system.pool.call = .returned result) (record : Record) :
    Solo options destination
      { system with
        pool := system.pool.begin false record, handed := system.handed ++ [record] }
      worker sent := by
  obtain ⟨hopen, hpending, hchanged⟩ := h.apart (by rw [hcall]; rfl)
  have hplan : ∀ later, parcels options (system.handed ++ [record] ++ later) =
      sent ++ parcelsOnto options.batchSize worker.database worker.held
        (system.pool.queue ++ record :: later) := by
    intro later
    have hlater := h.plan (record :: later) (fun hclosed => by rw [hopen] at hclosed; cases hclosed)
    rw [Pool.awaiting, hpending, hcall] at hlater
    rw [List.append_assoc]
    simpa [Call.awaited] using hlater
  have hleaving := h.not_isLeaving hopen
  unfold Pool.begin
  rw [h.check_eq]
  cases hrecord : record with
  | keyed key value | selectDb index =>
      subst hrecord
      exact { h with
        call := by first | rfl | trivial
        stands := .apart hopen rfl hpending hchanged
        leaving := fun hleaves => absurd hleaves hleaving
        plan := fun later _ => by
          rw [hplan, Pool.awaiting, hpending]
          simp [Call.awaited] }
  | resizeDb keys expiring | aux field value =>
      subst hrecord
      exact { h with
        call := rfl
        stands := .apart hopen rfl hpending hchanged
        leaving := fun hleaves => absurd hleaves hleaving
        plan := fun later _ => by
          rw [hplan, Pool.awaiting, hpending, parcelsOnto_skip rfl rfl]
          simp [Call.awaited] }

theorem shut (h : Solo options destination system worker sent) {result : Except Error Unit}
    (hcall : system.pool.call = .returned result) :
    Solo options destination { system with pool := system.pool.shut } worker sent := by
  obtain ⟨hopen, hpending, hchanged⟩ := h.apart (by rw [hcall]; rfl)
  exact { h with
    call := trivial
    stands := .joining rfl rfl hpending hchanged nofun
    leaving := fun hleaves => absurd hleaves (h.not_isLeaving hopen)
    plan := fun later hlater => by
      cases hlater rfl
      have hnone := h.plan [] fun _ => rfl
      rw [Pool.awaiting, hcall] at hnone
      exact hnone }

theorem enqueue (h : Solo options destination system worker sent) {record : Record}
    (hcall : system.pool.call = .admitting record) :
    Solo options destination { system with pool := system.pool.enqueue record } worker sent := by
  obtain ⟨hopen, hpending, hchanged⟩ := h.apart (by rw [hcall]; rfl)
  have hkeyed := h.call
  rw [hcall] at hkeyed
  rw [Pool.enqueue, h.isDeserted_eq_false hopen, if_neg Bool.false_ne_true]
  by_cases hroom : system.pool.hasRoom
  · rw [if_pos hroom]
    refine h.calling hopen rfl ?_ (.apart hopen rfl hpending hchanged) ?_
    · intro candidate hmem
      rw [List.mem_append, List.mem_singleton] at hmem
      rcases hmem with hmem | rfl
      · exact h.queue candidate hmem
      · exact hkeyed
    · rw [Pool.awaiting, hpending, hcall]
      simp [Call.awaited]
  · rw [if_neg hroom]
    exact h

theorem drain (h : Solo options destination system worker sent) {index : Nat}
    (hcall : system.pool.call = .draining index) :
    Solo options destination { system with pool := system.pool.drain index } worker sent := by
  obtain ⟨hopen, hpending, hchanged⟩ := h.apart (by rw [hcall]; rfl)
  rw [Pool.drain, h.isDeserted_eq_false hopen, Bool.or_false]
  by_cases hempty : system.pool.queue.isEmpty
  · rw [if_pos hempty]
    rw [List.isEmpty_iff] at hempty
    refine h.calling hopen trivial h.queue (.untold hopen rfl hempty hpending hchanged) ?_
    rw [Pool.awaiting, hcall]
    rfl
  · rw [if_neg hempty]
    exact h

theorem announce (h : Solo options destination system worker sent) {index : Nat}
    (hcall : system.pool.call = .switching index 0 0) :
    Solo options destination { system with pool := system.pool.announce index 0 0 worker }
      { worker with announced := some index } sent := by
  cases h.stands with
  | untold hopen hswitching hqueue hpending hchanged =>
      obtain ⟨hannounced, htold, hhealthy⟩ := h.healthy.announced_of_pending hpending index
      rw [Pool.announce, h.isGone_eq_false hopen, if_neg Bool.false_ne_true, hannounced]
      exact { h with
        workers := Pool.workers_update h.workers _
        call := trivial
        healthy := hhealthy
        room := h.room
        stands := .told hopen rfl hqueue htold hchanged
        leaving := fun hleaving => absurd hleaving (h.not_isLeaving hopen)
        plan := fun later hlater => by
          have hbefore := h.plan later hlater
          rw [Pool.awaiting, hpending, hcall, hqueue] at hbefore
          rw [Pool.awaiting, htold]
          change _ = sent ++ parcelsOnto _ _ _ (system.pool.queue ++ [.selectDb index] ++ [] ++ later)
          rw [hqueue]
          exact hbefore }
  | apart _ hother _ _ | joining _ hother _ _ _ | told _ hother _ _ _ | answered _ hother _ _ _ =>
      rw [hcall] at hother
      cases hother

theorem gather (h : Solo options destination system worker sent) {index gathered : Nat}
    (hcall : system.pool.call = .switching index 1 gathered) :
    Solo options destination { system with pool := system.pool.gather index 1 gathered }
      worker sent := by
  have hlength : system.pool.workers.length = 1 := congrArg List.length h.workers
  cases h.stands with
  | told hopen hswitching hqueue hpending hchanged =>
      rw [hcall] at hswitching
      cases hswitching
      rw [Pool.gather, hlength, if_neg Nat.zero_ne_one, hchanged, if_neg (Nat.lt_irrefl 0),
        h.isDeserted_eq_false hopen, if_neg Bool.false_ne_true]
      exact h
  | answered hopen hswitching hqueue hpending hchanged =>
      rw [hcall] at hswitching
      cases hswitching
      have hawaiting : ∀ call : Call, call.awaited = [] →
          system.pool.queue ++ worker.pending?.toList.map .selectDb ++ call.awaited =
            system.pool.awaiting worker := by
        intro call hnone
        rw [Pool.awaiting, hcall, hnone]
        rfl
      rw [Pool.gather, hlength]
      by_cases hall : gathered = 1
      · have hnone : system.pool.changed = 0 := by omega
        rw [if_pos hall]
        exact h.calling hopen rfl h.queue (.apart hopen rfl hpending hnone) (hawaiting _ rfl)
      · have hsome : system.pool.changed - 1 + (gathered + 1) = 1 := by omega
        rw [if_neg hall, if_pos (by omega)]
        exact h.calling hopen trivial h.queue (.answered hopen rfl hqueue hpending hsome)
          (hawaiting _ rfl)
  | apart _ hother _ _ | joining _ hother _ _ _ | untold _ hother _ _ _ =>
      rw [hcall] at hother
      cases hother

theorem join (h : Solo options destination system worker sent)
    (hcall : system.pool.call = .joining 0) :
    Solo options destination { system with pool := system.pool.join 0 worker } worker sent := by
  cases h.stands with
  | joining hclosed hother hpending hchanged _ =>
      rw [Pool.join]
      cases hstage : worker.stage with
      | ended =>
          exact { h with
            call := trivial
            stands := .joining hclosed rfl hpending hchanged fun _ => hstage
            leaving := h.leaving
            plan := fun later hlater => by
              have hbefore := h.plan later hlater
              rw [Pool.awaiting, hcall] at hbefore
              exact hbefore }
      | died =>
          have hhealthy := h.healthy
          rw [Worker.IsHealthy, hstage] at hhealthy
          cases hhealthy
      | running | holding _ | sending _ | changed _ | failing _ => exact h
  | apart _ hother _ _ | told _ hother _ _ _ | answered _ hother _ _ _ | untold _ hother _ _ _ =>
      rw [hcall] at hother
      cases hother

/-- Once the worker has ended there is nothing that it is still to get. -/
theorem sends_of_joined (h : Solo options destination system worker sent) {next : Nat}
    (hcall : system.pool.call = .joining (next + 1)) :
    Sends options destination (parcels options system.handed) system.log := by
  cases h.stands with
  | joining hclosed hjoining hpending hchanged hended =>
      have hstage : worker.stage = .ended := by
        rw [hcall] at hjoining
        cases hjoining
        exact hended (Nat.succ_pos next)
      have hhealthy := h.healthy
      rw [Worker.IsHealthy, hstage] at hhealthy
      have hplan := h.plan [] fun _ => rfl
      have hqueue := (h.leaving (by rw [Worker.isLeaving, hstage])).2
      have hheld : worker.held = [] := by
        rw [Worker.held, hhealthy, hstage]
        rfl
      rw [Pool.awaiting, hqueue, hpending, hcall, hheld] at hplan
      change parcels options (system.handed ++ []) = sent ++ parcelsOnto _ _ [] [] at hplan
      rw [List.append_nil, parcelsOnto_nil, Parcel.portions_nil, List.append_nil] at hplan
      rw [hplan]
      exact h.sends
  | apart _ hother _ _ | told _ hother _ _ _ | answered _ hother _ _ _ | untold _ hother _ _ _ =>
      rw [hcall] at hother
      cases hother

/-! ### Steps of the worker -/

/-- The worker gets on with what it has, or takes a record from those that wait for it. -/
theorem working (h : Solo options destination system worker sent) {kept : Worker}
    {queue : List Record} (hhealthy : kept.IsHealthy) (hroom : kept.HasRoom options)
    (hqueue : ∀ record ∈ queue, record ∈ system.pool.queue)
    (hstands : Pool.Stands { system.pool.update 0 kept with queue } kept)
    (hleaving : kept.isLeaving = true → system.pool.isClosed = true ∧ queue = [])
    (hplan : ∀ later, parcelsOnto options.batchSize kept.database kept.held
        (queue ++ kept.pending?.toList.map .selectDb ++ system.pool.call.awaited ++ later) =
      parcelsOnto options.batchSize worker.database worker.held
        (system.pool.awaiting worker ++ later)) :
    Solo options destination { system with pool := { system.pool.update 0 kept with queue } }
      kept sent :=
  { h with
    workers := Pool.workers_update h.workers _
    healthy := hhealthy
    room := hroom
    queue := fun record hmem => h.queue record (hqueue record hmem)
    stands := hstands
    leaving := hleaving
    plan := fun later hlater => (h.plan later hlater).trans (congrArg (sent ++ ·) (hplan later).symm) }

/-- The worker gets on with what it has and takes nothing. -/
theorem staying (h : Solo options destination system worker sent) {kept : Worker}
    (hhealthy : kept.IsHealthy) (hroom : kept.HasRoom options)
    (hworks : worker.stage ≠ .ended) (hpending : kept.pending? = worker.pending?)
    (hheld : kept.held = worker.held) (hdatabase : kept.database = worker.database)
    (hleaving : kept.isLeaving = true →
      system.pool.isClosed = true ∧ system.pool.queue = []) :
    Solo options destination { system with pool := system.pool.update 0 kept } kept sent := by
  refine h.working hhealthy hroom (fun _ hmem => hmem) (h.stands.working hpending hworks id)
    hleaving fun later => ?_
  rw [hpending, hheld, hdatabase]
  rfl

/-- As long as records wait in the queue, no database has been announced. -/
theorem pending_of_queue (h : Solo options destination system worker sent)
    (hqueue : system.pool.queue ≠ []) : worker.pending? = none := by
  cases h.stands with
  | apart _ _ hpending _ | joining _ _ hpending _ _ => exact hpending
  | untold _ _ hempty _ _ | told _ _ hempty _ _ | answered _ _ hempty _ _ =>
      exact absurd hempty hqueue

theorem receive (h : Solo options destination system worker sent) (number : Nat) :
    ∃ after, Solo options destination { system with pool := system.pool.receive number }
      after sent := by
  rw [Pool.receive]
  split
  · rename_i found record queue hworker hqueue
    by_cases hrunning : found.isRunning
    · rw [if_pos hrunning]
      obtain ⟨rfl, rfl⟩ := Pool.only_worker h.workers hworker
      let kept : Worker := { found with stage := .holding record }
      have hstage := Worker.stage_of_isRunning hrunning
      have hpending := h.pending_of_queue (by rw [hqueue]; exact List.cons_ne_nil _ _)
      have hkept : kept.pending? = none := by
        rw [Worker.pending?, hstage] at hpending
        exact hpending
      have hheld : kept.held = found.held ++ [record] := by
        rw [Worker.held, Worker.held, hstage, List.append_nil]
      have hkeyed := h.queue record (by rw [hqueue]; exact List.mem_cons_self)
      have hroom := h.room
      rw [Worker.HasRoom, hstage] at hroom
      refine ⟨kept, h.working trivial hroom ?_
        (h.stands.working (hkept.trans hpending.symm) (by simp [hstage]) ?_)
        (fun hleaving => absurd hleaving Bool.false_ne_true) ?_⟩
      · intro candidate hmem
        rw [hqueue]
        exact List.mem_cons_of_mem record hmem
      · intro hempty
        rw [hempty] at hqueue
        cases hqueue
      · intro later
        rw [hkept, hheld, Pool.awaiting, hqueue, hpending]
        exact (parcelsOnto_keyed hkeyed).symm
    · rw [if_neg hrunning]
      exact ⟨worker, h⟩
  · exact ⟨worker, h⟩

theorem listen (h : Solo options destination system worker sent) (number : Nat) :
    ∃ after, Solo options destination { system with pool := system.pool.listen number }
      after sent := by
  rw [Pool.listen]
  split
  · rename_i found hworker
    split
    · rename_i index hrunning hannounced
      obtain ⟨rfl, rfl⟩ := Pool.only_worker h.workers hworker
      let kept : Worker := { found with announced := none, stage := .sending (.changing index) }
      have hstage := Worker.stage_of_isRunning hrunning
      have hpending : kept.pending? = found.pending? := by
        rw [Worker.pending?, Worker.pending?, hstage, hannounced]
      have hheld : kept.held = found.held := by
        rw [Worker.held, Worker.held, hstage]
      have hroom := h.room
      rw [Worker.HasRoom, hstage] at hroom
      exact ⟨kept, h.staying rfl hroom (by simp [hstage]) hpending hheld rfl
        fun hleaving => absurd hleaving Bool.false_ne_true⟩
    · exact ⟨worker, h⟩
  · exact ⟨worker, h⟩

theorem leave (h : Solo options destination system worker sent) (number : Nat) :
    ∃ after, Solo options destination { system with pool := system.pool.leave number }
      after sent := by
  rw [Pool.leave]
  split
  · rename_i found hworker
    by_cases hleaving : found.isRunning && system.pool.isEnding
    · rw [if_pos hleaving]
      rw [Bool.and_eq_true, h.isEnding_eq, Bool.and_eq_true, List.isEmpty_iff] at hleaving
      obtain ⟨hrunning, hending⟩ := hleaving
      obtain ⟨rfl, rfl⟩ := Pool.only_worker h.workers hworker
      let kept : Worker := { found with stage := .sending .leaving }
      have hstage := Worker.stage_of_isRunning hrunning
      have hpending : kept.pending? = found.pending? := by
        rw [Worker.pending?, Worker.pending?, hstage]
      have hheld : kept.held = found.held := by
        rw [Worker.held, Worker.held, hstage]
      have hroom := h.room
      rw [Worker.HasRoom, hstage] at hroom
      exact ⟨kept, h.staying trivial hroom (by simp [hstage]) hpending hheld rfl
        fun _ => hending⟩
    · rw [if_neg hleaving]
      exact ⟨worker, h⟩
  · exact ⟨worker, h⟩

theorem keep (h : Solo options destination system worker sent) {record : Record}
    (hstage : worker.stage = .holding record) :
    Solo options destination
      { system with pool := system.pool.update 0 (worker.keep options record) }
      (worker.keep options record) sent := by
  have hroom := h.room
  rw [Worker.HasRoom, hstage] at hroom
  have hkept : ∀ stage, stage = .running ∨ stage = .sending .full →
      Worker.HasRoom options { worker with batch := record :: worker.batch, stage } →
      Solo options destination
        { system with
          pool := system.pool.update 0 { worker with batch := record :: worker.batch, stage } }
        { worker with batch := record :: worker.batch, stage } sent := by
    intro stage hnext hkeptRoom
    let kept : Worker := { worker with batch := record :: worker.batch, stage }
    have hpending : kept.pending? = worker.pending? := by
      rw [Worker.pending?, Worker.pending?, hstage]
      rcases hnext with rfl | rfl <;> rfl
    have hheld : kept.held = worker.held := by
      rw [Worker.held, Worker.held, hstage, List.reverse_cons]
      rcases hnext with rfl | rfl <;> exact List.append_nil _
    refine h.staying ?_ hkeptRoom (by simp [hstage]) hpending hheld rfl ?_
    · rcases hnext with rfl | rfl <;> trivial
    · intro hleaving
      rcases hnext with rfl | rfl <;> exact absurd hleaving Bool.false_ne_true
  by_cases hfull : options.batchSize ≤ worker.batch.length + 1
  · have hstages : worker.keep options record =
        { worker with batch := record :: worker.batch, stage := .sending .full } := by
      rw [Worker.keep, List.length_cons, if_pos hfull]
    rw [hstages]
    exact hkept _ (.inr rfl) (Nat.le_antisymm hroom hfull)
  · have hstages : worker.keep options record =
        { worker with batch := record :: worker.batch, stage := .running } := by
      rw [Worker.keep, List.length_cons, if_neg hfull]
    rw [hstages]
    exact hkept _ (.inl rfl) (Nat.lt_of_not_le hfull)

/-- The worker was told what it now changes to, and has sent what it had before. -/
theorem change (h : Solo options destination system worker sent) {index : Nat}
    (hstage : worker.stage = .changed index) :
    Solo options destination
      { system with
        pool := { system.pool.update 0 (worker.change index) with
          changed := system.pool.changed + 1 } }
      (worker.change index) sent := by
  have hhealthy := h.healthy
  have hroom := h.room
  rw [Worker.IsHealthy, hstage] at hhealthy
  rw [Worker.HasRoom, hstage] at hroom
  obtain ⟨hannounced, hbatch⟩ := hhealthy
  have hpending : worker.pending? = some index := by
    rw [Worker.pending?, hstage]
  have hheld : worker.held = [] := by
    rw [Worker.held, hbatch, hstage]
    rfl
  have hkept : (worker.change index).pending? = none := hannounced
  have hkeptHeld : (worker.change index).held = [] := by
    rw [Worker.held, Worker.change, hbatch]
    rfl
  cases h.stands with
  | told hopen hcall hqueue htold hchanged =>
      have hanswered : system.pool.changed + 1 + 0 = 1 := by rw [hchanged]
      exact { h with
        workers := Pool.workers_update h.workers _
        healthy := trivial
        room := hroom
        stands := .answered hopen hcall hqueue hkept hanswered
        leaving := fun hleaving => absurd hleaving Bool.false_ne_true
        plan := fun later hlater => by
          have hbefore := h.plan later hlater
          rw [Pool.awaiting, hqueue, hpending, hcall, hheld] at hbefore
          rw [Pool.awaiting, hkept, hkeptHeld]
          change _ = sent ++ parcelsOnto _ index []
            (system.pool.queue ++ [] ++ system.pool.call.awaited ++ later)
          rw [hqueue, hcall]
          refine hbefore.trans (congrArg (sent ++ ·) ?_)
          change parcelsOnto _ _ [] (.selectDb index :: later) = _
          rw [parcelsOnto_selector, Parcel.portions_nil]
          rfl }
  | apart _ _ hnone _ | untold _ _ _ hnone _ | answered _ _ _ hnone _ | joining _ _ hnone _ _ =>
      rw [hnone] at hpending
      cases hpending

/-- What is gathered and sent are the parcels that it comes to, whatever still waits behind it. -/
theorem parcelsOnto_of_sending (h : Solo options destination system worker sent)
    {purpose : Worker.Purpose} (hstage : worker.stage = .sending purpose) (later : List Record)
    (hlater : system.pool.isClosed = true → later = []) :
    parcelsOnto options.batchSize worker.database worker.batch.reverse
        (system.pool.awaiting worker ++ later) =
      Parcel.portions options.batchSize ⟨worker.database, worker.batch.reverse⟩ ++
        parcelsOnto options.batchSize worker.database [] (system.pool.awaiting worker ++ later) := by
  have hroom := h.room
  rw [Worker.HasRoom, hstage] at hroom
  -- A full batch is a portion by itself, and behind the other two there is a cut anyway.
  cases purpose with
  | full =>
      have hlength : worker.batch.reverse.length = options.batchSize :=
        List.length_reverse.trans hroom
      exact parcelsOnto_eq_portions options.batchSize_pos hlength _
  | changing index =>
      have hpending : worker.pending? = some index := by
        rw [Worker.pending?, hstage]
      cases h.stands with
      | told _ _ hqueue _ _ =>
          rw [Pool.awaiting, hqueue, hpending]
          change parcelsOnto _ _ _ (.selectDb index :: _) =
            _ ++ parcelsOnto _ _ [] (.selectDb index :: _)
          rw [parcelsOnto_selector, parcelsOnto_selector, Parcel.portions_nil]
          rfl
      | apart _ _ hnone _ | untold _ _ _ hnone _ | answered _ _ _ hnone _ | joining _ _ hnone _ _ =>
          rw [hnone] at hpending
          cases hpending
  | leaving =>
      obtain ⟨hclosed, hqueue⟩ := h.leaving (by rw [Worker.isLeaving, hstage])
      cases h.stands with
      | joining _ hcall hpending _ _ =>
          rw [hlater hclosed, Pool.awaiting, hqueue, hpending, hcall]
          change parcelsOnto _ _ _ [] = _ ++ parcelsOnto _ _ [] []
          rw [parcelsOnto_nil, parcelsOnto_nil, Parcel.portions_nil, List.append_nil]
      | apart hopen _ _ _ | untold hopen _ _ _ _ | told hopen _ _ _ _ | answered hopen _ _ _ _ =>
          rw [hopen] at hclosed
          cases hclosed

theorem length_batch_le (h : Solo options destination system worker sent) :
    worker.batch.length ≤ options.batchSize := by
  have hroom := h.room
  unfold Worker.HasRoom at hroom
  split at hroom
  · exact Nat.le_of_eq hroom
  · exact Nat.le_of_lt hroom

theorem flush (h : Solo options destination system worker sent) {purpose : Worker.Purpose}
    (hstage : worker.stage = .sending purpose) {after : List Pipeline}
    (hdelivered : deliver options (destination.send 0) worker.database worker.batch.reverse
      system.log = (.done, after)) :
    Solo options destination
      { system with
        pool := system.pool.update 0 { worker with batch := [], stage := purpose.next }
        log := after }
      { worker with batch := [], stage := purpose.next }
      (sent ++ Parcel.portions options.batchSize ⟨worker.database, worker.batch.reverse⟩) := by
  let kept : Worker := { worker with batch := [], stage := purpose.next }
  have hhealthy := h.healthy
  have hleaving := h.leaving
  have hpending : kept.pending? = worker.pending? := by
    rw [Worker.pending?, Worker.pending?, hstage]
    cases purpose <;> rfl
  have hheld : worker.held = worker.batch.reverse := by
    rw [Worker.held, hstage, List.append_nil]
  have hkeptHeld : kept.held = [] := by
    cases purpose <;> rfl
  rw [Worker.IsHealthy, hstage] at hhealthy
  rw [Worker.isLeaving, hstage] at hleaving
  exact { h with
    workers := Pool.workers_update h.workers _
    healthy := by
      cases purpose with
      | full => trivial
      | changing index => exact ⟨hhealthy, rfl⟩
      | leaving => rfl
    room := by
      cases purpose <;> exact options.batchSize_pos
    stands := h.stands.working hpending (by simp [hstage]) id
    leaving := by
      cases purpose with
      | full | changing index => exact fun hleft => absurd hleft Bool.false_ne_true
      | leaving => exact hleaving
    sends := h.sends.portions hdelivered (by rw [List.length_reverse]; exact h.length_batch_le)
    plan := fun later hlater => by
      have hbefore := h.plan later hlater
      rw [hheld, h.parcelsOnto_of_sending hstage later hlater, ← List.append_assoc] at hbefore
      rw [Pool.awaiting, hpending, hkeptHeld]
      exact hbefore }

end Solo

end RedisSnapshot.Load
