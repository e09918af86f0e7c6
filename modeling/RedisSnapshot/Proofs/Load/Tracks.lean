import RedisSnapshot.Proofs.Load.Ledger

/-!
# How a ledger tracks a load

As long as no pipeline fails and nobody cancels, a ledger can be kept that agrees with the load and
has every worker in the era of what it holds. While a database is announced there are two eras. A
worker who was told is behind until it has answered; one that is ahead has nothing left to send, and
finds nothing in the queue, so it does not matter where the others are. The answers that were taken
note of and those that were not yet are as many as there are workers ahead.
-/

namespace RedisSnapshot.Load

namespace Worker

/-- What the worker has taken and not sent, the oldest first. -/
def held (worker : Worker) : List Record :=
  worker.batch.reverse ++ match worker.stage with
    | .holding record => [record]
    | _ => []

/-- The database that the worker was told and has not changed to. -/
def pending? (worker : Worker) : Option Nat :=
  match worker.stage with
  | .sending (.changing index) | .changed index => some index
  | _ => worker.announced

def isLeaving (worker : Worker) : Bool :=
  match worker.stage with
  | .sending .leaving | .ended => true
  | _ => false

theorem stage_of_isRunning {worker : Worker} (h : worker.isRunning = true) :
    worker.stage = .running := by
  unfold isRunning at h
  split at h
  · assumption
  · cases h

/-- The worker has not failed, and what its stage says that it has done it has done. -/
def IsHealthy (worker : Worker) : Prop :=
  match worker.stage with
  | .running | .holding _ | .sending .full | .sending .leaving => True
  | .sending (.changing _) => worker.announced = none
  | .changed _ => worker.announced = none ∧ worker.batch = []
  | .ended => worker.batch = []
  | .failing _ | .died => False

end Worker

namespace Call

/-- The record that the call is about, until it has had its effect. -/
def record? : Call → Option Record
  | admitting record => some record
  | draining index | switching index _ _ => some (.selectDb index)
  | returned _ | joining _ => none

def toldTo (number : Nat) : Call → Option Nat
  | switching index told _ => if number < told then some index else none
  | returned _ | admitting _ | draining _ | joining _ => none

def gathered : Call → Nat
  | switching _ _ gathered => gathered
  | returned _ | admitting _ | draining _ | joining _ => 0

def IsSound : Call → Prop
  | returned result => result = .ok ()
  | admitting record => record.isControl = false
  | draining _ | switching .. | joining _ => True

end Call

/-- How a worker stands to the era in force and to what it was told of the next. -/
inductive Standing (era : Era) (worker : Worker) (share : Share) : Option Nat → Prop where
  | settled (hpending : worker.pending? = none) (hera : share.era = era) :
      Standing era worker share none
  | behind {index : Nat} (hpending : worker.pending? = some index) (hera : share.era = era) :
      Standing era worker share (some index)
  | ahead {index : Nat} (hpending : worker.pending? = none) (hera : share.era = era.next index)
      (hstage : worker.stage = .running) (hheld : share.held = []) :
      Standing era worker share (some index)

structure Fits (era : Era) (pool : Pool) (number : Nat) (worker : Worker) (share : Share) :
    Prop where
  held : worker.held = share.held.map Entry.record
  database : worker.database = share.era.database
  eras : ∀ entry ∈ share.held, entry.era = share.era
  healthy : worker.IsHealthy
  leaving : worker.isLeaving = true → pool.isEnding = true
  standing : Standing era worker share (pool.call.toldTo number)
  joined : ∀ next, pool.call = .joining next → number < next → worker.stage = .ended

def AllFit (era : Era) (pool : Pool) (shares : List Share) : Prop :=
  ∀ number worker share, pool.workers[number]? = some worker → shares[number]? = some share →
    Fits era pool number worker share

def ahead (era : Era) (shares : List Share) : Nat :=
  shares.countP fun share => share.era != era

/-- Before the pool is closed there are workers, and after that there is nothing in the queue. -/
inductive Pool.Phase (pool : Pool) : Prop where
  | opened (hclosed : pool.isClosed = false) (hcall : ∀ next, pool.call ≠ .joining next)
      (hworkers : pool.workers.length ≠ 0)
  | closing {next : Nat} (hclosed : pool.isClosed = true) (hcall : pool.call = .joining next)
      (hworkers : pool.workers.length = 0 → pool.queue = [])
  | closed {result : Except Error Unit} (hclosed : pool.isClosed = true)
      (hcall : pool.call = .returned result) (hworkers : pool.workers.length = 0)
      (hqueue : pool.queue = [])

structure Tracks (options : Options) (system : System) (ledger : Ledger) : Prop where
  configured : system.pool.options = options
  failure : system.pool.failure = none
  cancelled : system.pool.isCancelled = false
  phase : system.pool.Phase
  call : system.pool.call.IsSound
  handed : ledger.before ++ system.pool.call.record?.toList = system.handed
  queue : system.pool.queue = ledger.queue.map Entry.record
  queueEra : ∀ entry ∈ ledger.queue, entry.era = .behind options ledger.before
  taken : ledger.taken.map Prod.fst ++ ledger.queue = entries options ledger.before
  lines : ∀ number,
    takenBy ledger.taken number = sentBy ledger.sent number ++ heldBy ledger.shares number
  log : system.log = ledger.sent.map (Batch.pipeline options)
  sent : ∀ batch ∈ ledger.sent,
    batch.entries ≠ [] ∧ ∀ entry ∈ batch.entries, entry.era = batch.era
  past : ∀ batch ∈ ledger.sent,
    batch.era.selectors ≤ (Era.behind options ledger.before).selectors
  ordered : ledger.sent.Pairwise fun first second => first.era.selectors ≤ second.era.selectors
  shares : ledger.shares.length = system.pool.workers.length
  fit : AllFit (.behind options ledger.before) system.pool ledger.shares
  answers : system.pool.changed + system.pool.call.gathered =
    ahead (.behind options ledger.before) ledger.shares
  drained : ∀ index told gathered, system.pool.call = .switching index told gathered →
    system.pool.queue = []

theorem Pool.Phase.frame {pool other : Pool} (h : pool.Phase)
    (hclosed : other.isClosed = pool.isClosed) (hcall : other.call = pool.call)
    (hworkers : other.workers.length = pool.workers.length)
    (hqueue : pool.queue = [] → other.queue = []) : other.Phase := by
  cases h with
  | opened hopen hnone hsome =>
      rw [← hclosed] at hopen
      rw [← hcall] at hnone
      rw [← hworkers] at hsome
      exact .opened hopen hnone hsome
  | closing hshut hjoining hempty =>
      rw [← hclosed] at hshut
      rw [← hcall] at hjoining
      rw [← hworkers] at hempty
      exact .closing hshut hjoining fun h => hqueue (hempty h)
  | closed hshut hreturned hnone hempty =>
      rw [← hclosed] at hshut
      rw [← hcall] at hreturned
      rw [← hworkers] at hnone
      exact .closed hshut hreturned hnone (hqueue hempty)

theorem Fits.frame {era : Era} {pool other : Pool} {number : Nat} {worker : Worker} {share : Share}
    (h : Fits era pool number worker share) (hcall : other.call = pool.call)
    (hending : pool.isEnding = true → other.isEnding = true) :
    Fits era other number worker share := by
  have hstanding := h.standing
  have hjoined := h.joined
  rw [← hcall] at hstanding hjoined
  exact { h with leaving := fun hleaving => hending (h.leaving hleaving), standing := hstanding,
                 joined := hjoined }

theorem AllFit.set {era : Era} {pool other : Pool} {shares : List Share} {number : Nat}
    {worker : Worker} {share : Share} (h : AllFit era pool shares)
    (hworkers : other.workers = pool.workers.set number worker) (hcall : other.call = pool.call)
    (hending : pool.isEnding = true → other.isEnding = true)
    (hnew : Fits era other number worker share) : AllFit era other (shares.set number share) := by
  intro candidate candidateWorker candidateShare hworker hshare
  rw [hworkers] at hworker
  rw [List.getElem?_set] at hworker hshare
  by_cases hsame : number = candidate
  · subst hsame
    rw [if_pos rfl] at hworker hshare
    split at hworker <;> cases hworker
    split at hshare <;> cases hshare
    exact hnew
  · rw [if_neg hsame] at hworker hshare
    exact (h candidate candidateWorker candidateShare hworker hshare).frame hcall hending

theorem ahead_set_of_eq {era : Era} {shares : List Share} {number : Nat} {share other : Share}
    (hshare : shares[number]? = some share) (hera : other.era = share.era) :
    ahead era (shares.set number other) = ahead era shares := by
  obtain ⟨hlt, hget⟩ := List.getElem?_eq_some_iff.mp hshare
  have hcount := List.boole_getElem_le_countP (p := fun share => share.era != era) hlt
  rw [ahead, List.countP_set hlt, hget, hera, ahead]
  rw [hget] at hcount
  omega

theorem ahead_set_of_next {era : Era} {shares : List Share} {number index : Nat}
    {share other : Share} (hshare : shares[number]? = some share) (hera : share.era = era)
    (hnext : other.era = era.next index) :
    ahead era (shares.set number other) = ahead era shares + 1 := by
  obtain ⟨hlt, hget⟩ := List.getElem?_eq_some_iff.mp hshare
  rw [ahead, List.countP_set hlt, hget, hera, hnext, bne_self_eq_false,
    bne_iff_ne.mpr (Era.next_ne era index)]
  rfl

namespace Fits

variable {era : Era} {pool : Pool} {number : Nat} {worker : Worker} {share : Share}

theorem settled (h : Fits era pool number worker share) (hcall : pool.call.toldTo number = none) :
    worker.pending? = none ∧ share.era = era := by
  have hstanding := h.standing
  rw [hcall] at hstanding
  cases hstanding with
  | settled hpending hera => exact ⟨hpending, hera⟩

theorem joined_of_ne (h : Fits era pool number worker share) (hstage : worker.stage ≠ .ended)
    {changed : Worker} :
    ∀ next, pool.call = .joining next → number < next → changed.stage = .ended :=
  fun next hcall hlt => absurd (h.joined next hcall hlt) hstage

/-- As long as a worker has a stage to get over it is not ahead. -/
theorem standing_of_pending {changed : Worker} {kept : Share} (h : Fits era pool number worker share)
    (hpending : changed.pending? = worker.pending?) (hera : kept.era = share.era)
    (hstage : worker.stage ≠ .running ∨ worker.pending? ≠ none ∨ pool.call.toldTo number = none) :
    Standing era changed kept (pool.call.toldTo number) := by
  have hstanding := h.standing
  cases htold : pool.call.toldTo number with
  | none =>
      obtain ⟨hnone, hin⟩ := h.settled htold
      exact .settled (hpending.trans hnone) (hera.trans hin)
  | some index =>
      rw [htold] at hstanding
      cases hstanding with
      | behind hsome hin => exact .behind (hpending.trans hsome) (hera.trans hin)
      | ahead hnone hin hrunning hheld =>
          rcases hstage with hstage | hstage | hstage
          · exact absurd hrunning hstage
          · exact absurd hnone hstage
          · rw [htold] at hstage
            cases hstage

theorem receive (h : Fits era pool number worker share) (hstage : worker.stage = .running)
    (htold : pool.call.toldTo number = none) {entry : Entry} (hera : entry.era = era) :
    Fits era pool number { worker with stage := .holding entry.record }
      { share with held := share.held ++ [entry] } := by
  obtain ⟨hpending, hin⟩ := h.settled htold
  have hbatch : worker.batch.reverse = share.held.map Entry.record := by
    rw [← h.held, Worker.held, hstage, List.append_nil]
  refine ⟨?_, h.database, ?_, trivial, nofun, ?_, ?_⟩
  · change worker.batch.reverse ++ [entry.record] = _
    rw [hbatch, List.map_append]
    rfl
  · intro candidate hmem
    rw [List.mem_append, List.mem_singleton] at hmem
    rcases hmem with hmem | rfl
    · exact h.eras candidate hmem
    · exact hera.trans hin.symm
  · have hannounced : worker.announced = none := by
      rw [← hpending, Worker.pending?, hstage]
    exact h.standing_of_pending (by rw [hpending]; exact hannounced) rfl (.inr (.inr htold))
  · exact h.joined_of_ne (by rw [hstage]; nofun)

theorem keep (h : Fits era pool number worker share) {record : Record}
    (hstage : worker.stage = .holding record) (options : Options) :
    Fits era pool number (worker.keep options record) share := by
  have hkept : (worker.keep options record).stage = .sending .full ∨
      (worker.keep options record).stage = .running := by
    rw [Worker.keep]
    split
    · exact .inl rfl
    · exact .inr rfl
  have hheld : (worker.keep options record).held = worker.held := by
    rcases hkept with hkept | hkept <;>
      rw [Worker.held, Worker.held, hkept, hstage, List.append_nil] <;>
      exact List.reverse_cons
  have hpending : (worker.keep options record).pending? = worker.pending? := by
    rcases hkept with hkept | hkept <;> rw [Worker.pending?, Worker.pending?, hkept, hstage] <;> rfl
  refine ⟨hheld.trans h.held, h.database, h.eras, ?_, ?_, ?_, ?_⟩
  · rcases hkept with hkept | hkept <;> rw [Worker.IsHealthy, hkept] <;> trivial
  · rcases hkept with hkept | hkept <;> rw [Worker.isLeaving, hkept] <;> nofun
  · exact h.standing_of_pending hpending rfl (.inl (by rw [hstage]; nofun))
  · exact h.joined_of_ne (by rw [hstage]; nofun)

theorem listen (h : Fits era pool number worker share) (hstage : worker.stage = .running)
    {index : Nat} (hannounced : worker.announced = some index) :
    Fits era pool number { worker with announced := none, stage := .sending (.changing index) }
      share := by
  have hpending : worker.pending? = some index := by
    rw [Worker.pending?, hstage, hannounced]
  refine ⟨?_, h.database, h.eras, rfl, nofun, ?_, ?_⟩
  · rw [← h.held, Worker.held, Worker.held, hstage]
  · exact h.standing_of_pending hpending.symm rfl (.inr (.inl (by rw [hpending]; nofun)))
  · exact h.joined_of_ne (by rw [hstage]; nofun)

theorem leave (h : Fits era pool number worker share) (hstage : worker.stage = .running)
    (hending : pool.isEnding = true) (htold : pool.call.toldTo number = none) :
    Fits era pool number { worker with stage := .sending .leaving } share := by
  refine ⟨?_, h.database, h.eras, trivial, fun _ => hending, ?_, ?_⟩
  · rw [← h.held, Worker.held, Worker.held, hstage]
  · have hpending : ({ worker with stage := .sending .leaving } : Worker).pending? =
        worker.pending? := by
      rw [Worker.pending?, Worker.pending?, hstage]
    exact h.standing_of_pending hpending rfl (.inr (.inr htold))
  · exact h.joined_of_ne (by rw [hstage]; nofun)

theorem flush (h : Fits era pool number worker share) {purpose : Worker.Purpose}
    (hstage : worker.stage = .sending purpose) :
    Fits era pool number { worker with batch := [], stage := purpose.next }
      { share with held := [] } := by
  have hhealthy := h.healthy
  have hleaving := h.leaving
  have hrunning : worker.stage ≠ .running := by
    rw [hstage]
    nofun
  have hpending : ({ worker with batch := [], stage := purpose.next } : Worker).pending? =
      worker.pending? := by
    rw [Worker.pending?, Worker.pending?, hstage]
    cases purpose <;> rfl
  rw [Worker.IsHealthy, hstage] at hhealthy
  rw [Worker.isLeaving, hstage] at hleaving
  refine ⟨?_, h.database, nofun, ?_, ?_, h.standing_of_pending hpending rfl (.inl hrunning), ?_⟩
  · cases purpose <;> rfl
  · cases purpose with
    | full => trivial
    | changing index => exact ⟨hhealthy, rfl⟩
    | leaving => rfl
  · cases purpose with
    | full => nofun
    | changing index => nofun
    | leaving => exact hleaving
  · exact h.joined_of_ne (by rw [hstage]; nofun)

theorem era_of_held (h : Fits era pool number worker share) (hheld : share.held ≠ []) :
    share.era = era := by
  have hstanding := h.standing
  cases htold : pool.call.toldTo number with
  | none => exact (h.settled htold).2
  | some index =>
      rw [htold] at hstanding
      cases hstanding with
      | behind _ hera => exact hera
      | ahead _ _ _ hnone => exact absurd hnone hheld

/-- A worker that has changed its database is ahead, since only one who was told does so. -/
theorem change (h : Fits era pool number worker share) {index : Nat}
    (hstage : worker.stage = .changed index) :
    share.held = [] ∧ share.era = era ∧
      Fits era pool number (worker.change index) ⟨[], era.next index⟩ := by
  have hhealthy := h.healthy
  have hstanding := h.standing
  have hpending : worker.pending? = some index := by
    rw [Worker.pending?, hstage]
  rw [Worker.IsHealthy, hstage] at hhealthy
  obtain ⟨hannounced, hbatch⟩ := hhealthy
  have hheld : share.held = [] := by
    have hrecords := h.held
    rw [Worker.held, hbatch, hstage] at hrecords
    exact List.map_eq_nil_iff.mp hrecords.symm
  cases htold : pool.call.toldTo number with
  | none =>
      rw [(h.settled htold).1] at hpending
      cases hpending
  | some told =>
      rw [htold] at hstanding
      cases hstanding with
      | ahead hnone _ _ _ =>
          rw [hnone] at hpending
          cases hpending
      | behind hsome hera =>
          rw [hsome] at hpending
          cases hpending
          refine ⟨hheld, hera, ?_, rfl, nofun, trivial, nofun, ?_, ?_⟩
          · change worker.batch.reverse ++ [] = []
            rw [hbatch]
            rfl
          · rw [htold]
            exact .ahead hannounced rfl rfl rfl
          · exact h.joined_of_ne (by rw [hstage]; nofun)

end Fits

namespace Tracks

variable {options : Options} {system : System} {ledger : Ledger} {number : Nat} {worker : Worker}

theorem fits_of_worker (h : Tracks options system ledger)
    (hworker : system.pool.workers[number]? = some worker) :
    ∃ share, ledger.shares[number]? = some share ∧
      Fits (.behind options ledger.before) system.pool number worker share := by
  have hlt : number < ledger.shares.length := by
    rw [h.shares]
    exact (List.getElem?_eq_some_iff.mp hworker).1
  have hshare : ledger.shares[number]? = some ledger.shares[number] := List.getElem?_eq_getElem hlt
  exact ⟨ledger.shares[number], hshare, h.fit number worker _ hworker hshare⟩

theorem isEnding_eq (h : Tracks options system ledger) :
    system.pool.isEnding = (system.pool.isClosed && system.pool.queue.isEmpty) := by
  rw [Pool.isEnding, h.cancelled, h.failure]
  rfl

theorem toldTo_of_queue (h : Tracks options system ledger) {record : Record} {queue : List Record}
    (hqueue : system.pool.queue = record :: queue) (number : Nat) :
    system.pool.call.toldTo number = none := by
  have hdrained := h.drained
  cases hcall : system.pool.call with
  | switching index told gathered =>
      rw [hdrained index told gathered hcall] at hqueue
      cases hqueue
  | returned result => rfl
  | admitting record => rfl
  | draining index => rfl
  | joining next => rfl

theorem toldTo_of_isEnding (h : Tracks options system ledger)
    (hending : system.pool.isEnding = true) (number : Nat) :
    system.pool.call.toldTo number = none := by
  rw [h.isEnding_eq, Bool.and_eq_true] at hending
  cases h.phase with
  | opened hclosed _ _ =>
      rw [hclosed] at hending
      cases hending.1
  | closing _ hcall _ =>
      rw [hcall]
      rfl
  | closed _ hcall _ _ =>
      rw [hcall]
      rfl

/-! ### Steps of a worker -/

theorem update {share : Share} {changed : Worker} (h : Tracks options system ledger)
    (hshare : ledger.shares[number]? = some share)
    (hfits : Fits (.behind options ledger.before) system.pool number changed share) :
    Tracks options { system with pool := system.pool.update number changed } ledger := by
  have hset : ledger.shares.set number share = ledger.shares := by
    obtain ⟨hlt, hget⟩ := List.getElem?_eq_some_iff.mp hshare
    rw [← hget, List.set_getElem_self]
  have hfit : AllFit (.behind options ledger.before) (system.pool.update number changed)
      (ledger.shares.set number share) :=
    h.fit.set rfl rfl id (hfits.frame rfl id)
  rw [hset] at hfit
  exact { h with
    phase := h.phase.frame rfl rfl (List.length_set ..) id
    shares := h.shares.trans (List.length_set ..).symm
    fit := hfit }

theorem receive (h : Tracks options system ledger) (number : Nat) :
    ∃ after, Tracks options { system with pool := system.pool.receive number } after := by
  rw [Pool.receive]
  split
  · rename_i worker record queue hworker hqueue
    by_cases hrunning : worker.isRunning
    · rw [if_pos hrunning]
      obtain ⟨share, hshare, hfits⟩ := h.fits_of_worker hworker
      have hlt := (List.getElem?_eq_some_iff.mp hshare).1
      have htold := h.toldTo_of_queue hqueue number
      have hledger := h.queue
      rw [hqueue] at hledger
      obtain ⟨entry, rest, hentries, rfl, rfl⟩ := List.map_eq_cons_iff.mp hledger.symm
      have hera : entry.era = .behind options ledger.before := h.queueEra entry (by simp [hentries])
      have hending : system.pool.isEnding = false := by
        rw [h.isEnding_eq, hqueue]
        exact Bool.and_false _
      have hnew := hfits.receive (Worker.stage_of_isRunning hrunning) htold hera
      refine ⟨{ ledger with
        queue := rest
        taken := ledger.taken ++ [(entry, number)]
        shares := ledger.shares.set number { share with held := share.held ++ [entry] } }, ?_⟩
      exact { h with
        phase := h.phase.frame rfl rfl (List.length_set ..) fun hempty => by
          rw [hqueue] at hempty
          cases hempty
        queue := rfl
        queueEra := fun candidate hmem => h.queueEra candidate (by simp [hentries, hmem])
        taken := by
          rw [← h.taken, hentries, List.map_append, List.append_assoc]
          rfl
        lines := fun candidate => by
          rw [takenBy_append, heldBy_set hlt, h.lines, List.append_assoc]
          by_cases hsame : number = candidate
          · subst hsame
            rw [if_pos rfl, if_pos rfl, heldBy_of_some hshare]
          · rw [if_neg hsame, if_neg hsame, List.append_nil]
        shares := by
          rw [List.length_set, h.shares]
          exact (List.length_set ..).symm
        fit := h.fit.set rfl rfl (fun h => by rw [hending] at h; cases h)
          (hnew.frame rfl fun h => by rw [hending] at h; cases h)
        answers := by
          rw [ahead_set_of_eq hshare]
          · exact h.answers
          · rfl
        drained := fun index told gathered hcall => by
          rw [h.drained index told gathered hcall] at hqueue
          cases hqueue }
    · rw [if_neg hrunning]
      exact ⟨ledger, h⟩
  · exact ⟨ledger, h⟩

theorem listen (h : Tracks options system ledger) (number : Nat) :
    Tracks options { system with pool := system.pool.listen number } ledger := by
  rw [Pool.listen]
  split
  · rename_i worker hworker
    split
    · rename_i index hrunning hannounced
      obtain ⟨share, hshare, hfits⟩ := h.fits_of_worker hworker
      exact h.update hshare (hfits.listen (Worker.stage_of_isRunning hrunning) hannounced)
    · exact h
  · exact h

theorem leave (h : Tracks options system ledger) (number : Nat) :
    Tracks options { system with pool := system.pool.leave number } ledger := by
  rw [Pool.leave]
  split
  · rename_i worker hworker
    by_cases hleaving : worker.isRunning && system.pool.isEnding
    · rw [if_pos hleaving]
      obtain ⟨hrunning, hending⟩ := Bool.and_eq_true_iff.mp hleaving
      obtain ⟨share, hshare, hfits⟩ := h.fits_of_worker hworker
      exact h.update hshare
        (hfits.leave (Worker.stage_of_isRunning hrunning) hending
          (h.toldTo_of_isEnding hending number))
    · rw [if_neg hleaving]
      exact h
  · exact h

theorem keep (h : Tracks options system ledger)
    (hworker : system.pool.workers[number]? = some worker) {record : Record}
    (hstage : worker.stage = .holding record) :
    Tracks options
      { system with pool := system.pool.update number (worker.keep system.pool.options record) }
      ledger := by
  obtain ⟨share, hshare, hfits⟩ := h.fits_of_worker hworker
  exact h.update hshare (hfits.keep hstage _)

theorem change (h : Tracks options system ledger)
    (hworker : system.pool.workers[number]? = some worker) {index : Nat}
    (hstage : worker.stage = .changed index) :
    ∃ after, Tracks options
      { system with
        pool := { system.pool.update number (worker.change index) with
          changed := system.pool.changed + 1 } } after := by
  obtain ⟨share, hshare, hfits⟩ := h.fits_of_worker hworker
  obtain ⟨hheld, hera, hnew⟩ := hfits.change hstage
  have hlt := (List.getElem?_eq_some_iff.mp hshare).1
  refine ⟨{ ledger with
    shares := ledger.shares.set number ⟨[], (Era.behind options ledger.before).next index⟩ }, ?_⟩
  exact { h with
    phase := h.phase.frame rfl rfl (List.length_set ..) id
    lines := fun candidate => by
      rw [heldBy_set hlt, h.lines]
      by_cases hsame : number = candidate
      · subst hsame
        rw [if_pos rfl, heldBy_of_some hshare, hheld]
      · rw [if_neg hsame]
    shares := by
      rw [List.length_set, h.shares]
      exact (List.length_set ..).symm
    fit := h.fit.set rfl rfl id (hnew.frame rfl id)
    answers := by
      rw [ahead_set_of_next hshare hera rfl, ← h.answers]
      exact Nat.add_right_comm .. }

theorem flush (h : Tracks options system ledger)
    (hworker : system.pool.workers[number]? = some worker) {purpose : Worker.Purpose}
    (hstage : worker.stage = .sending purpose) :
    ∃ after, Tracks options
      { system with
        pool := system.pool.update number { worker with batch := [], stage := purpose.next }
        log := system.log ++ if worker.batch.reverse.isEmpty then []
          else [⟨number,
            Parcel.commands system.pool.options ⟨worker.database, worker.batch.reverse⟩⟩] }
      after := by
  obtain ⟨share, hshare, hfits⟩ := h.fits_of_worker hworker
  have hlt := (List.getElem?_eq_some_iff.mp hshare).1
  have hbatch : worker.batch.reverse = share.held.map Entry.record := by
    rw [← hfits.held, Worker.held, hstage, List.append_nil]
  have hnew := hfits.flush hstage
  have hera : ∀ batch ∈ share.batches number, batch.era = .behind options ledger.before := by
    intro batch hmem
    obtain ⟨rfl, hheld⟩ := Share.mem_batches hmem
    exact hfits.era_of_held hheld
  refine ⟨{ ledger with
    shares := ledger.shares.set number { share with held := [] }
    sent := ledger.sent ++ share.batches number }, ?_⟩
  exact { h with
    phase := h.phase.frame rfl rfl (List.length_set ..) id
    lines := fun candidate => by
      rw [heldBy_set hlt, sentBy_append, sentBy_batches, h.lines]
      by_cases hsame : number = candidate
      · subst hsame
        rw [if_pos rfl, if_pos rfl, heldBy_of_some hshare, List.append_nil]
      · rw [if_neg hsame, if_neg hsame, List.append_nil]
    log := by
      rw [List.map_append, Share.pipelines, ← hbatch, ← hfits.database, ← h.log, ← h.configured]
    sent := fun batch hmem => by
      rw [List.mem_append] at hmem
      rcases hmem with hmem | hmem
      · exact h.sent batch hmem
      · obtain ⟨rfl, hheld⟩ := Share.mem_batches hmem
        exact ⟨hheld, hfits.eras⟩
    past := fun batch hmem => by
      rw [List.mem_append] at hmem
      rcases hmem with hmem | hmem
      · exact h.past batch hmem
      · exact Nat.le_of_eq (congrArg Era.selectors (hera batch hmem))
    ordered := by
      rw [List.pairwise_append]
      refine ⟨h.ordered, ?_, ?_⟩
      · unfold Share.batches
        split
        · exact .nil
        · exact List.pairwise_singleton _ _
      · intro first hfirst second hsecond
        rw [hera second hsecond]
        exact h.past first hfirst
    shares := by
      rw [List.length_set, h.shares]
      exact (List.length_set ..).symm
    fit := h.fit.set rfl rfl id (hnew.frame rfl id)
    answers := by
      rw [ahead_set_of_eq hshare]
      · exact h.answers
      · rfl }

end Tracks

end RedisSnapshot.Load
