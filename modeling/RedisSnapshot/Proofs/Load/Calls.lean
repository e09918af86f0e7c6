import RedisSnapshot.Proofs.Load.Tracks

/-!
# The calls of a load

A call is followed from its beginning to its return. Its record enters the ledger when it has had
its effect: a record with a key when it is in the queue, a selector when every worker has answered,
and any other at once.
-/

namespace RedisSnapshot.Load

theorem Worker.IsHealthy.announce {worker : Worker} (h : worker.IsHealthy)
    (hpending : worker.pending? = none) (index : Nat) :
    ({ worker with announced := some index } : Worker).IsHealthy ∧
      ({ worker with announced := some index } : Worker).pending? = some index := by
  obtain ⟨database, batch, announced, stage⟩ := worker
  cases stage with
  | running => exact ⟨trivial, rfl⟩
  | holding record => exact ⟨trivial, rfl⟩
  | sending purpose =>
      cases purpose with
      | full => exact ⟨trivial, rfl⟩
      | changing index => cases hpending
      | leaving => exact ⟨trivial, rfl⟩
  | changed index => cases hpending
  | failing error => cases h
  | ended => exact ⟨h, rfl⟩
  | died => cases h

namespace Fits

variable {era : Era} {pool other : Pool} {number : Nat} {worker : Worker} {share : Share}

theorem calling (h : Fits era pool number worker share)
    (htold : other.call.toldTo number = pool.call.toldTo number)
    (hjoining : ∀ next, other.call = .joining next → next = 0)
    (hending : pool.isEnding = true → other.isEnding = true) :
    Fits era other number worker share :=
  { h with
    leaving := fun hleaving => hending (h.leaving hleaving)
    standing := by
      rw [htold]
      exact h.standing
    joined := fun next hcall hlt => by
      rw [hjoining next hcall] at hlt
      cases hlt }

/-- A worker that is told a database has nothing else pending, and so it is behind from then on. -/
theorem announce (h : Fits era pool number worker share) {index : Nat}
    (hbefore : pool.call.toldTo number = none) (htold : other.call.toldTo number = some index)
    (hjoining : ∀ next, other.call ≠ .joining next)
    (hending : pool.isEnding = true → other.isEnding = true) :
    Fits era other number { worker with announced := some index } share := by
  obtain ⟨hpending, hera⟩ := h.settled hbefore
  obtain ⟨hhealthy, hsome⟩ := h.healthy.announce hpending index
  refine ⟨h.held, h.database, h.eras, hhealthy, fun hleaving => hending (h.leaving hleaving),
    ?_, fun next hcall => absurd hcall (hjoining next)⟩
  rw [htold]
  exact .behind hsome hera

end Fits

theorem AllFit.calling {era : Era} {pool other : Pool} {shares : List Share}
    (h : AllFit era pool shares) (hworkers : other.workers = pool.workers)
    (htold : ∀ number, other.call.toldTo number = pool.call.toldTo number)
    (hjoining : ∀ next, other.call = .joining next → next = 0)
    (hending : pool.isEnding = true → other.isEnding = true) : AllFit era other shares := by
  intro number worker share hworker hshare
  rw [hworkers] at hworker
  exact (h number worker share hworker hshare).calling (htold number) hjoining hending

theorem ahead_eq_zero {era : Era} {shares : List Share} (h : ∀ share ∈ shares, share.era = era) :
    ahead era shares = 0 := by
  rw [ahead, List.countP_eq_zero]
  intro share hmem
  rw [h share hmem, bne_self_eq_false]
  exact Bool.false_ne_true

namespace Tracks

variable {options : Options} {system : System} {ledger : Ledger}

theorem check_eq (h : Tracks options system ledger) : system.pool.check false = .ok () := by
  rw [Pool.check, h.failure, h.cancelled]
  rfl

theorem recheck_eq (h : Tracks options system ledger) : system.pool.recheck false = system.pool := by
  rw [Pool.recheck, h.check_eq]
  cases system.pool.call <;> rfl

theorem worker_of_share (h : Tracks options system ledger) {share : Share}
    (hmem : share ∈ ledger.shares) :
    ∃ (number : Nat) (worker : Worker), system.pool.workers[number]? = some worker ∧
      ledger.shares[number]? = some share := by
  obtain ⟨number, hshare⟩ := List.mem_iff_getElem?.mp hmem
  have hlt : number < system.pool.workers.length := by
    rw [← h.shares]
    exact (List.getElem?_eq_some_iff.mp hshare).1
  exact ⟨number, _, List.getElem?_eq_getElem hlt, hshare⟩

theorem length_ne_zero_of_open (h : Tracks options system ledger)
    (hopen : system.pool.isClosed = false) : system.pool.workers.length ≠ 0 := by
  cases h.phase with
  | opened _ _ hworkers => exact hworkers
  | closing hclosed _ _ =>
      rw [hclosed] at hopen
      cases hopen
  | closed hclosed _ _ _ =>
      rw [hclosed] at hopen
      cases hopen

theorem isEnding_of_open (h : Tracks options system ledger)
    (hopen : system.pool.isClosed = false) : system.pool.isEnding = false := by
  rw [h.isEnding_eq, hopen]
  rfl

theorem closing_of_joining (h : Tracks options system ledger) {number : Nat}
    (hcall : system.pool.call = .joining number) :
    system.pool.isClosed = true ∧ (system.pool.workers.length = 0 → system.pool.queue = []) := by
  cases h.phase with
  | opened _ hnone _ => exact absurd hcall (hnone number)
  | closing hclosed _ hempty => exact ⟨hclosed, hempty⟩
  | closed _ hreturned _ _ =>
      rw [hcall] at hreturned
      cases hreturned

theorem isGone_eq (h : Tracks options system ledger) (hopen : system.pool.isClosed = false)
    {number : Nat} {worker : Worker} (hworker : system.pool.workers[number]? = some worker) :
    worker.isGone = false := by
  obtain ⟨share, _, hfits⟩ := h.fits_of_worker hworker
  have hhealthy := hfits.healthy
  have hending := h.isEnding_of_open hopen
  cases hstage : worker.stage with
  | ended =>
      have hleaving := hfits.leaving (by rw [Worker.isLeaving, hstage])
      rw [hending] at hleaving
      cases hleaving
  | died =>
      rw [Worker.IsHealthy, hstage] at hhealthy
      cases hhealthy
  | _ => rw [Worker.isGone, hstage]

theorem isDeserted_eq (h : Tracks options system ledger) (hopen : system.pool.isClosed = false) :
    system.pool.isDeserted = false := by
  have hlt : 0 < system.pool.workers.length := Nat.pos_of_ne_zero (h.length_ne_zero_of_open hopen)
  have hstays := h.isGone_eq hopen (List.getElem?_eq_getElem hlt)
  rw [Pool.isDeserted, List.all_eq_false]
  refine ⟨_, List.getElem_mem hlt, ?_⟩
  rw [hstays]
  exact Bool.false_ne_true

theorem open_of_record (h : Tracks options system ledger) {record : Record}
    (hcall : system.pool.call.record? = some record) : system.pool.isClosed = false := by
  cases h.phase with
  | opened hclosed _ _ => exact hclosed
  | closing _ hjoining _ =>
      rw [hjoining] at hcall
      cases hcall
  | closed _ hreturned _ _ =>
      rw [hreturned] at hcall
      cases hcall

theorem opened (h : Tracks options system ledger) (hopen : system.pool.isClosed = false)
    {pool : Pool} (hclosed : pool.isClosed = false) (hcall : ∀ next, pool.call ≠ .joining next)
    (hworkers : pool.workers.length = system.pool.workers.length) : pool.Phase := by
  have hsome := h.length_ne_zero_of_open hopen
  rw [← hworkers] at hsome
  exact .opened hclosed hcall hsome

/-- The call goes on, but the effect of its record is still to come. -/
theorem calling (h : Tracks options system ledger) (hopen : system.pool.isClosed = false)
    {records changed : Nat} {call : Call} {handed : List Record}
    (hjoining : ∀ next, call ≠ .joining next) (hsound : call.IsSound)
    (hhanded : ledger.before ++ call.record?.toList = handed)
    (htold : ∀ number, call.toldTo number = system.pool.call.toldTo number)
    (hanswers : changed + call.gathered = system.pool.changed + system.pool.call.gathered)
    (hdrained : ∀ index told gathered, call = .switching index told gathered →
      system.pool.queue = []) :
    Tracks options
      { system with pool := { system.pool with records, changed, call }, handed } ledger :=
  { h with
    phase := h.opened hopen hopen hjoining rfl
    call := hsound
    handed := hhanded
    fit := h.fit.calling rfl htold (fun next hcall => absurd hcall (hjoining next)) id
    answers := hanswers.trans h.answers
    drained := hdrained }

/-- A record without a key has its effect at once, which is none, unless it is a selector. -/
theorem absorb_other (h : Tracks options system ledger) (hopen : system.pool.isClosed = false)
    {result : Except Error Unit} (hcall : system.pool.call = .returned result) {record : Record}
    (hcontrol : record.isControl = true) (hother : record.selected? = none) (records : Nat) :
    Tracks options
      { system with
        pool := { system.pool with records, call := .returned (.ok ()) }
        handed := system.handed ++ [record] }
      { ledger with before := ledger.before ++ [record] } := by
  have hera : Era.behind options (ledger.before ++ [record]) = Era.behind options ledger.before :=
    Era.behind_append_other hother
  have hhanded := h.handed
  have hanswers := h.answers
  rw [hcall] at hhanded hanswers
  exact { h with
    phase := h.opened hopen hopen nofun rfl
    call := rfl
    handed := by
      rw [← hhanded]
      simp [Call.record?]
    queueEra := by
      rw [hera]
      exact h.queueEra
    taken := by
      rw [entries_append_control hcontrol]
      exact h.taken
    past := by
      rw [hera]
      exact h.past
    fit := by
      rw [hera]
      exact h.fit.calling rfl (by rw [hcall]; exact fun _ => rfl) nofun id
    answers := by
      rw [hera]
      exact hanswers
    drained := nofun }

theorem begin (h : Tracks options system ledger) {result : Except Error Unit}
    (hcall : system.pool.call = .returned result) (hopen : system.pool.isClosed = false)
    (record : Record) :
    ∃ after, Tracks options
      { system with
        pool := system.pool.begin false record, handed := system.handed ++ [record] } after := by
  have hhanded := h.handed
  rw [hcall] at hhanded
  have hbefore : ledger.before = system.handed := (List.append_nil _).symm.trans hhanded
  unfold Pool.begin
  rw [h.check_eq]
  cases record with
  | selectDb index =>
      exact ⟨ledger, h.calling hopen nofun trivial (by rw [hbefore]; rfl)
        (by rw [hcall]; exact fun _ => rfl) (by rw [hcall]; rfl) nofun⟩
  | keyed key value =>
      exact ⟨ledger, h.calling hopen nofun rfl (by rw [hbefore]; rfl)
        (by rw [hcall]; exact fun _ => rfl) (by rw [hcall]; rfl) nofun⟩
  | resizeDb keys expiring => exact ⟨_, h.absorb_other hopen hcall rfl rfl _⟩
  | aux field value => exact ⟨_, h.absorb_other hopen hcall rfl rfl _⟩

theorem shut (h : Tracks options system ledger) {result : Except Error Unit}
    (hcall : system.pool.call = .returned result) :
    Tracks options { system with pool := system.pool.shut } ledger := by
  have hhanded := h.handed
  have hanswers := h.answers
  rw [hcall] at hhanded hanswers
  have hphase : system.pool.shut.Phase := by
    cases h.phase with
    | opened _ _ hworkers => exact .closing rfl rfl fun hnone => absurd hnone hworkers
    | closing _ hjoining _ =>
        rw [hjoining] at hcall
        cases hcall
    | closed _ _ _ hqueue => exact .closing rfl rfl fun _ => hqueue
  have hending : system.pool.isEnding = true → system.pool.shut.isEnding = true := by
    intro hending
    rw [h.isEnding_eq, Bool.and_eq_true] at hending
    rw [Pool.isEnding, Bool.or_eq_true, Bool.and_eq_true]
    exact .inr ⟨rfl, hending.2⟩
  have hzero : ∀ next, system.pool.shut.call = .joining next → next = 0 := by
    rintro next ⟨⟩
    rfl
  exact { h with
    phase := hphase
    call := trivial
    handed := hhanded
    fit := h.fit.calling rfl (by rw [hcall]; exact fun _ => rfl) hzero hending
    answers := hanswers
    drained := fun _ _ _ hswitching => by cases hswitching }

/-! ### A call goes on -/

theorem enqueue (h : Tracks options system ledger) {record : Record}
    (hcall : system.pool.call = .admitting record) :
    ∃ after, Tracks options { system with pool := system.pool.enqueue record } after := by
  have hopen := h.open_of_record (by rw [hcall]; rfl)
  have hkeyed := h.call
  have hhanded := h.handed
  have hanswers := h.answers
  rw [hcall] at hkeyed hhanded hanswers
  have hera : Era.behind options (ledger.before ++ [record]) = Era.behind options ledger.before := by
    apply Era.behind_append_other
    cases record with
    | keyed key value => rfl
    | _ => cases hkeyed
  rw [Pool.enqueue, h.isDeserted_eq hopen, if_neg Bool.false_ne_true]
  by_cases hroom : system.pool.hasRoom
  · rw [if_pos hroom]
    let entry : Entry := ⟨record, ledger.before.length, .behind options ledger.before⟩
    refine ⟨{ ledger with
      before := ledger.before ++ [record], queue := ledger.queue ++ [entry] }, ?_⟩
    exact { h with
      phase := h.opened hopen hopen nofun rfl
      call := rfl
      handed := by
        rw [← hhanded]
        exact List.append_nil _
      queue := by
        rw [List.map_append, ← h.queue]
        rfl
      queueEra := fun candidate hmem => by
        rw [List.mem_append, List.mem_singleton] at hmem
        rw [hera]
        rcases hmem with hmem | rfl
        · exact h.queueEra candidate hmem
        · rfl
      taken := by
        rw [entries_append_keyed hkeyed, ← h.taken, List.append_assoc]
      past := by
        rw [hera]
        exact h.past
      fit := by
        have hending := h.isEnding_of_open hopen
        rw [hera]
        exact h.fit.calling rfl (by rw [hcall]; exact fun _ => rfl) nofun
          fun h => by rw [hending] at h; cases h
      answers := by
        rw [hera]
        exact hanswers
      drained := nofun }
  · rw [if_neg hroom]
    exact ⟨ledger, h⟩

theorem drain (h : Tracks options system ledger) {index : Nat}
    (hcall : system.pool.call = .draining index) :
    Tracks options { system with pool := system.pool.drain index } ledger := by
  have hopen := h.open_of_record (by rw [hcall]; rfl)
  have hhanded := h.handed
  rw [hcall] at hhanded
  rw [Pool.drain, h.isDeserted_eq hopen, Bool.or_false]
  by_cases hempty : system.pool.queue.isEmpty
  · rw [if_pos hempty]
    rw [List.isEmpty_iff] at hempty
    have htold : ∀ number, (Call.switching index 0 0).toldTo number =
        system.pool.call.toldTo number := by
      intro number
      rw [hcall, Call.toldTo, if_neg (Nat.not_lt_zero number)]
      rfl
    exact h.calling hopen nofun trivial hhanded htold (by rw [hcall]; rfl) fun _ _ _ _ => hempty
  · rw [if_neg hempty]
    exact h

/-- A worker that nothing is pending for is told a database, and others notice nothing of it. -/
theorem announce (h : Tracks options system ledger) {index told gathered : Nat} {worker : Worker}
    (hcall : system.pool.call = .switching index told gathered)
    (hworker : system.pool.workers[told]? = some worker) :
    Tracks options { system with pool := system.pool.announce index told gathered worker }
      ledger := by
  have hopen := h.open_of_record (by rw [hcall]; rfl)
  have hhanded := h.handed
  have hanswers := h.answers
  rw [hcall] at hhanded hanswers
  rw [Pool.announce, h.isGone_eq hopen hworker, if_neg Bool.false_ne_true]
  by_cases hnone : worker.announced.isNone
  · rw [if_pos hnone]
    have hbefore : system.pool.call.toldTo told = none := by
      rw [hcall]
      exact if_neg (Nat.lt_irrefl told)
    have hothers : ∀ number, told ≠ number →
        (Call.switching index (told + 1) gathered).toldTo number =
          system.pool.call.toldTo number := by
      intro number hne
      have hiff : number < told + 1 ↔ number < told := by omega
      rw [hcall, Call.toldTo, Call.toldTo]
      simp only [hiff]
    exact { h with
      phase := h.opened hopen hopen nofun (List.length_set ..)
      call := trivial
      handed := hhanded
      shares := h.shares.trans (List.length_set ..).symm
      fit := by
        intro number candidate share hcandidate hshare
        rw [Pool.update, List.getElem?_set] at hcandidate
        by_cases hsame : told = number
        · subst hsame
          rw [if_pos rfl] at hcandidate
          split at hcandidate <;> cases hcandidate
          exact (h.fit told worker share hworker hshare).announce hbefore
            (if_pos (Nat.lt_succ_self told)) nofun id
        · rw [if_neg hsame] at hcandidate
          exact (h.fit number candidate share hcandidate hshare).calling (hothers number hsame)
            nofun id
      answers := hanswers
      drained := fun _ _ _ _ => h.drained index told gathered hcall }
  · rw [if_neg hnone]
    exact h

theorem ahead_of_gathered (h : Tracks options system ledger) {index told : Nat}
    (hcall : system.pool.call = .switching index told system.pool.workers.length)
    (hworker : system.pool.workers[told]? = none) :
    system.pool.changed = 0 ∧ ∀ (number : Nat) (worker : Worker) (share : Share),
      system.pool.workers[number]? = some worker → ledger.shares[number]? = some share →
        worker.pending? = none ∧ share.era = (Era.behind options ledger.before).next index := by
  have hanswers := h.answers
  have hmost : ahead (.behind options ledger.before) ledger.shares ≤ ledger.shares.length :=
    List.countP_le_length
  rw [hcall, Call.gathered] at hanswers
  rw [h.shares] at hmost
  have hall : ahead (.behind options ledger.before) ledger.shares = ledger.shares.length := by
    rw [h.shares]
    omega
  rw [ahead, List.countP_eq_length] at hall
  refine ⟨by omega, ?_⟩
  intro number worker share hget hshare
  have hstanding := (h.fit number worker share hget hshare).standing
  have hlt : number < told := by
    have hlength := (List.getElem?_eq_some_iff.mp hget).1
    rw [List.getElem?_eq_none_iff] at hworker
    omega
  rw [hcall, Call.toldTo, if_pos hlt] at hstanding
  cases hstanding with
  | behind _ hera =>
      have hne := hall share (List.mem_of_getElem? hshare)
      rw [hera, bne_self_eq_false] at hne
      cases hne
  | ahead hpending hera _ _ => exact ⟨hpending, hera⟩

theorem gather (h : Tracks options system ledger) {index told gathered : Nat}
    (hcall : system.pool.call = .switching index told gathered)
    (hworker : system.pool.workers[told]? = none) :
    ∃ after, Tracks options
      { system with pool := system.pool.gather index told gathered } after := by
  have hopen := h.open_of_record (by rw [hcall]; rfl)
  have hhanded := h.handed
  have hempty := h.drained index told gathered hcall
  have hera : Era.behind options (ledger.before ++ [.selectDb index]) =
      (Era.behind options ledger.before).next index := Era.behind_append_selector
  rw [Pool.gather]
  by_cases hall : gathered = system.pool.workers.length
  · rw [if_pos hall]
    subst hall
    obtain ⟨hchanged, hahead⟩ := h.ahead_of_gathered hcall hworker
    rw [hcall] at hhanded
    have hqueue : ledger.queue = [] := by
      have hrecords := h.queue
      rw [hempty] at hrecords
      exact List.map_eq_nil_iff.mp hrecords.symm
    have hshares : ∀ share ∈ ledger.shares,
        share.era = (Era.behind options ledger.before).next index := by
      intro share hmem
      obtain ⟨number, worker, hget, hshare⟩ := h.worker_of_share hmem
      exact (hahead number worker share hget hshare).2
    refine ⟨{ ledger with before := ledger.before ++ [.selectDb index] }, ?_⟩
    exact { h with
      phase := h.opened hopen hopen nofun rfl
      call := rfl
      handed := by
        rw [← hhanded]
        exact List.append_nil _
      queueEra := by
        rw [hqueue]
        exact nofun
      taken := by
        rw [entries_append_control rfl]
        exact h.taken
      past := fun batch hmem => by
        rw [hera]
        exact Nat.le_succ_of_le (h.past batch hmem)
      fit := fun number worker share hget hshare => by
        have hfits := h.fit number worker share hget hshare
        obtain ⟨hpending, hnext⟩ := hahead number worker share hget hshare
        rw [hera]
        exact { hfits with standing := .settled hpending hnext, joined := nofun }
      answers := by
        rw [hera, ahead_eq_zero hshares]
        exact hchanged
      drained := nofun }
  · rw [if_neg hall]
    by_cases hsome : 0 < system.pool.changed
    · rw [if_pos hsome]
      rw [hcall] at hhanded
      refine ⟨ledger, h.calling hopen nofun trivial hhanded (by rw [hcall]; exact fun _ => rfl) ?_
        fun _ _ _ _ => hempty⟩
      rw [hcall, Call.gathered, Call.gathered]
      omega
    · rw [if_neg hsome, h.isDeserted_eq hopen, if_neg Bool.false_ne_true]
      exact ⟨ledger, h⟩

/-! ### The pool is closed -/

theorem join (h : Tracks options system ledger) {number : Nat} {worker : Worker}
    (hcall : system.pool.call = .joining number)
    (hworker : system.pool.workers[number]? = some worker) :
    Tracks options { system with pool := system.pool.join number worker } ledger := by
  obtain ⟨_, _, hfits⟩ := h.fits_of_worker hworker
  obtain ⟨hclosed, hempty⟩ := h.closing_of_joining hcall
  have hhealthy := hfits.healthy
  have hhanded := h.handed
  have hanswers := h.answers
  rw [hcall] at hhanded hanswers
  rw [Pool.join]
  split
  · rename_i hended
    exact { h with
      phase := .closing hclosed rfl hempty
      call := trivial
      handed := hhanded
      fit := by
        intro candidate candidateWorker share hget hshare
        have hcandidate := h.fit candidate candidateWorker share hget hshare
        have hstanding := hcandidate.standing
        rw [hcall] at hstanding
        refine { hcandidate with standing := hstanding, joined := ?_ }
        rintro next ⟨⟩ hlt
        by_cases hsame : candidate = number
        · subst hsame
          rw [hworker] at hget
          cases hget
          exact hended
        · exact hcandidate.joined number hcall (by omega)
      answers := hanswers
      drained := nofun }
  · rename_i hdied
    rw [Worker.IsHealthy, hdied] at hhealthy
    cases hhealthy
  · exact h

theorem conclude_isSound (h : Tracks options system ledger) :
    system.pool.conclude.call.IsSound := by
  rw [Pool.conclude, h.failure]
  rfl

theorem conclude (h : Tracks options system ledger) {number : Nat}
    (hcall : system.pool.call = .joining number)
    (hworker : system.pool.workers[number]? = none) :
    ∃ after, Tracks options { system with pool := system.pool.conclude } after := by
  have hhanded := h.handed
  have hanswers := h.answers
  rw [hcall] at hhanded hanswers
  rw [List.getElem?_eq_none_iff] at hworker
  have hshares : ∀ share ∈ ledger.shares,
      share.held = [] ∧ share.era = .behind options ledger.before := by
    intro share hmem
    obtain ⟨candidate, worker, hget, hshare⟩ := h.worker_of_share hmem
    have hfits := h.fit candidate worker share hget hshare
    have hlt := (List.getElem?_eq_some_iff.mp hget).1
    have hended := hfits.joined number hcall (by omega)
    have hhealthy := hfits.healthy
    have hheld := hfits.held
    rw [Worker.IsHealthy, hended] at hhealthy
    rw [Worker.held, hended, hhealthy] at hheld
    exact ⟨List.map_eq_nil_iff.mp hheld.symm, (hfits.settled (by rw [hcall]; rfl)).2⟩
  obtain ⟨hclosed, hempty⟩ := h.closing_of_joining hcall
  have hqueue : system.pool.queue = [] := by
    by_cases hnone : system.pool.workers.length = 0
    · exact hempty hnone
    · have hlt : 0 < system.pool.workers.length := Nat.pos_of_ne_zero hnone
      obtain ⟨_, _, hfits⟩ := h.fits_of_worker (List.getElem?_eq_getElem hlt)
      have hended := hfits.joined number hcall (by omega)
      have hending := hfits.leaving (by rw [Worker.isLeaving, hended])
      rw [h.isEnding_eq, Bool.and_eq_true, List.isEmpty_iff] at hending
      exact hending.2
  refine ⟨{ ledger with shares := [] }, ?_⟩
  exact { h with
    failure := rfl
    phase := .closed hclosed rfl rfl hqueue
    call := h.conclude_isSound
    handed := hhanded
    lines := fun candidate => by
      rw [h.lines, heldBy_eq_nil fun share hmem => (hshares share hmem).1]
      rfl
    shares := rfl
    fit := fun _ _ _ hget => by cases hget
    answers := by
      rw [ahead_eq_zero fun share hmem => (hshares share hmem).2] at hanswers
      exact hanswers
    drained := fun _ _ _ hswitching => by cases hswitching }

theorem advance (h : Tracks options system ledger) :
    ∃ after, Tracks options { system with pool := system.pool.advance } after := by
  rw [Pool.advance]
  split
  · exact ⟨ledger, h⟩
  · rename_i record hcall
    exact h.enqueue hcall
  · rename_i index hcall
    exact ⟨ledger, h.drain hcall⟩
  · rename_i index told gathered hcall
    split
    · rename_i worker hworker
      exact ⟨ledger, h.announce hcall hworker⟩
    · rename_i hworker
      exact h.gather hcall hworker
  · rename_i number hcall
    split
    · rename_i worker hworker
      exact ⟨ledger, h.join hcall hworker⟩
    · rename_i hworker
      exact h.conclude hcall hworker

end Tracks

end RedisSnapshot.Load
