import RedisSnapshot.Proofs.Load.Delivery
import RedisSnapshot.Proofs.Scan.Keys
import RedisSnapshot.Proofs.Scan.Received

/-!
# A load that went well

If a load of a snapshot returns without a failure, then all the records of the snapshot have been
handed to the pool and it has been closed behind them, in one of the runs of the pool.
-/

namespace RedisSnapshot.Load

/-- Records are handed over and steps are taken, but nothing is closed and nothing cancelled. -/
def Plain (moves : List Move) : Prop :=
  ∀ move ∈ moves, move.isCancellation = false ∧ move.isClosing = false

theorem Plain.append {front back : List Move} (hfront : Plain front) (hback : Plain back) :
    Plain (front ++ back) :=
  fun move hmem => (List.mem_append.1 hmem).elim (hfront move) (hback move)

theorem plain_acts {actions : List Pool.Action}
    (h : ∀ action ∈ actions, (Move.act action).isCancellation = false) :
    Plain (actions.map .act) := by
  intro move hmem
  obtain ⟨action, haction, rfl⟩ := List.mem_map.1 hmem
  exact ⟨h action haction, rfl⟩

theorem conclude_eq_ok {pool after : Pool} (h : conclude pool = (.ok (), after)) :
    pool.call = .returned (.ok ()) ∧ after = pool := by
  rw [conclude] at h
  split at h
  · cases h
    exact ⟨‹_›, rfl⟩
  · cases h

section Pools

variable {destination : Destination} {destinations : Destinations (StateM (List Pipeline))}
  {system : System} {pool : Pool} {log : List Pipeline} {result : Except Error Unit}

theorem System.run_append (front back : List Move) :
    system.run destination (front ++ back) =
      (system.run destination front).run destination back :=
  List.foldl_append

theorem System.run_acts (destination : Destination) (system : System)
    (actions : List Pool.Action) :
    (system.run destination (actions.map .act)).handed = system.handed ∧
      (system.run destination (actions.map .act)).pool.isClosed = system.pool.isClosed ∧
        (system.run destination (actions.map .act)).pool.isCancelled = system.pool.isCancelled := by
  induction actions generalizing system with
  | nil => exact ⟨rfl, rfl, rfl⟩
  | cons action actions ih =>
      obtain ⟨hhanded, hclosed, hcancelled⟩ := ih (system.step destination (.act action))
      obtain ⟨hopen, hgoing⟩ := system.pool.flags_step destination.send action system.log
      exact ⟨hhanded, hclosed.trans hopen, hcancelled.trans hgoing⟩

variable (hsend : destinations.send = destination.send)

include hsend

theorem handle_ok (hpause : destinations.pause = pure ()) {record : Record}
    (hcall : system.pool.call = .returned result) (hopen : system.pool.isClosed = false)
    (hgoing : system.pool.isCancelled = false)
    (h : handle destinations false record system.pool system.log = ((.ok (), pool), log)) :
    ∃ moves, Plain moves ∧
      system.run destination moves = ⟨pool, system.handed ++ [record], log⟩ ∧
        pool.call = .returned (.ok ()) ∧ pool.isClosed = false ∧ pool.isCancelled = false := by
  obtain ⟨actions, hactions, hrun⟩ := handle_eq_run hsend hpause false record hcall hopen
  let called : System :=
    { system with
      pool := system.pool.begin false record, handed := system.handed ++ [record] }
  have hcalled : system.run destination (.call false record :: actions.map .act) =
      called.run destination (actions.map .act) := by
    have hstep : system.step destination (.call false record) = called := by
      rw [System.step, hcall, hopen]
    rw [← hstep]
    rfl
  obtain ⟨hhanded, hclosed, hcancelled⟩ :=
    System.run_acts destination called actions
  rw [h, hcalled] at hrun
  have hfirst := congrArg Prod.fst hrun
  have hlog : log = (called.run destination (actions.map .act)).log := congrArg Prod.snd hrun
  obtain ⟨hreturned, hpool⟩ := conclude_eq_ok hfirst.symm
  refine ⟨.call false record :: actions.map .act, ?_, ?_, ?_, ?_, ?_⟩
  · intro move hmem
    rcases List.mem_cons.1 hmem with rfl | hmem
    · exact ⟨rfl, rfl⟩
    · exact plain_acts (hactions rfl) move hmem
  · rw [hcalled, hpool, hlog]
    exact congrArg (System.mk _ · _) hhanded
  · rw [hpool, hreturned]
  · rw [hpool, hclosed]
    exact hopen
  · rw [hpool, hcancelled]
    exact hgoing

theorem deliver_ok (hpause : destinations.pause = pure ()) (system : System)
    {records : List Record}
    (hcall : system.pool.call = .returned result) (hopen : system.pool.isClosed = false)
    (hgoing : system.pool.isCancelled = false)
    (h : Scan.deliver (receiver destinations) records system.pool system.log =
      ((.ok (), pool), log)) :
    ∃ moves, Plain moves ∧
      system.run destination moves = ⟨pool, system.handed ++ records, log⟩ ∧
        (∃ result, pool.call = .returned result) ∧ pool.isClosed = false := by
  induction records generalizing system result with
  | nil =>
      cases h
      exact ⟨[], nofun, by rw [List.append_nil]; rfl, ⟨result, hcall⟩, hopen⟩
  | cons record records ih =>
      rw [Scan.deliver, bind_apply_pool] at h
      have htake : (receiver destinations).take record system.pool system.log =
          handle destinations false record system.pool system.log := by
        rw [← hgoing]
        rfl
      rw [htake] at h
      cases hhandled : handle destinations false record system.pool system.log with
      | mk answer between =>
          obtain ⟨taken, middle⟩ := answer
          rw [hhandled] at h
          cases taken with
          | error error => cases h
          | ok =>
              obtain ⟨first, hfirst, hrun, hreturned, hstill, hcontinued⟩ :=
                handle_ok hsend hpause hcall hopen hgoing hhandled
              obtain ⟨rest, hrest, hlast, hend⟩ :=
                ih ⟨middle, system.handed ++ [record], between⟩ hreturned hstill hcontinued h
              refine ⟨first ++ rest, hfirst.append hrest, ?_, hend⟩
              rw [System.run_append, hrun, hlast, List.append_assoc]
              rfl

theorem close_ok (system : System) (hcall : system.pool.call = .returned result)
    (h : close destinations system.pool system.log = ((.ok (), pool), log)) :
    ∃ ending, Plain ending ∧
      (system.run destination (.close :: ending)).isOver = true ∧
        (system.run destination (.close :: ending)).pool.call = .returned (.ok ()) ∧
          (system.run destination (.close :: ending)).handed = system.handed ∧
            (system.run destination (.close :: ending)).log = log := by
  obtain ⟨actions, hactions, hrun⟩ := close_eq_run hsend hcall
  have hclosed : system.run destination (.close :: actions.map .act) =
      ({ system with pool := system.pool.shut } : System).run destination (actions.map .act) := by
    have hstep : system.step destination .close = { system with pool := system.pool.shut } := by
      rw [System.step, hcall]
    rw [← hstep]
    rfl
  obtain ⟨hhanded, hshut, _⟩ :=
    System.run_acts destination { system with pool := system.pool.shut } actions
  rw [h] at hrun
  obtain ⟨hreturned, _⟩ := conclude_eq_ok (congrArg Prod.fst hrun).symm
  refine ⟨actions.map .act, plain_acts hactions, ?_, hreturned, ?_, (congrArg Prod.snd hrun).symm⟩
  · rw [System.isOver, hreturned, Bool.and_true, hclosed, hshut]
    rfl
  · rw [hclosed, hhanded]

end Pools

/-! ### Scanning into the pool -/

section Scans

variable {destinations : Destinations (StateM (List Pipeline))} {withAux : Bool} {source : Source}
  {pool after : Pool} {log later : List Pipeline} {banner : String} {progress : Progress}
  {cursor behind : Cursor} {scan : Scan}

theorem isCancelled_apply :
    (receiver destinations).isCancelled pool log = ((pool.isCancelled, pool), log) :=
  rfl

/-- A scan that ends well has delivered the records of all its items. -/
theorem deliver_of_items {items : List Item} (hitems : ItemsAt cursor items) {before : List Item}
    (h : Scan.items (receiver destinations) withAux source banner (.behind before) cursor pool log =
      ((scan, after), later)) (hresult : scan.result = .ok ()) :
    Scan.deliver (receiver destinations) (Item.recordsOf withAux before items) pool log =
      ((.ok (), after), later) := by
  induction hitems generalizing before pool log with
  | ending hrun =>
      rw [Scan.items_of_ending hrun, bind_apply_pool, isCancelled_apply] at h
      cases hcancelled : pool.isCancelled with
      | true =>
          rw [hcancelled] at h
          cases h
          cases hresult
      | false =>
          rw [hcancelled] at h
          cases h
          rfl
  | @item cursor behind item items hrun hitem _ ih =>
      rw [Scan.items_of_item hrun hitem, bind_apply_pool, isCancelled_apply] at h
      cases hcancelled : pool.isCancelled with
      | true =>
          rw [hcancelled] at h
          cases h
          cases hresult
      | false =>
          rw [hcancelled] at h
          dsimp only at h
          rw [if_neg Bool.false_ne_true, Item.advance_behind, bind_apply_pool] at h
          cases hdelivered : Scan.deliver (receiver destinations)
              (item.recordsBehind withAux before) pool log with
          | mk answer between =>
              obtain ⟨delivered, middle⟩ := answer
              rw [hdelivered] at h
              cases delivered with
              | error error =>
                  cases h
                  cases hresult
              | ok =>
                  rw [Item.recordsOf, Scan.deliver_append, bind_apply_pool, hdelivered]
                  exact ih h

theorem outcome_eq_ok {closing : Except Error Unit} (h : outcome scan closing = .ok banner) :
    scan.result = .ok () ∧ closing = .ok () := by
  unfold outcome at h
  split at h
  · cases h
  · cases h
  · refine ⟨?_, rfl⟩
    rw [Scan.bannerOrError] at h
    cases hresult : scan.result with
    | ok => rfl
    | error error =>
        rw [hresult] at h
        cases h

theorem delivered_of_run {items : List Item} (hitems : source.HasItems items)
    (h : run destinations withAux source pool log = ((.ok banner, after), later)) :
    ∃ middle between,
      Scan.deliver (receiver destinations) (Item.recordsOf withAux [] items) pool log =
        ((.ok (), middle), between) ∧
      close destinations middle between = ((.ok (), after), later) := by
  obtain ⟨header, cursor, hheader, hitems⟩ := hitems
  have hscan : Scan.run (receiver destinations) withAux source =
      Scan.items (receiver destinations) withAux source (Text.lossy header) (.behind []) cursor := by
    rw [Scan.run, Source.decode, hheader]
    rfl
  rw [run, scanInto, hscan, bind_apply_pool, bind_apply_pool] at h
  cases hscanned : Scan.items (receiver destinations) withAux source (Text.lossy header)
      (.behind []) cursor pool log with
  | mk answer between =>
      obtain ⟨scan, middle⟩ := answer
      rw [hscanned] at h
      have hreturned := congrArg (fun answer => answer.1.1) h
      obtain ⟨hresult, hclosing⟩ := outcome_eq_ok hreturned
      have hdelivered := deliver_of_items hitems hscanned hresult
      refine ⟨middle, between, hdelivered, ?_⟩
      have hpool := congrArg (fun answer => answer.1.2) h
      have hlog := congrArg Prod.snd h
      exact Prod.ext (Prod.ext hclosing hpool) hlog

/-- The run of the pool behind a load that went well. -/
theorem moves_of_run {options : Options} {destination : Destination} {items : List Item}
    (hsend : destinations.send = destination.send) (hpause : destinations.pause = pure ())
    (hitems : source.HasItems items)
    (h : run destinations withAux source (.start options false) [] = ((.ok banner, after), log)) :
    ∃ handing ending, Plain (handing ++ ending) ∧
      ∃ final, final = (System.start options).run destination (handing ++ .close :: ending) ∧
        final.isOver = true ∧ final.pool.call = .returned (.ok ()) ∧
          final.handed = Item.recordsOf withAux [] items ∧ final.log = log := by
  obtain ⟨middle, between, hdelivered, hclosed⟩ := delivered_of_run hitems h
  obtain ⟨handing, hhanding, hrun, ⟨_, hcall⟩, _⟩ :=
    deliver_ok hsend hpause (.start options) rfl rfl rfl hdelivered
  obtain ⟨ending, hending, hover, hreturned, hhanded, hlog⟩ :=
    close_ok hsend ⟨middle, Item.recordsOf withAux [] items, between⟩ hcall hclosed
  refine ⟨handing, ending, hhanding.append hending, _, rfl, ?_⟩
  rw [System.run_append, hrun]
  exact ⟨hover, hreturned, hhanded, hlog⟩

end Scans

end RedisSnapshot.Load
