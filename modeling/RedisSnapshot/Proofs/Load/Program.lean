import RedisSnapshot.Proofs.Load.Barrier
import RedisSnapshot.Proofs.Load.Delivery

/-!
# The program's own load with one worker

Between two calls the only worker does nothing and the queue is empty. From such a moment the
program's own schedule leads to another one, whatever is handed over, and closing comes to its end;
no call waits for something that never comes.
-/

namespace RedisSnapshot.Load

/-- A pool with one worker in which nothing has gone wrong. -/
def Pool.lone (options : Options) (worker : Worker) (queue : List Record) (changed records : Nat)
    (call : Call) (isClosed : Bool) : Pool :=
  ⟨options, [worker], queue, changed, none, isClosed, false, records, call⟩

/-- A pool between two calls. -/
def Pool.resting (options : Options) (database : Nat) (batch : List Record) (records : Nat) : Pool :=
  .lone options ⟨database, batch, none, .running⟩ [] 0 records (.returned (.ok ())) false

theorem Pool.steps_cons (send : Nat → List Command → StateM (List Pipeline) Execution) (pool : Pool)
    (action : Pool.Action) (actions : List Pool.Action) (log : List Pipeline) :
    pool.steps send (action :: actions) log =
      (pool.step send action log).1.steps send actions (pool.step send action log).2 :=
  rfl

theorem Pool.steps_append (send : Nat → List Command → StateM (List Pipeline) Execution)
    (pool : Pool) (first second : List Pool.Action) (log : List Pipeline) :
    pool.steps send (first ++ second) log =
      (pool.steps send first log).1.steps send second (pool.steps send first log).2 := by
  rw [Pool.steps, List.foldlM_append]
  rfl

/-! ### Steps of a lone worker -/

section Steps

variable {options : Options} {send : Nat → List Command → StateM (List Pipeline) Execution}
  {database changed records : Nat} {batch queue : List Record} {call : Call} {isClosed : Bool}
  {log : List Pipeline}

theorem step_idle :
    (Pool.lone options ⟨database, batch, none, .running⟩ queue changed records call isClosed).step
        send (.proceed 0) log =
      (.lone options ⟨database, batch, none, .running⟩ queue changed records call isClosed, log) :=
  rfl

theorem step_leave :
    (Pool.lone options ⟨database, batch, none, .running⟩ queue changed records call false).step
        send (.leave 0) log =
      (.lone options ⟨database, batch, none, .running⟩ queue changed records call false, log) :=
  rfl

theorem step_admitting (record : Record) :
    (Pool.lone options ⟨database, batch, none, .running⟩ [] changed records (.admitting record)
        false).step send .advance log =
      (.lone options ⟨database, batch, none, .running⟩ [record] changed records (.returned (.ok ()))
        false, log) := by
  let pool : Pool :=
    .lone options ⟨database, batch, none, .running⟩ [] changed records (.admitting record) false
  have hroom : pool.hasRoom = true := by
    rw [Pool.hasRoom, decide_eq_true_iff]
    exact Nat.lt_of_lt_of_le Nat.zero_lt_one (Nat.le_max_left 1 options.queue)
  change (pool.enqueue record, log) = _
  rw [Pool.enqueue, hroom]
  rfl

theorem step_receive (record : Record) :
    (Pool.lone options ⟨database, batch, none, .running⟩ (record :: queue) changed records call
        isClosed).step send (.receive 0) log =
      (.lone options ⟨database, batch, none, .holding record⟩ queue changed records call isClosed,
        log) :=
  rfl

theorem step_holding (record : Record) :
    (Pool.lone options ⟨database, batch, none, .holding record⟩ queue changed records call
        isClosed).step send (.proceed 0) log =
      (.lone options (Worker.keep options record ⟨database, batch, none, .holding record⟩) queue
        changed records call isClosed, log) :=
  rfl

theorem step_changed (index : Nat) :
    (Pool.lone options ⟨database, batch, none, .changed index⟩ queue changed records call
        isClosed).step send (.proceed 0) log =
      (.lone options ⟨index, batch, none, .running⟩ queue (changed + 1) records call isClosed,
        log) :=
  rfl

theorem step_sending {destination : Destination} (hsucceeds : destination.Succeeds)
    (purpose : Worker.Purpose) :
    (Pool.lone options ⟨database, batch, none, .sending purpose⟩ queue changed records call
        isClosed).step destination.send (.proceed 0) log =
      (.lone options ⟨database, [], none, purpose.next⟩ queue changed records call isClosed,
        log ++ if batch.reverse.isEmpty then []
          else [⟨0, Parcel.commands options ⟨database, batch.reverse⟩⟩]) := by
  let worker : Worker := ⟨database, batch, none, .sending purpose⟩
  let pool : Pool := .lone options worker queue changed records call isClosed
  change (worker.flush options (destination.send 0) purpose >>= fun flushed =>
    pure (pool.update 0 flushed)) log = _
  rw [bind_apply, flush_of_succeeds hsucceeds]
  rfl

end Steps

/-! ### Calls -/

theorem assign_of_running {pool : Pool} {number : Nat} (h : pool.running = [number]) :
    assign pool =
      [.advance, .receive number, .proceed number, .proceed number] ++ settle pool := by
  have hturn : ([number] : List Nat)[pool.records % 1]? = some number := by
    rw [Nat.mod_one]
    rfl
  unfold assign
  simp only [h, List.length_singleton, hturn]

/-- The pipeline of a parcel that nothing goes wrong with. -/
def Parcel.pipeline (options : Options) (parcel : Parcel) : Pipeline :=
  ⟨0, parcel.commands options⟩

theorem pipelines_portions (options : Options) (database : Nat) {held : List Record}
    (hheld : held.length ≤ options.batchSize) :
    (Parcel.portions options.batchSize ⟨database, held⟩).map (Parcel.pipeline options) =
      if held.isEmpty then [] else [⟨0, Parcel.commands options ⟨database, held⟩⟩] := by
  rw [Parcel.portions_of_le options.batchSize_pos hheld]
  split
  · rfl
  · rfl

section Calls

variable {options : Options} {destination : Destination} (database records : Nat)
  {batch : List Record} (log : List Pipeline) (hsucceeds : destination.Succeeds)

include hsucceeds

theorem steps_assign (record : Record) (hroom : batch.length < options.batchSize) :
    ∃ (kept : List Record) (sent : List Parcel), kept.length < options.batchSize ∧
      (Pool.lone options ⟨database, batch, none, .running⟩ [] 0 records (.admitting record)
          false).steps destination.send
          (assign (.lone options ⟨database, batch, none, .running⟩ [] 0 records (.admitting record)
            false)) log =
        (.resting options database kept records, log ++ sent.map (Parcel.pipeline options)) ∧
      ∀ later, parcelsOnto options.batchSize database (batch.reverse ++ [record]) later =
        sent ++ parcelsOnto options.batchSize database kept.reverse later := by
  have hassign : assign
      (.lone options ⟨database, batch, none, .running⟩ [] 0 records (.admitting record) false) =
        .advance :: .receive 0 :: .proceed 0 :: .proceed 0 ::
          [.proceed 0, .leave 0, .proceed 0, .proceed 0] := assign_of_running rfl
  rw [hassign, Pool.steps_cons, step_admitting, Pool.steps_cons, step_receive, Pool.steps_cons,
    step_holding, Pool.steps_cons]
  by_cases hfull : options.batchSize ≤ batch.length + 1
  · have hkeep : Worker.keep options record ⟨database, batch, none, .holding record⟩ =
        ⟨database, record :: batch, none, .sending .full⟩ := by
      rw [Worker.keep, List.length_cons, if_pos hfull]
    have hlength : (batch.reverse ++ [record]).length = options.batchSize := by
      rw [List.length_append, List.length_reverse, List.length_singleton]
      omega
    refine ⟨[], Parcel.portions options.batchSize ⟨database, batch.reverse ++ [record]⟩,
      options.batchSize_pos, ?_, parcelsOnto_eq_portions options.batchSize_pos hlength⟩
    rw [hkeep, step_sending hsucceeds, List.reverse_cons,
      pipelines_portions options database (Nat.le_of_eq hlength)]
    simp only [Pool.steps_cons, Worker.Purpose.next, step_idle, step_leave]
    rfl
  · have hkeep : Worker.keep options record ⟨database, batch, none, .holding record⟩ =
        ⟨database, record :: batch, none, .running⟩ := by
      rw [Worker.keep, List.length_cons, if_neg hfull]
    refine ⟨record :: batch, [], Nat.lt_of_not_le hfull, ?_, ?_⟩
    · rw [hkeep]
      simp only [Pool.steps_cons, step_idle, step_leave, List.map_nil, List.append_nil]
      rfl
    · intro later
      rw [List.reverse_cons]
      rfl

theorem steps_switch (index : Nat) (hroom : batch.length < options.batchSize) :
    (Pool.lone options ⟨database, batch, none, .running⟩ [] 0 records (.draining index) false).steps
        destination.send
        (switch false
          (.lone options ⟨database, batch, none, .running⟩ [] 0 records (.draining index) false)) log =
      (.resting options index [] records,
        log ++ (Parcel.portions options.batchSize ⟨database, batch.reverse⟩).map
          (Parcel.pipeline options)) := by
  let told : Worker := ⟨database, batch, none, .sending (.changing index)⟩
  have hswitch : switch false
      (.lone options ⟨database, batch, none, .running⟩ [] 0 records (.draining index) false) =
        [.advance, .recheck false, .advance, .listen 0] ++ .proceed 0 :: .proceed 0 ::
          [.proceed 0, .leave 0, .proceed 0, .proceed 0, .recheck false, .advance, .advance] := rfl
  have htold : (Pool.lone options ⟨database, batch, none, .running⟩ [] 0 records (.draining index)
      false).steps destination.send [.advance, .recheck false, .advance, .listen 0] log =
        (.lone options told [] 0 records (.switching index 1 0) false, log) := rfl
  have hanswered : ∀ log, (Pool.lone options ⟨index, [], none, .running⟩ [] 1 records
      (.switching index 1 0) false).steps destination.send [.recheck false, .advance, .advance] log =
        (.resting options index [] records, log) := fun _ => rfl
  have hlength : batch.reverse.length ≤ options.batchSize := by
    rw [List.length_reverse]
    exact Nat.le_of_lt hroom
  rw [hswitch, Pool.steps_append, htold, Pool.steps_cons, step_sending hsucceeds,
    pipelines_portions options database hlength]
  simp only [Worker.Purpose.next, Pool.steps_cons, step_changed, step_idle, step_leave]
  exact hanswered _

theorem steps_close (hroom : batch.length < options.batchSize) :
    ∃ pool : Pool, pool.Concluded (.ok ()) ∧
      (Pool.resting options database batch records).shut.steps destination.send
          [.leave 0, .proceed 0, .proceed 0, .advance, .advance] log =
        (pool, log ++ (Parcel.portions options.batchSize ⟨database, batch.reverse⟩).map
          (Parcel.pipeline options)) := by
  have hleaving : (Pool.resting options database batch records).shut.step destination.send
      (.leave 0) log =
        (.lone options ⟨database, batch, none, .sending .leaving⟩ [] 0 records (.joining 0) true,
          log) := rfl
  have hlength : batch.reverse.length ≤ options.batchSize := by
    rw [List.length_reverse]
    exact Nat.le_of_lt hroom
  rw [Pool.steps_cons, hleaving, Pool.steps_cons, step_sending hsucceeds,
    pipelines_portions options database hlength]
  exact ⟨_, ⟨rfl, rfl, rfl⟩, rfl⟩

end Calls

section Program

variable {options : Options} {destination : Destination}
  {destinations : Destinations (StateM (List Pipeline))} (database records : Nat)
  {batch : List Record} (log : List Pipeline) (hsend : destinations.send = destination.send)
  (hsucceeds : destination.Succeeds)

include hsend hsucceeds

theorem close_resting (hroom : batch.length < options.batchSize) :
    ∃ pool : Pool, pool.Concluded (.ok ()) ∧
      close destinations (.resting options database batch records) log =
        ((.ok (), pool), log ++ (Parcel.portions options.batchSize ⟨database, batch.reverse⟩).map
          (Parcel.pipeline options)) := by
  obtain ⟨pool, hconcluded, hsteps⟩ := steps_close database records log hsucceeds hroom
  refine ⟨pool, hconcluded, ?_⟩
  have hclose : close destinations (.resting options database batch records) log =
      (do return conclude (← (Pool.resting options database batch records).shut.steps
        destinations.send [.leave 0, .proceed 0, .proceed 0, .advance, .advance]) :
          StateM (List Pipeline) (Except Error Unit × Pool)) log := rfl
  rw [hclose, bind_apply, hsend, hsteps]
  change (conclude pool, _) = _
  rw [conclude, hconcluded.call]

theorem handle_keyed (hpause : destinations.pause = pure ()) (key : Key) (value : Value)
    (hroom : batch.length < options.batchSize) :
    ∃ (kept : List Record) (sent : List Parcel), kept.length < options.batchSize ∧
      handle destinations false (.keyed key value) (.resting options database batch records) log =
        ((.ok (), .resting options database kept (records + 1)),
          log ++ sent.map (Parcel.pipeline options)) ∧
      ∀ later, parcelsOnto options.batchSize database batch.reverse (.keyed key value :: later) =
        sent ++ parcelsOnto options.batchSize database kept.reverse later := by
  obtain ⟨kept, sent, hkept, hsteps, hplan⟩ := steps_assign database (records + 1) log hsucceeds
    (.keyed key value) hroom
  refine ⟨kept, sent, hkept, ?_, hplan⟩
  let pool : Pool := .lone options ⟨database, batch, none, .running⟩ [] 0 (records + 1)
    (.admitting (.keyed key value)) false
  have hhandle : handle destinations false (.keyed key value)
      (.resting options database batch records) log =
        (do return conclude (← pool.steps destination.send (assign pool)) :
          StateM (List Pipeline) (Except Error Unit × Pool)) log := by
    have hbegun : (Pool.resting options database batch records).begin false (.keyed key value) =
        pool := rfl
    unfold handle
    rw [hsend, hpause, hbegun]
    by_cases hspeed : 0 < pool.options.speed
    · simp only [hspeed, if_true]
      rfl
    · simp only [hspeed, if_false]
      rfl
  rw [hhandle, bind_apply, hsteps]
  rfl

theorem handle_selector (index : Nat) (hroom : batch.length < options.batchSize) :
    handle destinations false (.selectDb index) (.resting options database batch records) log =
      ((.ok (), .resting options index [] (records + 1)),
        log ++ (Parcel.portions options.batchSize ⟨database, batch.reverse⟩).map
          (Parcel.pipeline options)) := by
  let pool : Pool := .lone options ⟨database, batch, none, .running⟩ [] 0 (records + 1)
    (.draining index) false
  have hhandle : handle destinations false (.selectDb index)
      (.resting options database batch records) log =
        (do return conclude (← pool.steps destinations.send (switch false pool)) :
          StateM (List Pipeline) (Except Error Unit × Pool)) log := rfl
  rw [hhandle, bind_apply, hsend, steps_switch database (records + 1) log hsucceeds index hroom]
  rfl

omit hsend hsucceeds in
theorem deliver_cons {record : Record} {pool after : Pool} {between : List Pipeline}
    (hcancelled : pool.isCancelled = false)
    (hhandle : handle destinations false record pool log = ((.ok (), after), between))
    (later : List Record) :
    Scan.deliver (receiver destinations) (record :: later) pool log =
      Scan.deliver (receiver destinations) later after between := by
  have htake : (receiver destinations).take record pool log = ((.ok (), after), between) := by
    rw [← hcancelled] at hhandle
    exact hhandle
  rw [Scan.deliver, bind_apply_pool, htake]

theorem deliver_resting (hpause : destinations.pause = pure ()) (handed : List Record)
    (hroom : batch.length < options.batchSize) :
    ∃ (database' count : Nat) (kept : List Record) (sent : List Parcel),
      kept.length < options.batchSize ∧
      Scan.deliver (receiver destinations) handed (.resting options database batch records) log =
        ((.ok (), .resting options database' kept count),
          log ++ sent.map (Parcel.pipeline options)) ∧
      parcelsOnto options.batchSize database batch.reverse handed =
        sent ++ Parcel.portions options.batchSize ⟨database', kept.reverse⟩ := by
  -- All that a call needs to know of those before it is that less than a batch is left of them.
  induction handed generalizing database batch records log with
  | nil =>
      refine ⟨database, records, batch, [], hroom, ?_, parcelsOnto_nil⟩
      rw [List.map_nil, List.append_nil]
      rfl
  | cons record handed ih =>
      cases record with
      | keyed key value =>
          obtain ⟨kept, sent, hkept, hhandle, hplan⟩ :=
            handle_keyed database records log hsend hsucceeds hpause key value hroom
          obtain ⟨database', count, last, more, hlast, hdeliver, hmore⟩ :=
            ih database (records + 1) (log ++ sent.map (Parcel.pipeline options)) hkept
          refine ⟨database', count, last, sent ++ more, hlast, ?_, ?_⟩
          · rw [deliver_cons log rfl hhandle, hdeliver, List.map_append, List.append_assoc]
          · rw [hplan, hmore, List.append_assoc]
      | selectDb index =>
          let sent := Parcel.portions options.batchSize ⟨database, batch.reverse⟩
          have hhandle := handle_selector database records log hsend hsucceeds index hroom
          have hnone : ([] : List Record).length < options.batchSize := options.batchSize_pos
          obtain ⟨database', count, last, more, hlast, hdeliver, hmore⟩ :=
            ih index (records + 1) (log ++ sent.map (Parcel.pipeline options)) hnone
          refine ⟨database', count, last, sent ++ more, hlast, ?_, ?_⟩
          · rw [deliver_cons log rfl hhandle, hdeliver, List.map_append, List.append_assoc]
          · rw [parcelsOnto_selector, List.append_assoc, ← hmore]
            rfl
      | resizeDb keys expiring | aux field value =>
          obtain ⟨database', count, last, more, hlast, hdeliver, hmore⟩ :=
            ih database (records + 1) log hroom
          exact ⟨database', count, last, more, hlast, (deliver_cons log rfl rfl handed).trans hdeliver,
            hmore⟩

end Program

theorem log_of_sends {options : Options} {destination : Destination} {sent : List Parcel}
    {log : List Pipeline} (hsucceeds : destination.Succeeds)
    (h : Sends options destination sent log) : log = sent.map (Parcel.pipeline options) := by
  induction h with
  | nil => rfl
  | @snoc sent parcel before after _ hrecords hlast ih =>
      have hfilled : parcel.records.isEmpty = false := List.isEmpty_eq_false_iff.2 hrecords
      rw [deliver_of_succeeds hsucceeds, hfilled] at hlast
      have hafter : before ++ [⟨0, parcel.commands options⟩] = after := congrArg Prod.snd hlast
      rw [← hafter, ih, List.map_append]
      rfl

/-- **One worker.** Records that are handed over one after another and then closed upon are sent in
their parcels, whoever takes which step when; and the program's own schedule comes to that end. -/
theorem log_eq_parcels {options : Options} {destination : Destination}
    {destinations : Destinations (StateM (List Pipeline))} (hone : options.workerCount = 1)
    (hsucceeds : destination.Succeeds) (hsend : destinations.send = destination.send)
    (hpause : destinations.pause = pure ()) :
    (∀ (handing ending : List Move) (final : System),
      (∀ move ∈ handing ++ ending, move.isCancellation = false ∧ move.isClosing = false) →
        final = (System.start options).run destination (handing ++ .close :: ending) →
          final.isOver = true →
            final.pool.call = .returned (.ok ()) ∧
              final.log = (parcels options final.handed).map (Parcel.pipeline options)) ∧
      ∀ handed : List Record, ∃ pool : Pool, pool.Concluded (.ok ()) ∧
        (Scan.deliver (receiver destinations) handed >>= fun taken =>
            close destinations >>= fun closed => pure (taken, closed)) (.start options false) [] =
          (((.ok (), .ok ()), pool), (parcels options handed).map (Parcel.pipeline options)) := by
  constructor
  · intro handing ending final hmoves hfinal hover
    have hcancellations : ∀ move ∈ handing ++ .close :: ending, move.isCancellation = false := by
      intro move hmem
      rw [List.mem_append, List.mem_cons] at hmem
      rcases hmem with hmem | rfl | hmem
      · exact (hmoves move (List.mem_append_left _ hmem)).1
      · rfl
      · exact (hmoves move (List.mem_append_right _ hmem)).1
    obtain ⟨result, hcall⟩ : ∃ result, final.pool.call = .returned result := by
      rw [System.isOver, Bool.and_eq_true] at hover
      split at hover
      · exact ⟨_, ‹_›⟩
      · cases hover.2
    have hok : result = .ok () := returned_eq_ok hsucceeds hcancellations (hfinal ▸ hcall)
    rw [hok] at hcall
    exact ⟨hcall, log_of_sends hsucceeds (sends_parcels hone hmoves hfinal hover hcall)⟩
  · intro handed
    have hstart : Pool.start options false = .resting options options.database [] 0 := by
      rw [Pool.start, hone]
      rfl
    have hnone : ([] : List Record).length < options.batchSize := options.batchSize_pos
    obtain ⟨database, count, kept, sent, hkept, hdeliver, hplan⟩ :=
      deliver_resting options.database 0 [] hsend hsucceeds hpause handed hnone
    obtain ⟨pool, hconcluded, hclose⟩ := close_resting database count
      ([] ++ sent.map (Parcel.pipeline options)) hsend hsucceeds hkept
    refine ⟨pool, hconcluded, ?_⟩
    rw [hstart, bind_apply_pool, hdeliver, bind_apply_pool, hclose, parcels]
    change parcelsOnto options.batchSize options.database [] handed = _ at hplan
    rw [hplan, List.map_append, List.nil_append]
    rfl

/-- Reaches a destination without delay. -/
def Destination.direct (destination : Destination) : Destinations (StateM (List Pipeline)) :=
  ⟨fun _ => pure (.ok ()), destination.send, pure ()⟩

/-- Batches of two, first with a worker who lets records wait in the queue and then as the program
does it, with a selector behind an odd number of keys. -/
theorem log_eq_parcels_odd :
    (∃ final : System, final.isOver = true ∧ final.pool.call = .returned (.ok ()) ∧
      final.log =
        [⟨0, [.named "SELECT" [Decimal.bytes 0], .named "SET" [[97], [1]],
          .named "PEXPIREAT" [[97], Decimal.intBytes (-1)], .named "SET" [[98], [2]]]⟩]) ∧
      ∃ pool : Pool, pool.Concluded (.ok ()) ∧
        (Scan.deliver (receiver Destination.agreeing.direct)
            [.keyed ⟨[97], 5⟩ (.string [1]), .aux [98] [99], .keyed ⟨[98], 0⟩ (.set []),
              .keyed ⟨[99], 7⟩ (.list [[2]]), .selectDb 3] >>= fun taken =>
            close Destination.agreeing.direct >>= fun closed => pure (taken, closed))
            (.start { batch := 2, expiryShift := -6 } false) [] =
          (((.ok (), .ok ()), pool),
            [⟨0, [.named "SELECT" [Decimal.bytes 0], .named "SET" [[97], [1]],
                .named "PEXPIREAT" [[97], Decimal.intBytes (-1)]]⟩,
              ⟨0, [.named "SELECT" [Decimal.bytes 0], .named "LPUSH" [[99], [2]],
                .named "PEXPIREAT" [[99], Decimal.intBytes 1]]⟩]) := by
  obtain ⟨hany, hall⟩ := @log_eq_parcels { batch := 2, expiryShift := -6 } .agreeing
    Destination.agreeing.direct rfl Destination.agreeing_succeeds rfl rfl
  constructor
  · let handing : List Move :=
      [.call false (.keyed ⟨[97], 5⟩ (.string [1])), .act .advance,
        .call false (.keyed ⟨[98], 0⟩ (.string [2])), .act .advance, .act (.receive 0),
        .act (.proceed 0), .call false (.selectDb 3), .act .advance, .act (.receive 0),
        .act (.proceed 0), .act .advance, .act .advance, .act (.proceed 0), .act (.listen 0),
        .act (.proceed 0), .act (.proceed 0), .act .advance, .act .advance]
    let ending : List Move := [.act (.leave 0), .act (.proceed 0), .act .advance, .act .advance]
    have hmoves : ∀ move ∈ handing ++ ending,
        move.isCancellation = false ∧ move.isClosing = false := by decide
    let final := (System.start { batch := 2, expiryShift := -6 }).run .agreeing
      (handing ++ .close :: ending)
    have hover : final.isOver = true := by decide +kernel
    have hhanded : final.handed = [.keyed ⟨[97], 5⟩ (.string [1]), .keyed ⟨[98], 0⟩ (.string [2]),
        .selectDb 3] := rfl
    have hparcels : parcels { batch := 2, expiryShift := -6 }
        [.keyed ⟨[97], 5⟩ (.string [1]), .keyed ⟨[98], 0⟩ (.string [2]), .selectDb 3] =
        [⟨0, [.keyed ⟨[97], 5⟩ (.string [1]), .keyed ⟨[98], 0⟩ (.string [2])]⟩] := by
      simp [parcels, parcelsOnto, segmentsOnto, Parcel.portions, portions, Options.batchSize]
    obtain ⟨hcall, hlog⟩ := hany handing ending final hmoves rfl hover
    rw [hhanded, hparcels] at hlog
    exact ⟨final, hover, hcall, hlog.trans rfl⟩
  · have hparcels : parcels { batch := 2, expiryShift := -6 }
        [.keyed ⟨[97], 5⟩ (.string [1]), .aux [98] [99], .keyed ⟨[98], 0⟩ (.set []),
          .keyed ⟨[99], 7⟩ (.list [[2]]), .selectDb 3] =
        [⟨0, [.keyed ⟨[97], 5⟩ (.string [1]), .keyed ⟨[98], 0⟩ (.set [])]⟩,
          ⟨0, [.keyed ⟨[99], 7⟩ (.list [[2]])]⟩] := by
      simp [parcels, parcelsOnto, segmentsOnto, Parcel.portions, portions, Options.batchSize]
    obtain ⟨pool, hconcluded, hload⟩ := hall [.keyed ⟨[97], 5⟩ (.string [1]), .aux [98] [99],
      .keyed ⟨[98], 0⟩ (.set []), .keyed ⟨[99], 7⟩ (.list [[2]]), .selectDb 3]
    rw [hparcels] at hload
    exact ⟨pool, hconcluded, hload.trans rfl⟩

end RedisSnapshot.Load
