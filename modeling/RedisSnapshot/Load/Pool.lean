import RedisSnapshot.Load.Worker

/-!
# A pool of workers

Records wait in a queue for whichever worker takes them. Whoever hands them over calls the pool for
one record after another and in the end to close it. The call for a selector is a barrier: it waits
until no record is in the queue, tells the new database to one worker after another and waits for as
many answers as there are workers. The first failure of a worker is kept, and from then on nothing
is admitted any more.

Every function here is one step of one participant, and a step that is not that participant's to
take changes nothing. In which order they are taken is not decided here.
-/

namespace RedisSnapshot.Load

inductive Call where
  | returned (result : Except Error Unit)
  /-- A record waits for room in the queue. -/
  | admitting (record : Record)
  /-- A database waits until the queue is empty. -/
  | draining (index : Nat)
  /-- So many workers have been told a database, and so many answers have been taken note of. -/
  | switching (index told gathered : Nat)
  /-- All workers before this one have ended. -/
  | joining (number : Nat)

structure Pool where
  options : Options
  workers : List Worker
  /-- The records that no worker has taken, the oldest first. -/
  queue : List Record
  /-- The number of answers of workers that have changed their database. -/
  changed : Nat
  failure : Option Error
  isClosed : Bool
  isCancelled : Bool
  /-- The number of records handed to the pool, those that are not written among them. -/
  records : Nat
  call : Call

namespace Pool

def start (options : Options) (isCancelled : Bool) : Pool :=
  { options, isCancelled
    workers := List.replicate options.workerCount (.start options), queue := []
    changed := 0, failure := none, isClosed := false, records := 0, call := .returned (.ok ()) }

def check (pool : Pool) (isCancelled : Bool) : Except Error Unit :=
  if pool.failure.isSome then .error .stopped
  else if isCancelled || pool.isCancelled then .error .cancelled
  else .ok ()

def hasRoom (pool : Pool) : Bool :=
  pool.queue.length < pool.options.queueLength

def isDeserted (pool : Pool) : Bool :=
  pool.workers.all Worker.isGone

/-- Keeps a failure, if it is the first one. -/
def fail (error : Error) (pool : Pool) : Pool :=
  { pool with failure := some (pool.failure.getD error) }

def update (number : Nat) (worker : Worker) (pool : Pool) : Pool :=
  { pool with workers := pool.workers.set number worker }

def returning (result : Except Error Unit) (pool : Pool) : Pool :=
  { pool with call := .returned result }

/-- Whether all that is left to do for the workers is to send what they have. -/
def isEnding (pool : Pool) : Bool :=
  pool.isCancelled || pool.failure.isSome || (pool.isClosed && pool.queue.isEmpty)

/-! ### Steps of the caller -/

def begin (isCancelled : Bool) (record : Record) (pool : Pool) : Pool :=
  let call : Call :=
    match pool.check isCancelled with
    | .error error => .returned (.error error)
    | .ok () =>
        match record with
        | .selectDb index => .draining index
        | .resizeDb .. | .aux .. => .returned (.ok ())
        | .keyed .. => .admitting record
  { pool with records := pool.records + 1, call }

def shut (pool : Pool) : Pool :=
  { pool with isClosed := true, call := .joining 0 }

/-- A call that waits looks whether it may still go on. -/
def recheck (isCancelled : Bool) (pool : Pool) : Pool :=
  match pool.call, pool.check isCancelled with
  | .admitting _, .error error | .draining _, .error error | .switching .., .error error =>
      pool.returning (.error error)
  | _, _ => pool

def enqueue (record : Record) (pool : Pool) : Pool :=
  if pool.isDeserted then pool.returning (.error .stopped)
  else if pool.hasRoom then
    { pool with queue := pool.queue ++ [record], call := .returned (.ok ()) }
  else pool

/-- Without workers the queue is nobody's and its records are lost. -/
def drain (index : Nat) (pool : Pool) : Pool :=
  if pool.queue.isEmpty || pool.isDeserted then { pool with call := .switching index 0 0 } else pool

/-- Tells the next worker the new database, if it has taken note of the last one. -/
def announce (index told gathered : Nat) (worker : Worker) (pool : Pool) : Pool :=
  if worker.isGone then pool.returning (.error .stopped)
  else if worker.announced.isNone then
    { pool.update told { worker with announced := some index } with
      call := .switching index (told + 1) gathered }
  else pool

/-- Takes note of one answer, unless all have been. -/
def gather (index told gathered : Nat) (pool : Pool) : Pool :=
  if gathered = pool.workers.length then pool.returning (.ok ())
  else if 0 < pool.changed then
    { pool with changed := pool.changed - 1, call := .switching index told (gathered + 1) }
  else if pool.isDeserted then pool.returning (.error .stopped)
  else pool

/-- Takes note of the end of a worker, be it a good one or not. -/
def join (number : Nat) (worker : Worker) (pool : Pool) : Pool :=
  match worker.stage with
  | .ended => { pool with call := .joining (number + 1) }
  | .died => { pool.fail (.destination .workerDied) with call := .joining (number + 1) }
  | _ => pool

/-- The first failure among the workers is told once. -/
def conclude (pool : Pool) : Pool :=
  let result := match pool.failure with
    | some error => .error error
    | none => .ok ()
  { pool with workers := [], failure := none, call := .returned result }

/-- The call goes on by one step, if it need not wait. -/
def advance (pool : Pool) : Pool :=
  match pool.call with
  | .returned _ => pool
  | .admitting record => pool.enqueue record
  | .draining index => pool.drain index
  | .switching index told gathered =>
      match pool.workers[told]? with
      | some worker => pool.announce index told gathered worker
      | none => pool.gather index told gathered
  | .joining number =>
      match pool.workers[number]? with
      | some worker => pool.join number worker
      | none => pool.conclude

/-! ### Steps of a worker -/

def receive (number : Nat) (pool : Pool) : Pool :=
  match pool.workers[number]?, pool.queue with
  | some worker, record :: queue =>
      if worker.isRunning then
        { pool.update number { worker with stage := .holding record } with queue }
      else pool
  | _, _ => pool

def listen (number : Nat) (pool : Pool) : Pool :=
  match pool.workers[number]? with
  | some worker =>
      match worker.isRunning, worker.announced with
      | true, some index =>
          pool.update number { worker with announced := none, stage := .sending (.changing index) }
      | _, _ => pool
  | none => pool

/-- A worker finds that there is nothing else left to do. -/
def leave (number : Nat) (pool : Pool) : Pool :=
  match pool.workers[number]? with
  | some worker =>
      if worker.isRunning && pool.isEnding then
        pool.update number { worker with stage := .sending .leaving }
      else pool
  | none => pool

variable {m : Type → Type} [Monad m]

def proceed (send : Nat → List Command → m Execution) (number : Nat) (pool : Pool) : m Pool := do
  match pool.workers[number]? with
  | none => return pool
  | some worker =>
      match worker.stage with
      | .running | .ended | .died => return pool
      | .holding record => return pool.update number (worker.keep pool.options record)
      | .sending purpose =>
          return pool.update number (← worker.flush pool.options (send number) purpose)
      | .changed index =>
          return { pool.update number (worker.change index) with changed := pool.changed + 1 }
      | .failing error => return (pool.fail error).update number { worker with stage := .ended }

/-! ### Steps of anyone -/

inductive Action where
  /-- The caller looks whether to go on, being cancelled itself or not. -/
  | recheck (isCancelled : Bool)
  | advance
  | receive (number : Nat)
  | listen (number : Nat)
  | leave (number : Nat)
  | proceed (number : Nat)

def step (send : Nat → List Command → m Execution) (pool : Pool) : Action → m Pool
  | .recheck isCancelled => return pool.recheck isCancelled
  | .advance => return pool.advance
  | .receive number => return pool.receive number
  | .listen number => return pool.listen number
  | .leave number => return pool.leave number
  | .proceed number => pool.proceed send number

def steps (send : Nat → List Command → m Execution) (pool : Pool) (actions : List Action) :
    m Pool :=
  actions.foldlM (step send) pool

def running (pool : Pool) : List Nat :=
  (List.range pool.workers.length).filter fun number =>
    (pool.workers[number]?.map Worker.isRunning).getD false

end Pool

end RedisSnapshot.Load
