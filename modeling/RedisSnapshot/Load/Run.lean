import RedisSnapshot.Load.Pool
import RedisSnapshot.Resp.Client
import RedisSnapshot.Snapshot

/-!
# Running a load

A load connects its workers, hands them the records of a snapshot one by one and closes them down.
It lets the workers take their steps as soon as they can, so the queue is empty whenever the next
record comes, and no call ever has to wait.
-/

namespace RedisSnapshot.Load

/-- What the workers of a load reach their destinations with. -/
structure Destinations (m : Type → Type) where
  connect : Nat → m (Except Error Unit)
  send : Nat → List Command → m Execution
  /-- Waits until the pace admits another record. -/
  pause : m Unit

variable {m : Type → Type} [Monad m]

def greet (destinations : Destinations m) (worker : Nat) : m (Except Error Unit) := do
  match ← destinations.connect worker with
  | .error error => return .error error
  | .ok () =>
      match ← destinations.send worker [Client.ping] with
      | .answered replies => return Client.checkPing replies
      | .failed error => return .error error
      | .died => return .error (.destination .workerDied)

/-- Greets the workers' destinations one after another, up to the first who does not answer. -/
def greetAll (destinations : Destinations m) : List Nat → m (Except Error Unit)
  | [] => return .ok ()
  | worker :: workers => do
      match ← greet destinations worker with
      | .ok () => greetAll destinations workers
      | .error error => return .error error

def connect (destinations : Destinations m) (options : Options) (isCancelled : Bool) :
    m (Except Error Pool) := do
  match ← greetAll destinations (List.range options.workerCount) with
  | .ok () => return .ok (.start options isCancelled)
  | .error error => return .error error

def numbers (pool : Pool) : List Nat :=
  List.range pool.workers.length

/-- Lets the workers leave if there is nothing else left for them to do. -/
def settle (pool : Pool) : List Pool.Action :=
  (numbers pool).map .proceed ++
    (numbers pool).flatMap fun number => [.leave number, .proceed number, .proceed number]

/-- Has the records written that no worker has sent yet, or, once cancelled, as many as can be. -/
def cancel (destinations : Destinations m) (pool : Pool) : m Pool :=
  { pool with isCancelled := true }.steps destinations.send (settle pool)

/-- Hands a record to one of the workers that are running. They take turns. -/
def assign (pool : Pool) : List Pool.Action :=
  let running := pool.running
  match running[pool.records % running.length]? with
  | some number =>
      [.advance, .receive number, .proceed number, .proceed number] ++ settle pool
  | none => [.advance]

/-- Tells the workers a database one after another and has each of them change to it. -/
def switch (isCancelled : Bool) (pool : Pool) : List Pool.Action :=
  let change (number : Nat) : List Pool.Action :=
    [.recheck isCancelled, .advance, .listen number, .proceed number, .proceed number] ++
      settle pool
  [.advance] ++ (numbers pool).flatMap change ++
    (numbers pool).flatMap (fun _ => [.recheck isCancelled, .advance]) ++ [.advance]

/-- The result of a call. One that still waits for something would wait for ever. -/
def conclude (pool : Pool) : Except Error Unit × Pool :=
  match pool.call with
  | .returned result => (result, pool)
  | _ => (.error .stopped, pool.returning (.error .stopped))

/-- Takes a record from someone who may have been cancelled as well. -/
def handle (destinations : Destinations m) (isCancelled : Bool) (record : Record) :
    StateT Pool m (Except Error Unit) := fun pool => do
  let pool := pool.begin isCancelled record
  match pool.call with
  | .admitting _ =>
      if 0 < pool.options.speed then
        destinations.pause
      return conclude (← pool.steps destinations.send (assign pool))
  | .draining _ =>
      return conclude (← pool.steps destinations.send (switch isCancelled pool))
  | _ => return conclude pool

def close (destinations : Destinations m) : StateT Pool m (Except Error Unit) := fun pool => do
  let finish (number : Nat) : List Pool.Action :=
    [.leave number, .proceed number, .proceed number, .advance]
  let actions := (numbers pool).flatMap finish ++ [.advance]
  return conclude (← pool.shut.steps destinations.send actions)

def receiver (destinations : Destinations m) : Receiver (StateT Pool m) where
  take record := do handle destinations (← get).isCancelled record
  finish := return .ok ()
  isCancelled := return (← get).isCancelled

/-- Of the failure of a scan and that of the workers, the one that came of writing is told. -/
def outcome (scan : Scan) (closing : Except Error Unit) : Except Error String :=
  match scan.result, closing with
  | .error (.beyondMemory length), _ => .error (.beyondMemory length)
  | _, .error failure => .error failure
  | _, .ok () => scan.bannerOrError

/-- Hands the records of a snapshot to a receiver and closes it, however the scan has ended. -/
def scanInto (receiver : Receiver m) (close : m (Except Error Unit)) (withAux : Bool)
    (source : Source) : m (Except Error String) := do
  let scan ← Scan.run receiver withAux source
  return outcome scan (← close)

def run (destinations : Destinations m) (withAux : Bool) (source : Source) :
    StateT Pool m (Except Error String) :=
  scanInto (receiver destinations) (close destinations) withAux source

end RedisSnapshot.Load
