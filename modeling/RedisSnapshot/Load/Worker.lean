import RedisSnapshot.Load.Attempt

/-!
# Workers

A worker gathers the records that it takes into a batch and sends the batch when it is full, when it
has been told to change its database, and before it ends. It does one thing at a time, and what
other participants do may fall between any two of them; its stage is what it is about to do.
-/

namespace RedisSnapshot.Load

namespace Worker

inductive Purpose where
  | full
  | changing (index : Nat)
  | leaving

inductive Stage where
  /-- It does whatever comes first. -/
  | running
  /-- It has taken a record off the queue. -/
  | holding (record : Record)
  | sending (purpose : Purpose)
  /-- It has sent what it had and not said so yet. -/
  | changed (index : Nat)
  /-- It has failed and not said so yet. -/
  | failing (error : Error)
  | ended
  | died

def Purpose.next : Purpose → Stage
  | full => .running
  | changing index => .changed index
  | leaving => .ended

end Worker

structure Worker where
  database : Nat
  /-- The records that are in the batch, the latest first. -/
  batch : List Record
  /-- The database that it was told and has not taken note of. -/
  announced : Option Nat
  stage : Worker.Stage

namespace Worker

def start (options : Options) : Worker :=
  ⟨options.database, [], none, .running⟩

def isRunning (worker : Worker) : Bool :=
  match worker.stage with
  | .running => true
  | _ => false

def isGone (worker : Worker) : Bool :=
  match worker.stage with
  | .ended | .died => true
  | _ => false

def keep (options : Options) (record : Record) (worker : Worker) : Worker :=
  let batch := record :: worker.batch
  let stage := if options.batchSize ≤ batch.length then .sending .full else .running
  { worker with batch, stage }

def change (index : Nat) (worker : Worker) : Worker :=
  { worker with database := index, stage := .running }

variable {m : Type → Type} [Monad m]

/-- Sends the batch, which is gone then whatever came of it. -/
def flush (options : Options) (send : List Command → m Execution) (purpose : Purpose)
    (worker : Worker) : m Worker := do
  let stage : Stage :=
    match ← deliver options send worker.database worker.batch.reverse with
    | .done => purpose.next
    | .failed error => .failing error
    | .died => .died
  return { worker with batch := [], stage }

end Worker

end RedisSnapshot.Load
