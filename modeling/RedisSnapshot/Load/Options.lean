/-!
# How a snapshot is loaded

What a load can be told: where its records go, how they are grouped, how often a batch is tried and
what is left out of it.
-/

namespace RedisSnapshot.Load

structure Options where
  /-- The database that is written to until the first selector. -/
  database : Nat := 0
  workers : Nat := 1
  batch : Nat := 10
  /-- How often a batch is sent before its keys are deleted instead, and how often that is tried. -/
  attempts : Nat := 3
  queue : Nat := 1024
  /-- The number of records admitted in a second; zero sets no limit. -/
  speed : Nat := 0
  ignoreExpiry : Bool := false
  /-- What is added to every moment of expiry, in milliseconds. -/
  expiryShift : Int := 0
  /-- Whether entries of a stream that are marked as deleted are written as well. -/
  keepDeleted : Bool := false
  /-- Whether the keys of the snapshot are deleted and nothing is written. -/
  deleteOnly : Bool := false

namespace Options

/-- There is no load without a worker. -/
def workerCount (options : Options) : Nat :=
  max 1 options.workers

/-- There is no batch without a record. -/
def batchSize (options : Options) : Nat :=
  max 1 options.batch

def queueLength (options : Options) : Nat :=
  max 1 options.queue

/-- How often a batch is sent again after its first attempt, which is never left out. -/
def retries (options : Options) : Nat :=
  options.attempts - 1

end Options

end RedisSnapshot.Load
