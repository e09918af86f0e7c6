import RedisSnapshot.Address
import RedisSnapshot.CommandLine.Arguments
import RedisSnapshot.CommandLine.Trace
import RedisSnapshot.Load.Run
import RedisSnapshot.Summary

/-!
# Running an action

What an action does to the world goes through a host, which can be the operating system or anything
that stands for it. The order in which an action turns to its host can be seen from outside: what is
read is opened first, and a file to be written is created before anything is decoded.
-/

namespace RedisSnapshot.CommandLine

structure Host (m : Type → Type) where
  openFile : String → m (Except IoFailure Unit)
  /-- What a file has to be read, which was opened before. -/
  contents : String → m Source
  createFile : String → m (Except IoFailure Unit)
  /-- Writes behind what was written before, to a file or to standard output. -/
  write : Option String → Bytes → m (Except IoFailure Unit)
  sync : Origin → Address → m (Except Error Payload)
  dial : Nat → Address → m (Except IoFailure Unit)
  exchange : Nat → List Command → m (Except Error (List Reply))
  /-- Waits until a pace of so many records in a second admits another one. -/
  pause : Nat → m Unit

inductive Ending where
  | success
  | failure (trace : Trace)
  /-- A length was declared that no memory can hold. -/
  | abortion

namespace Ending

def ofError (error : Error) : Ending :=
  match error with
  | .beyondMemory _ => .abortion
  | _ => .failure (.ofError error)

def ofResult {α : Type} : Except Error α → Ending
  | .ok _ => .success
  | .error error => .ofError error

def code : Ending → Nat
  | success => 0
  | failure _ => 1
  | abortion => 101

def complaint : Ending → Option String
  | failure trace => some trace.text
  | _ => none

end Ending

namespace Host

variable {m : Type → Type} [Monad m]

/-- Goes on with what an activity gave, if it gave something. -/
def andThen {α : Type} (result : Except Trace α) (next : α → m Ending) : m Ending :=
  match result with
  | .ok value => next value
  | .error trace => return .failure trace

def opened (host : Host m) (path : String) : m (Except Trace Unit) := do
  return (← host.openFile path).mapError fun failure =>
    (Trace.ofFailure failure).doing ("opening " ++ path)

def created (host : Host m) : Option String → m (Except Trace Unit)
  | none => return .ok ()
  | some path => do
      return (← host.createFile path).mapError fun failure =>
        (Trace.ofFailure failure).doing ("creating " ++ path)

def synced (host : Host m) (origin : Origin) : m (Except Trace Payload) := do
  let result ← match Address.parse origin.address with
    | .ok address => host.sync origin address
    | .error failure => pure (.error (.io failure))
  return result.mapError fun error =>
    (Trace.ofError error).doing ("syncing from " ++ origin.address)

/-- The most bytes of output that are held back. That they cannot be written is noticed when there
are more, or at the end. -/
def heldBack : Nat := 8192

/-- How an activity ends that has given some output, which comes out only when it is written. -/
def writeOut (host : Host m) (path : Option String) (output : Bytes) (ofFailure : IoFailure → Ending)
    (ending : Ending) : m Ending := do
  match ← host.write path output, ending with
  | .error failure, .success => return ofFailure failure
  | .error failure, ending => return if heldBack < output.length then ofFailure failure else ending
  | .ok (), ending => return ending

def writeRaw (host : Host m) (path : Option String) (source : Source) : m Ending :=
  let ofFailure (failure : IoFailure) : Ending := .failure (.ofFailure failure)
  host.writeOut path source.input ofFailure ((source.failure.map ofFailure).getD .success)

def writeLines (host : Host m) (form : LineForm) (path : Option String) (withAux : Bool)
    (source : Source) : m Ending :=
  let (scan, writer) := Scan.writeLines form withAux false source .unlimited
  host.writeOut path writer.sink.contents (fun failure => .ofError (.io failure))
    (.ofResult scan.result)

def writeOutput (host : Host m) (output : Output) (withAux : Bool) (read : m Source) :
    m Ending := do
  andThen (← host.created output.path) fun _ => do
    match output.form with
    | .raw => host.writeRaw output.path (← read)
    | .lines form => host.writeLines form output.path withAux (← read)

/-- The destinations of a load, each connection of which begins with the credentials. -/
def destinations (host : Host m) (target : Target) : Load.Destinations m where
  connect worker := do
    match target.connector.address worker with
    | .error error => return .error error
    | .ok text =>
        match Address.parse text with
        | .error failure => return .error (.io failure)
        | .ok address =>
            match ← host.dial worker address with
            | .error failure => return .error (.io failure)
            | .ok () =>
                Client.authenticate (host.exchange worker) text target.connector.credentials
  send worker commands := do
    match ← host.exchange worker commands with
    | .ok replies => return .answered replies
    | .error error => return .failed error
  pause := host.pause target.options.speed

def load (host : Host m) (target : Target) (source : Source) : m Ending := do
  let destinations := host.destinations target
  match ← Load.connect destinations target.options false with
  | .error error => return .ofError error
  | .ok pool => return .ofResult (← (Load.run destinations false source).run' pool)

def typeNames : List String :=
  ["String", "List", "Hash", "Set", "SortedSet", "Stream"]

def summaryOptions (statistics bigKeys : Bool) (bigSize bigLength : Nat) : Summary.Options where
  onlyServer := !statistics && !bigKeys
  countKeys := statistics
  findBig := bigKeys
  bigSize := bigSize
  thresholds := if 0 < bigLength then typeNames.map (·, ⟨bigSize, bigLength⟩) else []

/-- What the server says about itself, in one line. -/
def serverLine (banner : String) (server : Summary.Server) : String :=
  "rdb-version:" ++ banner ++ " redis-version:" ++ Text.lossy server.version ++
    " redis-bits:" ++ Decimal.text server.bits ++ " ctime:" ++ Decimal.intText server.created ++
    " used-mem:" ++ Decimal.intText server.usedMemory ++ "\n"

def info (host : Host m) (statistics bigKeys : Bool) (bigSize bigLength : Nat) (source : Source) :
    m Ending := do
  match Scan.summarise (summaryOptions statistics bigKeys bigSize bigLength) false source with
  | .error error => return .ofError error
  | .ok (banner, summary) =>
      let statisticsLine :=
        if statistics || bigKeys then summary.statisticsJson.text ++ "\n" else ""
      match ← host.write none (Text.bytes (serverLine banner summary.server ++ statisticsLine)) with
      | .ok () => return .success
      | .error failure => return .failure (.ofFailure failure)

def act (host : Host m) : Action → m Ending
  | .parse rdb output withAux => do
      andThen (← host.opened rdb) fun _ => host.writeOutput output withAux (host.contents rdb)
  | .dump origin output => do
      andThen (← host.synced origin) fun payload =>
        host.writeOutput output false (pure payload.toSource)
  | .load rdb target => do
      andThen (← host.opened rdb) fun _ => do host.load target (← host.contents rdb)
  | .trans origin target => do
      andThen (← host.synced origin) fun payload => host.load target payload.toSource
  | .info rdb statistics bigKeys bigSize bigLength => do
      andThen (← host.opened rdb) fun _ => do
        host.info statistics bigKeys bigSize bigLength (← host.contents rdb)

end Host

def versionLine : String := "rdbkit 0.1.0\n"

def helpText : String :=
  "Decode, dump and redistribute Redis RDB snapshots\n\n" ++
  "Usage: rdbkit <" ++ "|".intercalate actionNames ++ "> [settings]\n"

def misuseCode : Nat := 2

/-- Runs the program; tells its exit code and what is left to say on standard error. -/
def run {m : Type → Type} [Monad m] (host : Host m) (arguments : List String) :
    m (Nat × Option String) := do
  match request? arguments with
  | none => return (misuseCode, none)
  | some .version =>
      let _ ← host.write none (Text.bytes versionLine)
      return (0, none)
  | some .help =>
      let _ ← host.write none (Text.bytes helpText)
      return (0, none)
  | some (.act action) =>
      let ending ← host.act action
      return (ending.code, ending.complaint)

end RedisSnapshot.CommandLine
