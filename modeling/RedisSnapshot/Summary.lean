import RedisSnapshot.Record.Text
import RedisSnapshot.Snapshot

/-!
# A summary of a snapshot

A summary has what the server wrote about itself, and for every database and type of value the
number and size of the keys, or of the big ones alone, which are then also listed. If nothing but
the server's own fields is wanted, a scan need not go on once all of them are known.
-/

namespace RedisSnapshot

/-- When a key is big: its payload is larger than so many bytes, or it has at least so many
elements. Zero switches a test off. -/
structure Threshold where
  size : Nat
  length : Nat

namespace Summary

structure Options where
  onlyServer : Bool
  countKeys : Bool
  findBig : Bool
  bigSize : Nat
  /-- Thresholds of single types; one without a size takes that of all types. -/
  thresholds : List (String × Threshold)

def Options.threshold (options : Options) (typeName : String) : Threshold :=
  match options.thresholds.lookup typeName with
  | some threshold =>
      if threshold.size = 0 then { threshold with size := options.bigSize } else threshold
  | none => ⟨options.bigSize, 0⟩

def Options.isBig (options : Options) (record : Record) : Bool :=
  let threshold := options.threshold record.typeName
  (0 < threshold.size && threshold.size < record.size) ||
    (0 < threshold.length && threshold.length ≤ record.length)

structure BigKey where
  key : String
  typeName : String
  size : Nat
  length : Nat
deriving DecidableEq

structure Tally where
  count : Nat
  size : Nat
  /-- The latest first. -/
  big : List BigKey
deriving DecidableEq

def Tally.empty : Tally :=
  ⟨0, 0, []⟩

/-- What the server says about itself. A number that it has not said is zero. -/
structure Server where
  version : Bytes
  bits : Nat
  created : Int
  usedMemory : Int

def Server.isComplete (server : Server) : Bool :=
  !server.version.isEmpty && server.bits != 0 && server.created != 0 && server.usedMemory != 0

end Summary

open Summary

structure Summary where
  server : Server
  /-- Tallies by database and type, in the order in which they came up. -/
  tallies : List ((Nat × String) × Tally)
  database : Nat
  /-- The scan was told to end because nothing more was wanted. -/
  isSatisfied : Bool

namespace Summary

def empty : Summary :=
  ⟨⟨[], 0, 0, 0⟩, [], 0, false⟩

def number {α : Type} (field : String) (value : Bytes) : Option α → Except Error α
  | some found => .ok found
  | none => .error (.format (.auxNumber field value))

/-- The server's fields after one more auxiliary field, most of which do not matter here. -/
def Server.update (server : Server) (field value : Bytes) : Except Error Server := do
  if field = Text.bytes "redis-ver" then
    return { server with version := value }
  else if field = Text.bytes "redis-bits" then
    let bits := Decimal.unsigned? (Word.count 32) value
    return { server with bits := ← number "redis-bits" value bits }
  else if field = Text.bytes "ctime" then
    return { server with created := ← number "ctime" value (Decimal.signed? 64 value) }
  else if field = Text.bytes "used-mem" then
    return { server with usedMemory := ← number "used-mem" value (Decimal.signed? 64 value) }
  else
    return server

def addTo (place : Nat × String) (size : Nat) (big : List BigKey) :
    List ((Nat × String) × Tally) → List ((Nat × String) × Tally)
  | [] => [(place, ⟨1, size, big⟩)]
  | (other, tally) :: rest =>
      if other = place then
        (other, ⟨tally.count + 1, tally.size + size, big ++ tally.big⟩) :: rest
      else
        (other, tally) :: addTo place size big rest

/-- Takes a key into account. A search for big keys counts no others. -/
def addKey (options : Options) (summary : Summary) (record : Record) : Summary :=
  let place := (summary.database, record.typeName)
  if options.findBig then
    if options.isBig record then
      let big := ⟨record.title, record.typeName, record.size, record.length⟩
      { summary with tallies := addTo place record.size [big] summary.tallies }
    else summary
  else if options.countKeys then
    { summary with tallies := addTo place record.size [] summary.tallies }
  else summary

/-- Takes a record into account. A summary with nothing left to learn asks for the scan to end. -/
def add (options : Options) (summary : Summary) : Record → Except Error Unit × Summary
  | .aux field value =>
      match summary.server.update field value with
      | .error error => (.error error, summary)
      | .ok server =>
          if options.onlyServer && server.isComplete then
            (.error .cancelled, { summary with server, isSatisfied := true })
          else
            (.ok (), { summary with server })
  | .selectDb index => (.ok (), { summary with database := index })
  | .resizeDb .. => (.ok (), summary)
  | record => (.ok (), summary.addKey options record)

def receiver (options : Options) (isCancelled : Bool) : Receiver (StateM Summary) where
  take record := fun summary => summary.add options record
  finish := return .ok ()
  isCancelled := return isCancelled

def BigKey.json (big : BigKey) : Json :=
  .object
    [("key", .string big.key), ("type", .string big.typeName), ("size", .natural big.size),
      ("len", .natural big.length)]

def Tally.json (tally : Tally) : Json :=
  .object <|
    [("count", .natural tally.count), ("total_size", .natural tally.size)] ++
    (if tally.big.isEmpty then [] else [("big_keys", .array (tally.big.reverse.map BigKey.json))])

/-- Puts a number among others in ascending order, each of them once. -/
def insertNat (n : Nat) : List Nat → List Nat
  | [] => [n]
  | other :: rest =>
      if n < other then n :: other :: rest
      else if n = other then other :: rest
      else other :: insertNat n rest

def databases (summary : Summary) : List Nat :=
  summary.tallies.foldl (fun found entry => insertNat entry.1.1 found) []

def statisticsJson (summary : Summary) : Json :=
  .object (summary.databases.map fun database =>
    (Decimal.text database, .sorted (summary.tallies.filterMap fun ((place, typeName), tally) =>
      if place = database then some (typeName, tally.json) else none)))

def json (banner : String) (summary : Summary) : Json :=
  .object
    [("rdb_version", .string banner), ("redis_version", textJson summary.server.version),
      ("redis_bits", .natural summary.server.bits), ("ctime", .integer summary.server.created),
      ("used_mem", .integer summary.server.usedMemory),
      ("key_statistics", summary.statisticsJson)]

end Summary

/-- Summarises a snapshot. A scan that the summary itself ended is a success; one that was cancelled
from outside is not. -/
def Scan.summarise (options : Summary.Options) (isCancelled : Bool) (source : Source) :
    Except Error (String × Summary) :=
  let (scan, summary) := (Scan.run (Summary.receiver options isCancelled) true source).run .empty
  match scan.result with
  | .error .cancelled =>
      if summary.isSatisfied then .ok (scan.banner.getD "", summary) else .error .cancelled
  | .error error => .error error
  | .ok () => .ok (scan.banner.getD "", summary)

end RedisSnapshot
