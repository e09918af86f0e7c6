import RedisSnapshot.Binary64.Basic
import RedisSnapshot.Stream

/-!
# Records

What a snapshot consists of once it is decoded: keys with their values, and a few records about the
snapshot itself. A list that is stored in several nodes yields one record for each node.
-/

namespace RedisSnapshot

structure Key where
  name : Bytes
  /-- The moment of expiry in milliseconds of Unix time; a key without one has zero. -/
  expiry : Int
deriving DecidableEq

def Key.expires (key : Key) : Bool :=
  0 < key.expiry

inductive Value where
  | string (bytes : Bytes)
  | list (elements : List Bytes)
  | set (members : List Bytes)
  | hash (fields : List (Bytes × Bytes))
  | sortedSet (members : List (Bytes × Binary64))
  | stream (stream : Stream)

namespace Value

def typeName : Value → String
  | string _ => "String"
  | list _ => "List"
  | set _ => "Set"
  | hash _ => "Hash"
  | sortedSet _ => "SortedSet"
  | stream _ => "Stream"

/-- The number of elements; for a string, of bytes. -/
def length : Value → Nat
  | string bytes => bytes.length
  | list elements => elements.length
  | set members => members.length
  | hash fields => fields.length
  | sortedSet members => members.length
  | stream log => log.entries.size

/-- All names and values in it, which leaves out scores, ids and everything else about the value. -/
def payload : Value → List Bytes
  | string bytes => [bytes]
  | list elements => elements
  | set members => members
  | hash fields => fields.flatMap fun (field, value) => [field, value]
  | sortedSet members => members.map Prod.fst
  | stream log =>
      log.entries.toList.flatMap fun (_, entry) =>
        entry.fields.flatMap fun (field, value) => [field, value]

def size (value : Value) : Nat :=
  value.payload.flatten.length

end Value

inductive Record where
  | keyed (key : Key) (value : Value)
  | selectDb (index : Nat)
  | resizeDb (keys expiring : Nat)
  | aux (field value : Bytes)

namespace Record

def typeName : Record → String
  | keyed _ value => value.typeName
  | selectDb _ => "SelectDB"
  | resizeDb .. => "ResizeDB"
  | aux .. => "AuxField"

def key? : Record → Option Key
  | keyed key _ => some key
  | _ => none

def isControl (record : Record) : Bool :=
  record.key?.isNone

def expiry (record : Record) : Int :=
  (record.key?.map Key.expiry).getD 0

def length : Record → Nat
  | keyed _ value => value.length
  | _ => 0

def size : Record → Nat
  | keyed _ value => value.size
  | _ => 0

end Record

end RedisSnapshot
