import RedisSnapshot.Field
import RedisSnapshot.Packed.Intset
import RedisSnapshot.Packed.Listpack
import RedisSnapshot.Packed.Ziplist
import RedisSnapshot.Packed.Zipmap
import RedisSnapshot.Record

/-!
# Decoding values

The type of a value and the way it is stored are told by one tag. A value is read as a whole before
any record of it exists, so that a value that breaks off yields none. Lists stored as a chain of
nodes yield one record for every node.
-/

namespace RedisSnapshot

namespace Stream

/-- Takes the entries of a node's listpack one by one. -/
abbrev NodeReader := StateT (List Bytes) (Except Malformed)

namespace NodeReader

def next : NodeReader Bytes := do
  match ← get with
  | [] => throw .nodeEnded
  | entry :: rest =>
      set rest
      return entry

def integer : NodeReader Int := do
  let entry ← next
  match Decimal.signed? 64 entry with
  | some value => return value
  | none => throw (.nodeInteger entry)

def count : NodeReader Nat := do
  match ← integer with
  | .ofNat value => return value
  | .negSucc _ => throw .nodeCount

/-- Runs a step so many times and keeps what it yields, in reverse behind what was kept before. -/
def timesOnto {α : Type} (step : NodeReader α) : Nat → List α → NodeReader (List α)
  | 0, found => return found
  | count + 1, found => do
      timesOnto step count ((← step) :: found)

def times {α : Type} (count : Nat) (step : NodeReader α) : NodeReader (List α) := do
  return (← timesOnto step count []).reverse

end NodeReader

open NodeReader in
def nodeField : NodeReader (Bytes × Bytes) := do
  let field ← next
  return (field, ← next)

open NodeReader in
/-- An entry has flags, its distance from the id of the node, its fields unless the flags say that
they are those of the node, its values, and the number of listpack entries that it takes. -/
def nodeEntry (master : StreamId) (masterFields : List Bytes) : NodeReader (StreamId × Entry) := do
  let flags ← integer
  let ms ← count
  let seq ← count
  let fields ←
    if flags / 2 % 2 = 1 then
      pure (masterFields.zip (← times masterFields.length next))
    else
      times (← count) nodeField
  let _ ← next
  return (master.offsetBy (.ofNat ms) (.ofNat seq), ⟨flags % 2 = 1, fields⟩)

open NodeReader in
/-- A node has the number of its entries and of its deleted entries, its own fields behind their
number, a terminator, and all the entries. -/
def nodeEntries (master : StreamId) : NodeReader (List (StreamId × Entry)) := do
  let present ← count
  let deleted ← count
  let masterFields ← times (← count) next
  let _ ← next
  let entries ← times (present + deleted) (nodeEntry master masterFields)
  if (← get).isEmpty then return entries else throw .nodeTrailing

def decodeNode (master : StreamId) (entries : List Bytes) :
    Except Fault (List (StreamId × Entry)) :=
  match (nodeEntries master).run entries with
  | .ok (decoded, _) => .ok decoded
  | .error cause => .error (.malformed cause)

end Stream

namespace Decoder

open Reader

def rawId : Decoder StreamId :=
  StreamId.ofRaw <$> take 16

def lengthId : Decoder StreamId := do
  let ms ← length
  return .ofNats ms (← length)

def streamNode : Decoder (List (StreamId × Stream.Entry)) := do
  let master ← string
  if master.length = 16 then
    let entries ← ofExcept (Packed.Listpack.decode (← string))
    ofExcept (Stream.decodeNode (.ofRaw master) entries)
  else
    malformed (.nodeId master.length)

def pendingEntry : Decoder (StreamId × Stream.Pending) := do
  let id ← rawId
  let deliveryTime ← little 8
  return (id, ⟨deliveryTime, ← length⟩)

/-- A consumer names ids that are pending for its group, which has the rest about them. -/
def consumerEntry (group : IdMap Stream.Pending) (name : Bytes) :
    Decoder (StreamId × Stream.Pending) := do
  let id ← rawId
  match group.get? id with
  | some pending => return (id, pending)
  | none => malformed (.pendingEntry name id)

/-- A field that only later forms of an encoding have. -/
def whenSome {α : Type} (present : Bool) (reader : Decoder α) : Decoder (Option α) :=
  if present then some <$> reader else return none

def streamConsumer (version : Nat) (group : IdMap Stream.Pending) : Decoder Stream.Consumer := do
  let name ← string
  let seenTime ← little 8
  let activeTime ← whenSome (3 ≤ version) (little 8)
  let pending ← times (← length) (consumerEntry group name)
  return ⟨name, seenTime, activeTime, .ofList pending⟩

def streamGroup (version : Nat) : Decoder Stream.Group := do
  let name ← string
  let lastId ← lengthId
  let entriesRead ← whenSome (2 ≤ version) length
  let pending ← .ofList <$> times (← length) pendingEntry
  let consumers ← times (← length) (streamConsumer version pending)
  return ⟨name, lastId, entriesRead, pending, consumers⟩

def stream (version : Nat) : Decoder Stream := do
  let nodes ← times (← length) streamNode
  let length' ← length
  let lastId ← lengthId
  let firstId ← whenSome (2 ≤ version) lengthId
  let maxDeletedId ← whenSome (2 ≤ version) lengthId
  let entriesAdded ← whenSome (2 ≤ version) length
  let groups ← times (← length) (streamGroup version)
  return ⟨.ofList nodes.flatten, length', lastId, firstId, maxDeletedId, entriesAdded, groups⟩

def packed {α : Type} (decode : Bytes → Except Fault α) : Decoder α := do
  ofExcept (decode (← string))

/-- A node of the second form of a chained list is one plain element or a listpack of elements. -/
def listNode : Decoder (List Bytes) := do
  let container ← length
  let blob ← string
  match container with
  | 1 => return [blob]
  | 2 => ofExcept (Packed.Listpack.decode blob)
  | _ => malformed (.quicklistContainer container)

def pair {α β : Type} (first : Decoder α) (second : Decoder β) : Decoder (α × β) := do
  let value ← first
  return (value, ← second)

def scores (pairs : List (Bytes × Bytes)) : Except Fault (List (Bytes × Binary64)) :=
  pairs.mapM fun (member, score) => return (member, ← Binary64.ofText score)

/-- The values behind a tag: one, except for a list that is stored in nodes. -/
def values (tag : UInt8) : Decoder (List Value) :=
  match tag with
  | 0 => return [.string (← string)]
  | 1 => return [.list (← times (← length) string)]
  | 2 => return [.set (← times (← length) string)]
  | 3 => return [.sortedSet (← times (← length) (pair string scoreText))]
  | 4 => return [.hash (← times (← length) (pair string string))]
  | 5 => return [.sortedSet (← times (← length) (pair string scoreBinary))]
  | 6 | 7 => malformed (.moduleValue tag)
  | 9 => return [.hash (← packed Packed.Zipmap.decode)]
  | 10 => return [.list (← packed Packed.Ziplist.decode)]
  | 11 => return [.set (← packed Packed.Intset.decode)]
  | 12 => return [.sortedSet (← ofExcept (scores (← packed Packed.Ziplist.decodePairs)))]
  | 13 => return [.hash (← packed Packed.Ziplist.decodePairs)]
  | 14 => return (← times (← length) (packed Packed.Ziplist.decode)).map .list
  | 15 => return [.stream (← stream 1)]
  | 16 => return [.hash (← packed Packed.Listpack.decodePairs)]
  | 17 => return [.sortedSet (← ofExcept (scores (← packed Packed.Listpack.decodePairs)))]
  | 18 => return (← times (← length) listNode).map .list
  | 19 => return [.stream (← stream 2)]
  | 20 => return [.set (← packed Packed.Listpack.decode)]
  | 21 => return [.stream (← stream 3)]
  | _ => do malformed (.valueTag tag (← offset))

def records (tag : UInt8) (key : Key) : Decoder (List Record) := do
  return (← values tag).map (.keyed key)

end Decoder

end RedisSnapshot
