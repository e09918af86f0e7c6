import RedisSnapshot.Json
import RedisSnapshot.Record
import RedisSnapshot.Text.Utf8

/-!
# Records as lines of text

A record is shown as a JSON document or as one line of labelled parts. Names and values are
arbitrary bytes and are shown as text, so that what is not UTF-8 in them is replaced.
-/

namespace RedisSnapshot

open Json (natural sorted)

def textJson (bytes : Bytes) : Json :=
  .string (Text.lossy bytes)

namespace Stream

def pendingJson (pending : IdMap Pending) : Json :=
  sorted (pending.toList.map fun (id, entry) =>
    (id.text, sorted
      [("deliveryTime", natural entry.deliveryTime),
        ("deliveryCount", natural entry.deliveryCount)]))

/-- A member that is there only if its value is. -/
def member? {α : Type} (name : String) (toJson : α → Json) : Option α → List (String × Json)
  | some value => [(name, toJson value)]
  | none => []

def Entry.json (entry : Entry) : Json :=
  sorted
    [("deleted", .bool entry.deleted),
      ("fields", sorted (entry.fields.map fun (field, value) =>
        (Text.lossy field, textJson value)))]

def Consumer.json (consumer : Consumer) : Json :=
  sorted <|
    [("consumerName", textJson consumer.name), ("seenTime", natural consumer.seenTime),
      ("pending", pendingJson consumer.pending)] ++
    member? "activeTime" natural consumer.activeTime

def Group.json (group : Group) : Json :=
  sorted <|
    [("groupName", textJson group.name), ("lastId", .string group.lastId.text),
      ("pending", pendingJson group.pending),
      ("consumers", .array (group.consumers.map Consumer.json))] ++
    member? "entriesRead" natural group.entriesRead

def json (stream : Stream) : Json :=
  sorted <|
    [("LastId", .string stream.lastId.text), ("Length", natural stream.length)] ++
    member? "FirstId" (.string ·.text) stream.firstId ++
    member? "MaxDeletedId" (.string ·.text) stream.maxDeletedId ++
    member? "EntriesAdded" natural stream.entriesAdded ++
    (if stream.entries.newestFirst.isEmpty then [] else
      [("Entries", sorted (stream.entries.toList.map fun (id, entry) => (id.text, entry.json)))]) ++
    (if stream.groups.isEmpty then [] else
      [("groups", .array (stream.groups.map Group.json))])

end Stream

namespace Value

def json : Value → Json
  | string bytes => textJson bytes
  | list elements => .array (elements.map textJson)
  | set members => .array (members.map textJson)
  | hash fields =>
      .array (fields.map fun (field, value) =>
        sorted [("field", textJson field), ("value", textJson value)])
  | sortedSet members =>
      .array (members.map fun (member, score) =>
        sorted [("field", textJson member), ("score", .number score)])
  | stream log => log.json

/-- Elements of a list or a set stand side by side; pairs and entries need a document. -/
def text : Value → String
  | string bytes => Text.lossy bytes
  | list elements => ",".intercalate (elements.map Text.lossy)
  | set members => ",".intercalate (members.map Text.lossy)
  | value => value.json.text

end Value

namespace Record

/-- What a record is about: its key, or a label for a record that has none. -/
def title : Record → String
  | keyed key _ => Text.lossy key.name
  | selectDb _ => "select"
  | resizeDb .. => "resize db"
  | aux field _ => Text.lossy field

def valueText : Record → String
  | keyed _ value => value.text
  | selectDb index => Decimal.text index
  | resizeDb keys expiring =>
      "\x7bDBSize: " ++ Decimal.text keys ++ ", ExpireSize: " ++ Decimal.text expiring ++ "\x7d"
  | aux _ value => Text.lossy value

def json : Record → Json
  | keyed key value =>
      .object <|
        [("type", .string value.typeName), ("key", textJson key.name), ("value", value.json)] ++
        (if key.expires then [("expire", .integer key.expiry)] else [])
  | selectDb index => .object [("Index", natural index)]
  | resizeDb keys expiring => .object [("DBSize", natural keys), ("ExpireSize", natural expiring)]
  | aux field value =>
      .object [("type", .string "AuxField"), ("key", textJson field), ("value", textJson value)]

def jsonLine (record : Record) : String :=
  record.json.text

def labelledLine (record : Record) : String :=
  match record with
  | keyed key value =>
      "type:" ++ value.typeName ++ "|key:" ++ record.title ++ "|value:" ++ record.valueText ++
        "|expire:" ++ Decimal.intText key.expiry
  | _ => "info " ++ record.title ++ ":" ++ record.valueText

end Record

end RedisSnapshot
