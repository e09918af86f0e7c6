import RedisSnapshot.Binary64.Layout
import RedisSnapshot.Record
import RedisSnapshot.Resp.Command

/-!
# The commands that rebuild a record

A destination is given the commands that write a key's value, and its expiry apart from them. A
command with nothing behind its key would be refused and is not among them.
-/

namespace RedisSnapshot

structure Rebuild where
  key : Bytes
  writes : List Command
  expiry : Int

namespace Value

def scoreBytes (score : Binary64) : Bytes :=
  Text.bytes (Binary64.score.text score)

/-- The commands of a value under a key; entries of a stream that are marked as deleted may be kept.
-/
def writes (keepDeleted : Bool) (key : Bytes) : Value → List Command
  | string bytes => [.named "SET" [key, bytes]]
  | list elements => [.named "LPUSH" (key :: elements)]
  | set members => [.named "SADD" (key :: members)]
  | hash fields => [.named "HSET" (key :: fields.flatMap fun (field, value) => [field, value])]
  | sortedSet members =>
      [.named "ZADD" (key :: members.flatMap fun (member, score) => [scoreBytes score, member])]
  | stream log =>
      (log.entries.toList.filter fun (_, entry) => keepDeleted || !entry.deleted).map
        fun (id, entry) =>
          .named "XADD"
            (key :: id.bytes :: entry.fields.flatMap fun (field, value) => [field, value])

end Value

namespace Record

def rebuild? (keepDeleted : Bool) : Record → Option Rebuild
  | keyed key value =>
      some ⟨key.name, (value.writes keepDeleted key.name).filter (2 < ·.length), key.expiry⟩
  | _ => none

end Record

end RedisSnapshot
