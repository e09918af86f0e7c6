import RedisSnapshot.Load.Options
import RedisSnapshot.Record.Commands

/-!
# Batches

A batch is sent as one pipeline that begins with the selection of its database, so that it does not
depend on what the connection was used for before. Behind the writes of a key stands its expiry; a
key without writes is not there to expire.
-/

namespace RedisSnapshot.Load

def select (database : Nat) : Command :=
  .named "SELECT" [Decimal.bytes database]

/-- A moment moved by a span. Moments are words of 64 bits and do not leave their range. -/
def shiftMoment (moment span : Int) : Int :=
  max (-(Word.count 63 : Int)) (min ((Word.count 63 : Int) - 1) (moment + span))

def expire (key : Bytes) (moment : Int) : Command :=
  .named "PEXPIREAT" [key, Decimal.intBytes moment]

def delete (key : Bytes) : Command :=
  .named "DEL" [key]

/-- The commands that write a record. -/
def recordCommands (options : Options) (record : Record) : List Command :=
  match record.rebuild? options.keepDeleted with
  | none => []
  | some rebuild =>
      if !rebuild.writes.isEmpty && !options.ignoreExpiry && decide (0 < rebuild.expiry) then
        rebuild.writes ++ [expire rebuild.key (shiftMoment rebuild.expiry options.expiryShift)]
      else
        rebuild.writes

def writeCommands (options : Options) (database : Nat) (batch : List Record) : List Command :=
  select database :: batch.flatMap (recordCommands options)

def deleteCommands (database : Nat) (batch : List Record) : List Command :=
  select database :: batch.filterMap fun record => record.key?.map fun key => delete key.name

end RedisSnapshot.Load
