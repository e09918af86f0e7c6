import RedisSnapshot.Resp.Reply

/-!
# What is sent: commands, and replies of a server

A command is an array of byte strings. Every length stands in front of what it counts, so that no
content of an argument can end it early.
-/

namespace RedisSnapshot

/-- A command's name and its arguments. -/
abbrev Command := List Bytes

namespace Resp

def lineEnd : Bytes := [13, 10]

/-- A mark, a line of bytes and its end. -/
def line (mark : UInt8) (content : Bytes) : Bytes :=
  mark :: content ++ lineEnd

def encodeBulk (payload : Bytes) : Bytes :=
  line 36 (Decimal.bytes payload.length) ++ payload ++ lineEnd

end Resp

namespace Command

open Resp

def encode (command : Command) : Bytes :=
  line 42 (Decimal.bytes command.length) ++ command.flatMap encodeBulk

/-- Puts a command behind what a buffer has, one argument after another. -/
def put (buffer : Bytes) (command : Command) : Bytes :=
  command.foldl (fun buffer argument => buffer ++ encodeBulk argument)
    (buffer ++ line 42 (Decimal.bytes command.length))

def named (name : String) (arguments : List Bytes) : Command :=
  Text.bytes name :: arguments

end Command

namespace Reply

open Resp

mutual

def encode : Reply → Bytes
  | simple content => line 43 content
  | error content => line 45 content
  | integer value => line 58 (Decimal.intBytes value)
  | bulk payload => encodeBulk payload
  | array items => line 42 (Decimal.bytes items.length) ++ encodeEach items
  | nullBulk => line 36 [45, 49]
  | nullArray => line 42 [45, 49]

def encodeEach : List Reply → Bytes
  | [] => []
  | item :: items => encode item ++ encodeEach items

end

end Reply

end RedisSnapshot
