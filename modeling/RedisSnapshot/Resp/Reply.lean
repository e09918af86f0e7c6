import RedisSnapshot.Decimal
import RedisSnapshot.Text.Quoted

/-!
# Replies of a server

A reply is a line of text, an error line, an integer, a byte string or a list of replies; a byte
string and a list can also be absent, which is not the same as empty.
-/

namespace RedisSnapshot

inductive Reply where
  | simple (line : Bytes)
  | error (line : Bytes)
  | integer (value : Int)
  | bulk (payload : Bytes)
  | array (items : List Reply)
  | nullBulk
  | nullArray
deriving Inhabited

namespace Reply

def isOk : Reply → Bool
  | simple line => line == [79, 75]
  | _ => false

def isError : Reply → Bool
  | error _ => true
  | _ => false

mutual

/-- How a message quotes a reply that was not expected. -/
def describe : Reply → String
  | simple line => "Simple(" ++ Text.quotedBytes line ++ ")"
  | error line => "Error(" ++ Text.quotedBytes line ++ ")"
  | integer value => "Integer(" ++ Decimal.intText value ++ ")"
  | bulk payload => "Bulk(Some(" ++ Text.quotedBytes payload ++ "))"
  | array items => "Array(Some([" ++ ", ".intercalate (describeEach items) ++ "]))"
  | nullBulk => "Bulk(None)"
  | nullArray => "Array(None)"

def describeEach : List Reply → List String
  | [] => []
  | item :: items => describe item :: describeEach items

end

def describeFirst : Option Reply → String
  | some reply => "Some(" ++ reply.describe ++ ")"
  | none => "None"

end Reply

end RedisSnapshot
