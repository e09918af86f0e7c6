import RedisSnapshot.Error

/-!
# Addresses

A server is told as a host and a port with a colon between them. A host may hold colons of its own,
so the port stands behind the last one.
-/

namespace RedisSnapshot

structure Address where
  host : String
  port : Nat
  port_lt : port < Word.count 16
deriving DecidableEq

namespace Address

/-- The characters in front of the last colon, and those behind it. -/
def splitLast (text : List Char) : Option (List Char × List Char) :=
  match text.reverse.span (· ≠ ':') with
  | (behind, _ :: front) => some (front.reverse, behind.reverse)
  | (_, []) => none

def parse (text : String) : Except IoFailure Address :=
  match splitLast text.toList with
  | none => .error .socketAddress
  | some (host, digits) =>
      match Decimal.unsigned? (Word.count 16) (Text.bytes (String.ofList digits)) with
      | none => .error .portNumber
      | some port =>
          if h : port < Word.count 16 then .ok ⟨String.ofList host, port, h⟩ else .error .portNumber

end Address

end RedisSnapshot
