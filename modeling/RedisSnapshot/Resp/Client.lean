import RedisSnapshot.Error
import RedisSnapshot.Resp.Incoming

/-!
# A client's side of a connection

A client sends its commands together and then waits for as many replies. What it has received and
not yet taken replies from stays with it, from one batch to the next. Waiting is told as single
steps, each of which is one read of the connection, so that it does not matter here who does the
reading.
-/

namespace RedisSnapshot

/-- What a client makes itself known with. A password that is empty is as good as none, and so is a
user's name. -/
structure Credentials where
  user : Option String
  password : Option String

namespace Credentials

def none : Credentials :=
  ⟨.none, .none⟩

/-- The command that a connection has to begin with, if any. -/
def command? (credentials : Credentials) : Option Command :=
  (credentials.password.filter (!·.isEmpty)).map fun password =>
    .named "AUTH" <|
      ((credentials.user.filter (!·.isEmpty)).map Text.bytes).toList ++ [Text.bytes password]

end Credentials

/-- What one read of a connection brings: bytes, or that there are none any more, because of a
failure or because the far end has closed its side. -/
inductive Arrival where
  | bytes (content : Bytes)
  | ceased (failure : Option IoFailure)

namespace Client

/-- How far a client is with the replies to a batch. -/
inductive Progress where
  | waiting (replies : List Reply) (received : Bytes)
  | settled (result : Except Error (List Reply)) (received : Bytes)

/-- Takes all replies out of what was received. There can be more of them than were waited for. -/
def collect (wanted : Nat) (replies : List Reply) (received : Bytes) : Progress :=
  let arrived := Reply.parseAll received
  match arrived.fault with
  | some fault => .settled (.error (.protocol fault)) arrived.rest
  | none =>
      let replies := replies ++ arrived.replies
      if wanted ≤ replies.length then .settled (.ok replies) arrived.rest
      else .waiting replies arrived.rest

/-- Why there will be no further replies. Those that were waiting for others are lost too. -/
def lost (failure : Option IoFailure) : Error :=
  .io (failure.elim .destinationClosed IoFailure.normalised)

def ping : Command :=
  .named "PING" []

def checkPing (replies : List Reply) : Except Error Unit :=
  match replies.head? with
  | some (.simple line) =>
      if line = Text.bytes "PONG" then .ok ()
      else .error (.destination (.pingReply (some (.simple line))))
  | some (.error line) => .error (.destination (.refused line))
  | other => .error (.destination (.pingReply other))

def checkAuthentication (address : String) (replies : List Reply) : Except Error Unit :=
  match replies.head? with
  | some (.error line) => .error (.destination (.authRefused address line))
  | some reply =>
      if reply.isOk then .ok () else .error (.destination (.authReply address (some reply)))
  | none => .error (.destination (.authReply address none))

def authenticate {m : Type → Type} [Monad m]
    (exchange : List Command → m (Except Error (List Reply))) (address : String)
    (credentials : Credentials) : m (Except Error Unit) := do
  match credentials.command? with
  | none => return .ok ()
  | some command => return (← exchange [command]) >>= checkAuthentication address

end Client

/-- The destinations that workers spread over, each with the same credentials. -/
structure Connector where
  addresses : List String
  credentials : Credentials

namespace Connector

def address (connector : Connector) (worker : Nat) : Except Error String :=
  match connector.addresses[worker % connector.addresses.length]? with
  | some address => .ok address
  | none => .error (.destination .noAddress)

end Connector

end RedisSnapshot
