import RedisSnapshot.Peer

/-!
# The handshake with a source

A server hands its snapshot to whoever asks for it as a replica does: a password if it wants one,
then SYNC. It answers each with a line; the second one tells how many bytes of snapshot follow.
While the snapshot is being prepared the server sends bare line feeds, which are not lines. Nothing
behind a line is read with it, since the snapshot begins there.
-/

namespace RedisSnapshot.Handshake

/-- The most bytes of a line, in front of its line feed. -/
def lineLimit : Nat := 1024

/-- What is known of a line after some bytes. -/
inductive LineScan where
  | complete (line rest : Bytes)
  | tooLong (rest : Bytes)
  /-- The line goes on; its bytes so far stand in reverse. -/
  | begun (read : Bytes)

/-- Reads a line on, of which some bytes were read before and stand in reverse. -/
def scanLine (read : Bytes) : Bytes → LineScan
  | [] => .begun read
  | byte :: rest =>
      if byte = 10 ∧ read = [] then scanLine read rest
      else if byte = 10 ∧ read.head? = some 13 then .complete read.tail.reverse rest
      else if lineLimit < read.length + 1 then .tooLong rest
      else scanLine (byte :: read) rest

/-- The error of a connection that ends inside a line. -/
def lost (failure : Option IoFailure) : Error :=
  .io (failure.elim .handshakeClosed IoFailure.normalised)

def payloadLength (line : Bytes) : Except Error Nat :=
  match line with
  | 45 :: refusal => .error (.protocol (.syncRefused refusal))
  | 36 :: digits =>
      match Decimal.signed? 64 digits with
      | some length =>
          if 0 < length then .ok length.toNat else .error (.protocol (.emptySnapshot length))
      | none => .error (.protocol (.syncReply line))
  | _ => .error (.protocol (.syncReply line))

variable {m : Type → Type} [Monad m]

/-- Makes the replica known, over a connection that commands are sent to and lines are read from. -/
def authenticate (send : Command → m (Except Error Unit)) (readLine : m (Except Error Bytes))
    (credentials : Credentials) : m (Except Error Unit) := do
  match credentials.command? with
  | none => return .ok ()
  | some command =>
      match ← send command with
      | .error error => return .error error
      | .ok () =>
          match ← readLine with
          | .error error => return .error error
          | .ok line =>
              if line = Text.bytes "+OK" then return .ok ()
              else return .error (.protocol (.authentication line))

def run (send : Command → m (Except Error Unit)) (readLine : m (Except Error Bytes))
    (credentials : Credentials) : m (Except Error Nat) := do
  match ← authenticate send readLine credentials with
  | .error error => return .error error
  | .ok () =>
      match ← send (.named "SYNC" []) with
      | .error error => return .error error
      | .ok () => return (← readLine) >>= payloadLength

end Handshake

namespace Peer

/-- Reads a line on through the deliveries that have come. -/
def lineFrom (due : Delivery → Bool) (holds : Bool) (read : Bytes) :
    List Delivery → Except Error Bytes × List Delivery
  | [] => (.error (Handshake.lost (if holds then some .deadline else none)), [])
  | delivery :: rest =>
      if !due delivery then (.error (Handshake.lost (some .deadline)), delivery :: rest)
      else
        match Handshake.scanLine read delivery.content with
        | .complete line behind => (.ok line, { delivery with content := behind } :: rest)
        | .tooLong behind =>
            (.error (.protocol .lineLength), { delivery with content := behind } :: rest)
        | .begun read => lineFrom due holds read rest

def readLine : StateM Peer (Except Error Bytes) := fun peer =>
  let (line, deliveries) := lineFrom peer.isDue peer.holds [] peer.deliveries
  (line, { peer with deliveries })

def send (command : Command) : StateM Peer (Except Error Unit) := fun peer =>
  (.ok (), peer.hear [command])

/-- The snapshot that a peer hands over, with its announced length, or why it does not. -/
def sync (credentials : Credentials) : StateM Peer (Except Error Payload) := do
  match ← Handshake.run send readLine credentials with
  | .error error => return .error error
  | .ok length => return .ok ⟨(← get).source, length⟩

end Peer

end RedisSnapshot
