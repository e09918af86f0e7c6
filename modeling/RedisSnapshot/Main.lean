import RedisSnapshot.CommandLine.Run
import RedisSnapshot.Handshake
import RedisSnapshot.Pace
import Std.Async.DNS
import Std.Async.TCP
import Std.Async.Timer

/-!
# The program

The host of the command line is the operating system here: its files, its sockets and its clock.
What is done with them is decided elsewhere; this is the only place where something is read or
written.
-/

namespace RedisSnapshot.Main

open Std.Async Std.Net

/-- The number of a failure, which some parts of the system give with the opposite sign. -/
def number (code : UInt32) : UInt32 :=
  if code < 0x80000000 then code else 0 - code

/-- A failure in the words of the system, with its number for it. -/
def reported (kind : IoKind) (details : String) (code : UInt32) : IoFailure :=
  .reported kind (details.capitalize ++ s!" (os error {number code})")

def ofSystem (error : IO.Error) : IoFailure :=
  match error with
  | .noFileOrDirectory _ code details => reported .notFound details code
  | .permissionDenied _ code details => reported (.other "PermissionDenied") details code
  | .inappropriateType _ code details => reported (.other "IsADirectory") details code
  | .resourceExhausted _ code details => reported .storageFull details code
  | .noSuchThing _ code details => reported .connectionRefused details code
  | .resourceVanished code details => reported .connectionReset details code
  | .timeExpired code details => reported .timedOut details code
  | error => .reported (.other "Other") (toString error)

def attempt {α : Type} (action : IO α) : IO (Except IoFailure α) := do
  try
    return .ok (← action)
  catch error =>
    return .error (ofSystem error)

structure Connection where
  socket : TCP.Socket.Client
  /-- What has arrived and was not yet made use of. -/
  received : IO.Ref Bytes
  patience : Nat

namespace Connection

/-- Milliseconds until a destination's replies are given up. -/
def defaultPatience : Nat := 5000

/-- All addresses of a host, which is told by number or by name. -/
def resolve (address : Address) : IO (List SocketAddress) := do
  let port := UInt16.ofNat address.port
  let host := String.ofList (address.host.toList.filter fun char => char ≠ '[' ∧ char ≠ ']')
  let addresses ←
    match IPv4Addr.ofString host, IPv6Addr.ofString host with
    | some number, _ => pure [IPAddr.v4 number]
    | none, some number => pure [IPAddr.v6 number]
    | none, none => return (← (DNS.getAddrInfo host "" none).block).toList.map (socketAddress port)
  return addresses.map (socketAddress port)
where
  socketAddress (port : UInt16) : IPAddr → SocketAddress
    | .v4 number => .v4 ⟨number, port⟩
    | .v6 number => .v6 ⟨number, port⟩

def openAt (patience : Nat) (address : SocketAddress) : IO Connection := do
  let socket ← TCP.Socket.Client.mk
  (socket.connect address).block
  socket.noDelay
  return ⟨socket, ← IO.mkRef [], patience⟩

def openFirst (patience : Nat) (failure : IO.Error) : List SocketAddress → IO Connection
  | [] => throw failure
  | address :: addresses => do
      try
        openAt patience address
      catch error =>
        openFirst patience error addresses

def dial (patience : Nat) (address : Address) : IO (Except IoFailure Connection) :=
  attempt do
    openFirst patience (.userError (address.host ++ " did not resolve to any address"))
      (← resolve address)

def send (connection : Connection) (bytes : Bytes) : IO (Except IoFailure Unit) :=
  attempt (connection.socket.send ⟨bytes.toArray⟩).block

/-- One read, which is given up when it takes too long. -/
def receive (connection : Connection) : IO Arrival := do
  let arrival ← attempt <| Async.block do
    let deadline ← Selector.sleep (.ofNat connection.patience)
    Selectable.one
      #[.case (connection.socket.recvSelector Peer.readSize.toUInt64) fun
          | some content => pure (Arrival.bytes content.toList)
          | none => pure (.ceased none),
        .case deadline fun _ => pure (.ceased (some .deadline))]
  match arrival with
  | .ok arrival => return arrival
  | .error failure => return .ceased (some failure)

partial def await (connection : Connection) (wanted : Nat) (replies : List Reply)
    (received : Bytes) : IO (Except Error (List Reply)) := do
  match Client.collect wanted replies received with
  | .settled result received =>
      connection.received.set received
      return result
  | .waiting replies received =>
      match ← connection.receive with
      | .bytes content => connection.await wanted replies (received ++ content)
      | .ceased failure =>
          connection.received.set received
          return .error (Client.lost failure)

def exchange (connection : Connection) (commands : List Command) :
    IO (Except Error (List Reply)) := do
  match ← connection.send (commands.flatMap Command.encode) with
  | .error failure => return .error (.io failure.normalised)
  | .ok () => connection.await commands.length [] (← connection.received.get)

/-- Reads a line and keeps what has arrived behind it. -/
partial def readLine (connection : Connection) (read : Bytes) : IO (Except Error Bytes) := do
  match Handshake.scanLine read (← connection.received.get) with
  | .complete line rest =>
      connection.received.set rest
      return .ok line
  | .tooLong rest =>
      connection.received.set rest
      return .error (.protocol .lineLength)
  | .begun read =>
      match ← connection.receive with
      | .bytes content =>
          connection.received.set content
          connection.readLine read
      | .ceased failure =>
          connection.received.set []
          return .error (Handshake.lost failure)

/-- Reads until so many bytes are there or nothing comes any more. -/
partial def readPayload (connection : Connection) (read : List Bytes) (count length : Nat) :
    IO Payload := do
  if length ≤ count then return ⟨.ofBytes read.reverse.flatten, length⟩
  else
    match ← connection.receive with
    | .bytes content =>
        connection.readPayload (content :: read) (count + content.length) length
    | .ceased failure =>
        return ⟨⟨read.reverse.flatten, failure.map IoFailure.normalised, none⟩, length⟩

def sync (connection : Connection) (credentials : Credentials) : IO (Except Error Payload) := do
  let send (command : Command) : IO (Except Error Unit) := do
    return (← connection.send command.encode).mapError fun failure => .io failure.normalised
  match ← Handshake.run send (connection.readLine []) credentials with
  | .error error => return .error error
  | .ok length =>
      let received ← connection.received.get
      return .ok (← connection.readPayload [received] received.length length)

end Connection

structure Open where
  files : IO.Ref (List (String × IO.FS.Handle))
  connections : IO.Ref (List (Nat × Connection))
  pace : IO.Ref (Option Pace)

def Open.host (opened : Open) : CommandLine.Host IO where
  openFile path := attempt do
    let handle ← IO.FS.Handle.mk path .read
    opened.files.modify ((path, handle) :: ·)
  contents path := do
    match (← opened.files.get).lookup path with
    | none => return .ofBytes []
    | some handle =>
        match ← attempt handle.readBinToEnd with
        | .ok content => return .ofBytes content.toList
        | .error failure => return ⟨[], some failure, none⟩
  createFile path := attempt do
    let handle ← IO.FS.Handle.mk path .write
    opened.files.modify ((path, handle) :: ·)
  write path content := attempt do
    let bytes : ByteArray := ⟨content.toArray⟩
    match path with
    | none =>
        let output ← IO.getStdout
        output.write bytes
        output.flush
    | some path =>
        match (← opened.files.get).lookup path with
        | none => pure ()
        | some handle =>
            handle.write bytes
            handle.flush
  sync origin address := do
    if origin.encrypted then
      return .error (.io <|
        .reported (.other "Unsupported") "encrypted connections are not supported")
    match ← Connection.dial (1000 * origin.patience) address with
    | .error failure => return .error (.io failure)
    | .ok connection => connection.sync origin.credentials
  dial worker address := do
    match ← Connection.dial Connection.defaultPatience address with
    | .error failure => return .error failure
    | .ok connection =>
        opened.connections.modify ((worker, connection) :: ·)
        return .ok ()
  exchange worker commands := do
    match (← opened.connections.get).lookup worker with
    | none => return .error (Client.lost none)
    | some connection => connection.exchange commands
  pause rate := do
    let now ← IO.monoNanosNow
    let pace? := (← opened.pace.get).or (Pace.ofRate? rate now)
    match pace? with
    | none => return ()
    | some pace =>
        match pace.acquire false now with
        | (.ok moment, pace) =>
            opened.pace.set (some pace)
            IO.sleep (UInt32.ofNat ((moment - now + Pace.interval - 1) / Pace.interval))
        | (.error _, _) => return ()

end RedisSnapshot.Main

def main (arguments : List String) : IO UInt32 := do
  let opened : RedisSnapshot.Main.Open :=
    ⟨← IO.mkRef [], ← IO.mkRef [], ← IO.mkRef none⟩
  let (code, complaint) ← RedisSnapshot.CommandLine.run opened.host arguments
  match complaint with
  | some complaint => IO.eprintln complaint
  | none => pure ()
  return UInt32.ofNat code
