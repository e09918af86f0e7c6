import RedisSnapshot.Resp.Reply
import RedisSnapshot.StreamId

/-!
# What can go wrong

Errors are causes. A snapshot can be malformed, a stream or connection can fail, a server can answer
the handshake or a write with something that is not an agreement, and a run can be cancelled or
stopped. The wording of every cause stands in one place, and only the wording names them in prose.
-/

namespace RedisSnapshot

/-- What a snapshot, or a packed container inside one, does wrong. -/
inductive Malformed where
  | magic
  | versionDigits (digits : Bytes)
  | unsupportedVersion (version : Nat)
  | moduleAux (offset : Nat)
  | moduleValue (tag : UInt8)
  | valueTag (tag : UInt8) (offset : Nat)
  | lengthForm (byte : UInt8) (offset : Nat)
  | literalForLength (offset : Nat)
  | literalKind (kind : Nat) (offset : Nat)
  | scoreEncoding
  | scoreText (text : String)
  | blobByte (position : Nat)
  | blobSpan (needed position remaining : Nat)
  | lzfLiteralPastEnd
  | lzfBeyondLength
  | lzfExtension
  | lzfReference
  | lzfDistance
  | lzfLength (found expected : Nat)
  | ziplistEnded (found declared : Nat)
  | ziplistEndMark (found : UInt8)
  | ziplistEntry (encoding : UInt8)
  | listpackEntry (encoding : UInt8)
  | listpackCount (declared found : Nat)
  | zipmapEnded
  | zipmapCount (declared found : Nat)
  | intsetWidth (width : Nat)
  | intsetMembers (declared width remaining : Nat)
  | oddEntries (found : Nat)
  | quicklistContainer (container : Nat)
  | nodeId (length : Nat)
  | nodeEnded
  | nodeInteger (found : Bytes)
  | nodeCount
  | nodeTrailing
  | pendingEntry (consumer : Bytes) (id : StreamId)
  | auxNumber (field : String) (value : Bytes)
deriving DecidableEq

namespace Malformed

def message : Malformed → String
  | magic => "bad magic, not an RDB stream"
  | versionDigits digits => "bad version digits " ++ Text.quoted (Text.lossy digits)
  | unsupportedVersion version => s!"unsupported rdb version {version}"
  | moduleAux offset => s!"module aux data at offset {offset} is not supported"
  | moduleValue tag => s!"module value type {tag} is not supported"
  | valueTag tag offset => s!"unknown value type {tag} at offset {offset}"
  | lengthForm byte offset =>
      "unknown length encoding 0x" ++ Text.hexByte byte ++ s!" at offset {offset}"
  | literalForLength offset => s!"expected a length, found an encoded literal at offset {offset}"
  | literalKind kind offset => s!"unknown string encoding {kind} at offset {offset}"
  | scoreEncoding => "score is not valid utf-8"
  | scoreText text => "invalid score " ++ Text.quoted text
  | blobByte position => s!"blob truncated at byte {position}"
  | blobSpan needed position remaining =>
      s!"blob truncated: need {needed} bytes at {position}, have {remaining}"
  | lzfLiteralPastEnd => "lzf: literal run past end of input"
  | lzfBeyondLength => "lzf: output exceeds declared length"
  | lzfExtension => "lzf: truncated extended length"
  | lzfReference => "lzf: truncated back reference"
  | lzfDistance => "lzf: back reference out of range"
  | lzfLength found expected => s!"lzf: decompressed {found} bytes, expected {expected}"
  | ziplistEnded found declared => s!"ziplist ended after {found} of {declared} entries"
  | ziplistEndMark found => "ziplist missing end marker, found 0x" ++ Text.hexByte found
  | ziplistEntry encoding => "unknown ziplist encoding 0x" ++ Text.hexByte encoding
  | listpackEntry encoding => "unknown listpack encoding 0x" ++ Text.hexByte encoding
  | listpackCount declared found => s!"listpack declares {declared} entries, found {found}"
  | zipmapEnded => "zipmap ended between field and value"
  | zipmapCount declared found => s!"zipmap declares {declared} pairs, found {found}"
  | intsetWidth width => s!"unknown intset encoding {width}"
  | intsetMembers declared width remaining =>
      s!"intset declares {declared} members of {width} bytes, blob holds {remaining}"
  | oddEntries found => s!"expected an even number of entries, found {found}"
  | quicklistContainer container => s!"unknown quicklist container {container}"
  | nodeId length => s!"stream node id must be 16 bytes, got {length}"
  | nodeEnded => "stream listpack ended early"
  | nodeInteger found =>
      "expected an integer in stream listpack, found " ++ Text.quoted (Text.lossy found)
  | nodeCount => "negative count in stream listpack"
  | nodeTrailing => "trailing entries in stream listpack"
  | pendingEntry consumer id =>
      "consumer " ++ Text.lossy consumer ++ " references pending entry " ++ id.text ++
        " missing from the group PEL"
  | auxNumber field value =>
      "aux field " ++ field ++ " is not a number: " ++ Text.quoted (Text.lossy value)

end Malformed

inductive IoKind where
  | unexpectedEnd
  | timedOut
  | wouldBlock
  | connectionRefused
  | connectionReset
  | storageFull
  | invalidInput
  | notFound
  | other (name : String)
deriving DecidableEq

inductive IoFailure where
  | streamEnded (offset : Nat)
  | payloadEnded (outstanding : Nat)
  | destinationClosed
  | handshakeClosed
  | deadline
  | socketAddress
  | portNumber
  | reported (kind : IoKind) (text : String)
deriving DecidableEq

namespace IoFailure

def kind : IoFailure → IoKind
  | streamEnded _ | payloadEnded _ | destinationClosed | handshakeClosed => .unexpectedEnd
  | deadline => .timedOut
  | socketAddress | portNumber => .invalidInput
  | reported kind _ => kind

def message : IoFailure → String
  | streamEnded offset => s!"stream ended early at offset {offset}"
  | payloadEnded outstanding => s!"source closed with {outstanding} payload bytes outstanding"
  | destinationClosed => "destination closed the connection"
  | handshakeClosed => "source closed the connection during the handshake"
  | deadline => "deadline exceeded"
  | socketAddress => "invalid socket address"
  | portNumber => "invalid port value"
  | reported _ text => text

/-- A socket may report an expired deadline as a read that would block. -/
def normalised (failure : IoFailure) : IoFailure :=
  if failure.kind = .wouldBlock then .deadline else failure

end IoFailure

/-- An answer that the protocol of replies, or the handshake, does not allow. -/
inductive ProtocolFault where
  | replyType (byte : UInt8)
  | overflow
  | digits
  | lineEnd
  | bulkEnd
  | authentication (line : Bytes)
  | syncRefused (line : Bytes)
  | syncReply (line : Bytes)
  | emptySnapshot (length : Int)
  | lineLength
deriving DecidableEq

namespace ProtocolFault

def message : ProtocolFault → String
  | replyType byte => "unexpected reply type byte 0x" ++ Text.hexByte byte
  | overflow => "integer overflow in reply"
  | digits => "expected digits"
  | lineEnd => "expected CRLF"
  | bulkEnd => "bulk string not terminated by CRLF"
  | authentication line => "auth failed: " ++ Text.lossy line
  | syncRefused line => "source refused SYNC: " ++ Text.lossy line
  | syncReply line => "unexpected SYNC reply " ++ Text.quoted (Text.lossy line)
  | emptySnapshot length =>
      "source announced an empty snapshot (" ++ Decimal.intText length ++ ")"
  | lineLength => "handshake reply line too long"

end ProtocolFault

/-- What a destination refuses, or answers instead of what was asked. -/
inductive DestinationFault where
  | refused (line : Bytes)
  | replyCount (expected found : Nat)
  | pingReply (found : Option Reply)
  | authRefused (address : String) (line : Bytes)
  | authReply (address : String) (found : Option Reply)
  | noAddress
  | workerDied

namespace DestinationFault

def message : DestinationFault → String
  | refused line => Text.lossy line
  | replyCount expected found => s!"expected {expected} replies, got {found}"
  | pingReply found => "unexpected PING reply " ++ Reply.describeFirst found
  | authRefused address line => "auth rejected by " ++ address ++ ": " ++ Text.lossy line
  | authReply address found =>
      "unexpected AUTH reply from " ++ address ++ ": " ++ Reply.describeFirst found
  | noAddress => "no destination address"
  | workerDied => "loader worker panicked"

end DestinationFault

inductive Error where
  | format (cause : Malformed)
  | io (failure : IoFailure)
  | protocol (fault : ProtocolFault)
  | destination (fault : DestinationFault)
  | cancelled
  | stopped
  /-- A declared length that no memory can hold. Nothing is left to answer: the program ends. -/
  | beyondMemory (length : Nat)

namespace Error

def message : Error → String
  | format cause => "format error: " ++ cause.message
  | io failure => "io error: " ++ failure.message
  | protocol fault => "protocol error: " ++ fault.message
  | destination fault => "destination error: " ++ fault.message
  | cancelled => "context ended"
  | stopped => "loader stopped after a worker failure"
  | beyondMemory _ => "capacity overflow"

/-- Whether trying again may help: a stream may recover and a destination may change its mind, but
what was malformed stays so. -/
def isRetryable : Error → Bool
  | io _ | destination _ => true
  | _ => false

def isCancelled : Error → Bool
  | cancelled => true
  | _ => false

end Error

/-- The reply itself, unless it is an error line, which stands for an error of the destination. -/
def Reply.result : Reply → Except Error Reply
  | .error line => .error (.destination (.refused line))
  | reply => .ok reply

end RedisSnapshot
