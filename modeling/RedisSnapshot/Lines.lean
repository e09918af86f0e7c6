import RedisSnapshot.Record.Text
import RedisSnapshot.Snapshot

/-!
# A snapshot as lines

Every record becomes one line, which is written in two steps: its text, then the line end. The sink
may be full at any byte, and a line that it did not take as a whole is not counted.
-/

namespace RedisSnapshot

/-- Where lines go. A sink takes bytes until it has no room and then fails, after as many bytes of
the last write as it had room for. -/
structure Sink where
  /-- What was written, the latest first. -/
  chunks : List Bytes
  /-- The room that is left and the failure when it is used up; nothing for a sink that never is. -/
  room : Option (Nat × IoFailure)

namespace Sink

def unlimited : Sink :=
  ⟨[], none⟩

def limited (room : Nat) (failure : IoFailure) : Sink :=
  ⟨[], some (room, failure)⟩

def contents (sink : Sink) : Bytes :=
  sink.chunks.reverse.flatten

def write (sink : Sink) (bytes : Bytes) : Except IoFailure Unit × Sink :=
  match sink.room with
  | none => (.ok (), { sink with chunks := bytes :: sink.chunks })
  | some (room, failure) =>
      if bytes.length ≤ room then
        (.ok (), ⟨bytes :: sink.chunks, some (room - bytes.length, failure)⟩)
      else
        (.error failure, ⟨bytes.take room :: sink.chunks, some (0, failure)⟩)

end Sink

inductive LineForm where
  | json
  | labelled
deriving DecidableEq

def LineForm.line : LineForm → Record → String
  | json, record => record.jsonLine
  | labelled, record => record.labelledLine

structure LineWriter where
  sink : Sink
  lines : Nat

namespace LineWriter

def ofSink (sink : Sink) : LineWriter :=
  ⟨sink, 0⟩

def write (form : LineForm) (writer : LineWriter) (record : Record) :
    Except Error Unit × LineWriter :=
  match writer.sink.write (Text.bytes (form.line record)) with
  | (.error failure, sink) => (.error (.io failure), { writer with sink })
  | (.ok (), sink) =>
      match sink.write [10] with
      | (.error failure, sink) => (.error (.io failure), { writer with sink })
      | (.ok (), sink) => (.ok (), ⟨sink, writer.lines + 1⟩)

def receiver (form : LineForm) (isCancelled : Bool) : Receiver (StateM LineWriter) where
  take record := fun writer => writer.write form record
  finish := return .ok ()
  isCancelled := return isCancelled

end LineWriter

def Scan.writeLines (form : LineForm) (withAux isCancelled : Bool) (source : Source) (sink : Sink) :
    Scan × LineWriter :=
  (Scan.run (LineWriter.receiver form isCancelled) withAux source).run (.ofSink sink)

end RedisSnapshot
