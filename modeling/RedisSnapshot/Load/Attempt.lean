import RedisSnapshot.Error
import RedisSnapshot.Load.Batch

/-!
# Sending a batch

A pipeline has succeeded if every command was answered and none of the answers is an error. One that
has failed is sent again, several times if need be. When that is of no use the keys of the batch are
deleted, lest a part of one stays; a load goes on behind that as if nothing had happened.
-/

namespace RedisSnapshot.Load

inductive Execution where
  | answered (replies : List Reply)
  | failed (error : Error)
  /-- The worker who sent it died of it. -/
  | died

inductive Delivered where
  | done
  | failed (error : Error)
  | died

def judge (commands : List Command) : Execution → Delivered
  | .answered replies =>
      if replies.length = commands.length then
        match replies.mapM Reply.result with
        | .ok _ => .done
        | .error error => .failed error
      else
        .failed (.destination (.replyCount commands.length replies.length))
  | .failed error => .failed error
  | .died => .died

variable {m : Type → Type} [Monad m]

/-- Sends a pipeline until it succeeds, but only so many times again. -/
def attempt (send : List Command → m Execution) (commands : List Command) :
    (retries : Nat) → m Delivered
  | 0 => return judge commands (← send commands)
  | retries + 1 => do
      match judge commands (← send commands) with
      | .failed _ => attempt send commands retries
      | delivered => return delivered

/-- Writes a batch, or else deletes its keys. -/
def deliver (options : Options) (send : List Command → m Execution) (database : Nat)
    (batch : List Record) : m Delivered := do
  if batch.isEmpty then
    return .done
  else if options.deleteOnly then
    attempt send (deleteCommands database batch) options.retries
  else
    match ← attempt send (writeCommands options database batch) options.retries with
    | .failed _ => attempt send (deleteCommands database batch) options.retries
    | delivered => return delivered

end RedisSnapshot.Load
