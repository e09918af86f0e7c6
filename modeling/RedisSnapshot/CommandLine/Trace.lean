import RedisSnapshot.Error

/-!
# Failures as they are printed

A failure is told with what was being done and, below that, with its causes. A single cause stands
under its heading as it is, several are numbered. All lines of a cause are indented alike.
-/

namespace RedisSnapshot.CommandLine

structure Trace where
  headline : String
  /-- From the nearest cause to the first one. -/
  causes : List String

namespace Trace

def ofFailure (failure : IoFailure) : Trace :=
  ⟨failure.message, []⟩

def ofError (error : Error) : Trace :=
  match error with
  | .io failure => ⟨error.message, [failure.message]⟩
  | _ => ⟨error.message, []⟩

/-- What was being done when it failed. -/
def doing (activity : String) (trace : Trace) : Trace :=
  ⟨activity, trace.headline :: trace.causes⟩

/-- Lines behind each other, the first with one margin in front of it and the rest with another. -/
def withMargins (first other text : String) : String :=
  first ++ ("\n" ++ other).intercalate (text.splitOn "\n")

/-- The margin of a numbered cause: its number ends in the fifth column. -/
def numberMargin (number : Nat) : String :=
  let digits := Decimal.text number
  String.ofList (List.replicate (5 - digits.length) ' ') ++ digits ++ ": "

def causeText (isNumbered : Bool) (cause : String × Nat) : String :=
  if isNumbered then withMargins (numberMargin cause.2) "       " cause.1
  else withMargins "    " "    " cause.1

def text (trace : Trace) : String :=
  if trace.causes.isEmpty then "Error: " ++ trace.headline
  else
    "Error: " ++ trace.headline ++ "\n\nCaused by:\n" ++
      "\n".intercalate (trace.causes.zipIdx.map (causeText (1 < trace.causes.length)))

end Trace

end RedisSnapshot.CommandLine
