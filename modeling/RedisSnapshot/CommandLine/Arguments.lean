import RedisSnapshot.Load.Options
import RedisSnapshot.Lines
import RedisSnapshot.Resp.Client

/-!
# Arguments of the command line

The first argument is an action. The others are settings by name, each of which stands alone or has
a value, either behind an equals sign or in the next argument. A setting may be given once, unless
it is one that gathers values, and a value is judged where it stands, so that a request for help is
heard exactly if nothing in front of it is wrong.
-/

namespace RedisSnapshot.CommandLine

inductive OutputForm where
  | lines (form : LineForm)
  | raw

structure Output where
  form : OutputForm
  /-- The file that is written; without one, standard output. -/
  path : Option String

structure Origin where
  address : String
  credentials : Credentials
  /-- Seconds until a read is given up. -/
  patience : Nat
  encrypted : Bool

structure Target where
  connector : Connector
  options : Load.Options

inductive Action where
  | parse (rdb : String) (output : Output) (withAux : Bool)
  | dump (origin : Origin) (output : Output)
  | load (rdb : String) (target : Target)
  | trans (origin : Origin) (target : Target)
  | info (rdb : String) (statistics bigKeys : Bool) (bigSize bigLength : Nat)

inductive Request where
  | act (action : Action)
  | version
  | help

structure Setting where
  name : String
  /-- The values that it takes; nothing for one that stands alone. -/
  accepts : Option (String → Bool)
  gathers : Bool
  required : Bool
  hyphens : Bool

namespace Setting

def flag (name : String) : Setting :=
  ⟨name, none, false, false, false⟩

def value (name : String) (accepts : String → Bool) : Setting :=
  ⟨name, some accepts, false, false, false⟩

def text (name : String) : Setting :=
  value name fun _ => true

def asRequired (setting : Setting) : Setting :=
  { setting with required := true }

end Setting

def word? (text : String) : Option Nat :=
  Decimal.unsigned? (Word.count 64) (Text.bytes text)

def integer? (text : String) : Option Int :=
  Decimal.signed? 64 (Text.bytes text)

def outputForm? : String → Option OutputForm
  | "json" => some (.lines .json)
  | "kv" => some (.lines .labelled)
  | "none" => some .raw
  | _ => none

namespace Setting

def word (name : String) : Setting :=
  value name fun text => (word? text).isSome

end Setting

/-- The settings that were given, the latest first; one that stands alone has an empty value. -/
abbrev Given := List (String × String)

namespace Given

def has (given : Given) (name : String) : Bool :=
  (given.lookup name).isSome

def text? (given : Given) (name : String) : Option String :=
  given.lookup name

def word (given : Given) (name : String) (default : Nat) : Nat :=
  ((given.lookup name).bind word?).getD default

def gathered (given : Given) (name : String) : List String :=
  (given.reverse.filter (·.1 == name)).map Prod.snd

end Given

/-- Why arguments are not read to their end. -/
inductive Stop where
  | misuse
  | help

/-- Whether a value can be given to a setting once more. -/
def Setting.give (setting : Setting) (value : String) (given : Given) : Except Stop Given :=
  let isFine := match setting.accepts with
    | some accepts => accepts value
    | none => true
  if isFine && (setting.gathers || !given.has setting.name) then
    .ok ((setting.name, value) :: given)
  else
    .error .misuse

/-- What an argument is where a setting can begin. -/
inductive Token where
  | long (name : String) (value : Option String)
  | short (letters : List Char)
  | divider
  | plain

def token (argument : String) : Token :=
  match argument.toList with
  | ['-', '-'] => .divider
  | '-' :: '-' :: rest =>
      match rest.span (· ≠ '=') with
      | (name, _ :: value) => .long (String.ofList name) (some (String.ofList value))
      | (name, []) => .long (String.ofList name) none
  | '-' :: letter :: letters => .short (letter :: letters)
  | _ => .plain

/-- Whether an argument can be the value of the setting in front of it. -/
def isValue (setting : Setting) (argument : String) : Bool :=
  setting.hyphens ||
    match token argument with
    | .plain => true
    | _ => false

def readSettings (known : List Setting) (given : Given) : List String → Except Stop Given
  | [] => .ok given
  | argument :: rest =>
      match token argument with
      | .plain => .error .misuse
      | .divider => if rest.isEmpty then .ok given else .error .misuse
      | .short letters => .error (if letters.head? = some 'h' then .help else .misuse)
      | .long name value =>
          if name = "help" then .error (if value.isNone then .help else .misuse)
          else
            match known.find? (·.name == name) with
            | none => .error .misuse
            | some setting =>
                match setting.accepts.isSome, value, rest with
                | false, none, rest => do readSettings known (← setting.give "" given) rest
                | false, some _, _ => .error .misuse
                | true, some value, rest => do readSettings known (← setting.give value given) rest
                | true, none, value :: rest =>
                    if isValue setting value then do
                      readSettings known (← setting.give value given) rest
                    else .error .misuse
                | true, none, [] => .error .misuse

def settings (known : List Setting) (arguments : List String) : Except Stop Given := do
  let given ← readSettings known [] arguments
  if known.all fun setting => !setting.required || given.has setting.name then return given
  else throw .misuse

def rdbSetting : Setting :=
  (Setting.text "rdb").asRequired

def outputSettings : List Setting :=
  [.value "output" fun text => (outputForm? text).isSome, .text "out"]

def originSettings : List Setting :=
  [.text "from", .text "from-user", .text "from-auth", .word "from-timeout", .flag "tls"]

def targetSettings : List Setting :=
  [{ (Setting.text "to").asRequired with gathers := true }, .text "to-user", .text "to-auth",
    .word "db", .word "parallel", .word "speed", .word "batch-size", .word "max-retry",
    .flag "ignore-expiry",
    { Setting.value "expire-shift" fun text => (integer? text).isSome with hyphens := true },
    .flag "keep-deleted-stream-entries", .flag "delete", .flag "debug"]

def infoSettings : List Setting :=
  [rdbSetting, .flag "stats", .flag "big-key", .word "big-key-size", .word "big-key-len"]

namespace Given

def rdb (given : Given) : String :=
  (given.text? "rdb").getD ""

def output (given : Given) : Output :=
  ⟨((given.text? "output").bind outputForm?).getD (.lines .json), given.text? "out"⟩

def defaultAddress : String := "127.0.0.1:6379"

def origin (given : Given) : Origin :=
  ⟨(given.text? "from").getD defaultAddress, ⟨given.text? "from-user", given.text? "from-auth"⟩,
    given.word "from-timeout" 5, given.has "tls"⟩

def target (given : Given) : Target where
  connector := ⟨given.gathered "to", ⟨given.text? "to-user", given.text? "to-auth"⟩⟩
  options :=
    { database := given.word "db" 0
      workers := given.word "parallel" 1
      batch := given.word "batch-size" 10
      attempts := given.word "max-retry" 3
      speed := given.word "speed" 0
      ignoreExpiry := given.has "ignore-expiry"
      expiryShift := ((given.text? "expire-shift").bind integer?).getD 0
      keepDeleted := given.has "keep-deleted-stream-entries"
      deleteOnly := given.has "delete" }

end Given

def action (name : String) (arguments : List String) : Except Stop Action := do
  match name with
  | "parse" =>
      let given ← settings (rdbSetting :: .flag "aux" :: outputSettings) arguments
      return .parse given.rdb given.output (given.has "aux")
  | "dump" =>
      let given ← settings (originSettings ++ outputSettings) arguments
      return .dump given.origin given.output
  | "load" =>
      let given ← settings (rdbSetting :: targetSettings) arguments
      return .load given.rdb given.target
  | "trans" =>
      let given ← settings (originSettings ++ targetSettings) arguments
      return .trans given.origin given.target
  | "info" =>
      let given ← settings infoSettings arguments
      return .info given.rdb (given.has "stats") (given.has "big-key")
        (given.word "big-key-size" 1024) (given.word "big-key-len" 0)
  | _ => throw .misuse

def actionNames : List String :=
  ["parse", "dump", "load", "trans", "info"]

/-- Reads the arguments of the program; nothing stands for those that make no sense. -/
def request? : List String → Option Request
  | [] => none
  | first :: rest =>
      match token first with
      | .long "version" none => some .version
      | .long "help" none => some .help
      | .short ('V' :: _) => some .version
      | .short ('h' :: _) => some .help
      | .plain =>
          if first = "help" then
            match rest with
            | [] => some .help
            | [name] => if name ∈ "help" :: actionNames then some .help else none
            | _ => none
          else
            match action first rest with
            | .ok action => some (.act action)
            | .error .help => some .help
            | .error .misuse => none
      | _ => none

end RedisSnapshot.CommandLine
