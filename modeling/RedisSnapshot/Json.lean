import RedisSnapshot.Binary64.Layout

/-!
# JSON documents

Documents are written without any blanks. An object keeps the order in which its members are given;
where a document asks for members in the order of their names instead, of several members of one
name the last one stays.
-/

namespace RedisSnapshot

inductive Json where
  | null
  | bool (value : Bool)
  | integer (value : Int)
  | number (value : Binary64)
  | string (text : String)
  | array (items : List Json)
  | object (members : List (String × Json))
deriving Inhabited

namespace Json

def natural (value : Nat) : Json :=
  integer value

/-- Keeps the last of adjacent members of one name. -/
def lastOfEach : List (String × Json) → List (String × Json)
  | first :: second :: rest =>
      if first.1 = second.1 then lastOfEach (second :: rest)
      else first :: lastOfEach (second :: rest)
  | members => members

def sorted (members : List (String × Json)) : Json :=
  object (lastOfEach (members.mergeSort fun a b => a.1 ≤ b.1))

def escapeChar (char : Char) : List Char :=
  if char = '"' then ['\\', '"']
  else if char = '\\' then ['\\', '\\']
  else if char = '\x08' then ['\\', 'b']
  else if char = '\x0C' then ['\\', 'f']
  else if char = '\n' then ['\\', 'n']
  else if char = '\r' then ['\\', 'r']
  else if char = '\t' then ['\\', 't']
  else if char.toNat < 0x20 then
    ['\\', 'u', '0', '0', Nat.digitChar (char.toNat / 16), Nat.digitChar (char.toNat % 16)]
  else [char]

def quote (text : String) : String :=
  "\"" ++ String.ofList (text.toList.flatMap escapeChar) ++ "\""

/-- A number that JSON has no notation of is absent. -/
def numberText (value : Binary64) : String :=
  if value.isNaN || value.isInfinite then "null" else Binary64.json.text value

mutual

def text : Json → String
  | null => "null"
  | bool value => if value then "true" else "false"
  | integer value => Decimal.intText value
  | number value => numberText value
  | string value => quote value
  | array items => "[" ++ ",".intercalate (itemTexts items) ++ "]"
  | object members => "\x7b" ++ ",".intercalate (memberTexts members) ++ "\x7d"

def itemTexts : List Json → List String
  | [] => []
  | item :: items => text item :: itemTexts items

def memberTexts : List (String × Json) → List String
  | [] => []
  | (name, value) :: members => (quote name ++ ":" ++ text value) :: memberTexts members

end

end Json

end RedisSnapshot
