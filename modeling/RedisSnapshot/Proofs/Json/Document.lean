import RedisSnapshot.Text.Utf8

/-!
# Reading a JSON text

What a JSON text says is told by reading it. The reader takes every text of the grammar: blanks
between the tokens, escapes of any form, numbers with a fraction and an exponent. A limit on the
number of elements or on the depth is always the number of characters, which no text goes beyond.
-/

namespace RedisSnapshot

/-- What a JSON text says. A number is the token that it is written as; a string has its escapes
resolved. The members of an object stand as they do in the text. -/
inductive Document where
  | null
  | bool (value : Bool)
  | number (token : String)
  | string (text : String)
  | array (items : List Document)
  | object (members : List (String × Document))

namespace Document

/-- Reads something from the front of a text, and gives back what is behind it. -/
abbrev Reading (α : Type) := List Char → Option (α × List Char)

def skip (input : List Char) : List Char :=
  input.dropWhile fun char => char ∈ [' ', '\t', '\n', '\r']

/-! ### Strings -/

def hexDigit? (char : Char) : Option Nat :=
  if char.isDigit then some (char.toNat - 48)
  else if 'a' ≤ char ∧ char ≤ 'f' then some (char.toNat - 87)
  else if 'A' ≤ char ∧ char ≤ 'F' then some (char.toNat - 55)
  else none

/-- Half a surrogate pair, or a character: four hexadecimal digits. -/
def unit? : Reading Nat
  | first :: second :: third :: fourth :: rest => do
      let high := 16 * (← hexDigit? first) + (← hexDigit? second)
      let low := 16 * (← hexDigit? third) + (← hexDigit? fourth)
      return (256 * high + low, rest)
  | _ => none

def namedEscapes : List (Char × Char) :=
  [('"', '"'), ('\\', '\\'), ('/', '/'), ('b', '\x08'), ('f', '\x0C'), ('n', '\n'), ('r', '\r'),
    ('t', '\t')]

/-- The character that is written behind a backslash. One beyond the basic plane takes two units. -/
def escaped? : Reading Char
  | [] => none
  | mark :: rest =>
      if mark = 'u' then do
        let (unit, rest) ← unit? rest
        if unit < 0xD800 ∨ 0xE000 ≤ unit then
          return (Char.ofNat unit, rest)
        else match rest with
          | '\\' :: 'u' :: rest => do
              let (low, rest) ← unit? rest
              if unit < 0xDC00 ∧ 0xDC00 ≤ low ∧ low < 0xE000 then
                return (Char.ofNat (0x10000 + 0x400 * (unit - 0xD800) + (low - 0xDC00)), rest)
              else none
          | _ => none
      else (namedEscapes.lookup mark).map (·, rest)

/-- The characters up to the closing quote, and the quote. -/
def charsWithin? : (limit : Nat) → Reading (List Char)
  | 0, _ | _, [] => none
  | limit + 1, first :: rest => do
      if first = '"' then
        return ([], rest)
      else if first.toNat < 0x20 then none
      else
        let (char, rest) ← if first = '\\' then escaped? rest else some (first, rest)
        let (chars, rest) ← charsWithin? limit rest
        return (char :: chars, rest)

/-- A string behind its opening quote. -/
def string? : Reading String := fun input => do
  let (chars, rest) ← charsWithin? input.length input
  return (String.ofList chars, rest)

/-! ### Numbers -/

/-- The integer part of a number has no zero in front of other digits. -/
def isWhole (digits : List Char) : Bool :=
  digits = ['0'] || digits.all Char.isDigit && !digits.isEmpty && digits.head? != some '0'

def isDigits (digits : List Char) : Bool :=
  digits.all Char.isDigit && !digits.isEmpty

def isExponent : List Char → Bool
  | [] => true
  | mark :: rest =>
      (mark = 'e' || mark = 'E') &&
        match rest with
        | '+' :: digits | '-' :: digits => isDigits digits
        | digits => isDigits digits

def isFraction : List Char → Bool
  | '.' :: rest =>
      isDigits (rest.takeWhile Char.isDigit) && isExponent (rest.dropWhile Char.isDigit)
  | rest => isExponent rest

def isUnsigned (text : List Char) : Bool :=
  isWhole (text.takeWhile Char.isDigit) && isFraction (text.dropWhile Char.isDigit)

def isNumber : List Char → Bool
  | '-' :: rest => isUnsigned rest
  | rest => isUnsigned rest

/-- Whether a number that comes here goes on with this character. -/
def isOfNumber (char : Char) : Bool :=
  char.isDigit || char ∈ ['+', '-', '.', 'e', 'E']

def number? : Reading Document := fun input =>
  let token := input.takeWhile isOfNumber
  if isNumber token then some (number (String.ofList token), input.dropWhile isOfNumber) else none

/-! ### Whole texts -/

def word? : Reading Document
  | 'n' :: 'u' :: 'l' :: 'l' :: rest => some (null, rest)
  | 't' :: 'r' :: 'u' :: 'e' :: rest => some (bool true, rest)
  | 'f' :: 'a' :: 'l' :: 's' :: 'e' :: rest => some (bool false, rest)
  | _ => none

section Brackets

variable {α : Type}

/-- Elements with commas between them, and the bracket behind the last one. -/
def separated? (element? : Reading α) (close : Char) : (limit : Nat) → Reading (List α)
  | 0, _ => none
  | limit + 1, input => do
      let (first, rest) ← element? input
      match skip rest with
      | [] => none
      | mark :: rest =>
          if mark = close then
            return ([first], rest)
          else if mark = ',' then
            let (others, rest) ← separated? element? close limit rest
            return (first :: others, rest)
          else none

/-- Elements, if there are any, behind an opening bracket. -/
def bracketed? (element? : Reading α) (close : Char) : Reading (List α) := fun input =>
  match skip input with
  | [] => none
  | mark :: rest =>
      if mark = close then some ([], rest) else separated? element? close input.length input

def member? (value? : Reading α) : Reading (String × α) := fun input =>
  match skip input with
  | '"' :: rest => do
      let (name, rest) ← string? rest
      match skip rest with
      | ':' :: rest => do
          let (value, rest) ← value? rest
          return ((name, value), rest)
      | _ => none
  | _ => none

end Brackets

def valueWithin? : (depth : Nat) → Reading Document
  | 0, _ => none
  | depth + 1, input =>
      match skip input with
      | [] => none
      | first :: rest =>
          if first = '"' then (string? rest).map (Prod.map string id)
          else if first = '[' then
            (bracketed? (valueWithin? depth) ']' rest).map (Prod.map array id)
          else if first = '\x7b' then
            (bracketed? (member? (valueWithin? depth)) '\x7d' rest).map (Prod.map object id)
          else if first = '-' ∨ first.isDigit then number? (first :: rest)
          else word? (first :: rest)

def read? (text : List Char) : Option Document := do
  let (document, rest) ← valueWithin? text.length text
  if (skip rest).isEmpty then some document else none

/-- What a JSON text in UTF-8 says. -/
def ofBytes? (text : Bytes) : Option Document :=
  (Text.strict? text).bind read?

example : read? " [ -0.5e+3, \"\\u00e9\\ud83d\\ude00\\n\" , \x7b\"a\" :null\x7d ] ".toList =
    some (array [number "-0.5e+3", string (String.ofList [Char.ofNat 0xE9, Char.ofNat 0x1F600, '\n']),
      object [("a", null)]]) := by
  rfl

example : [" [01]", "[1,]", "\"\\ud83d\"", "\x7b\"a\":1", "1 2"].all
    (fun text => (read? text.toList).isNone) = true := by
  rfl

end Document

end RedisSnapshot
