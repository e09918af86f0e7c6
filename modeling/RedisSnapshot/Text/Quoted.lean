import RedisSnapshot.Text.Unprintable
import RedisSnapshot.Text.Utf8

/-!
# Quoted text and quoted bytes

Messages quote what they found. A quoted text stands in double quotes with quotes, backslashes and
the common controls escaped by a letter and every other unprintable character by its code point; a
quoted byte string shows printable ASCII as it is and every other byte by two hexadecimal digits.
-/

namespace RedisSnapshot.Text

def hexDigits (n : Nat) : String :=
  String.ofList (Nat.toDigits 16 n)

/-- Exactly two hexadecimal digits. -/
def hexByte (byte : UInt8) : String :=
  String.ofList [Nat.digitChar (byte.toNat / 16), Nat.digitChar (byte.toNat % 16)]

def escapeChar (char : Char) : String :=
  if char = '"' then "\\\""
  else if char = '\\' then "\\\\"
  else if char = '\n' then "\\n"
  else if char = '\r' then "\\r"
  else if char = '\t' then "\\t"
  else if char = '\x00' then "\\0"
  else if isPrintable char then String.singleton char
  else "\\u\x7b" ++ hexDigits char.toNat ++ "\x7d"

def quoted (text : String) : String :=
  "\"" ++ String.join (text.toList.map escapeChar) ++ "\""

def escapeByte (byte : UInt8) : String :=
  if byte = 0x22 then "\\\""
  else if byte = 0x5C then "\\\\"
  else if byte = 0x0A then "\\n"
  else if byte = 0x0D then "\\r"
  else if byte = 0x09 then "\\t"
  else if byte = 0x00 then "\\0"
  else if 0x20 ≤ byte ∧ byte < 0x7F then String.singleton (Char.ofNat byte.toNat)
  else "\\x" ++ hexByte byte

def quotedBytes (input : Bytes) : String :=
  "b\"" ++ String.join (input.map escapeByte) ++ "\""

end RedisSnapshot.Text
