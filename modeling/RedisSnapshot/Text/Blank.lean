/-!
# Blank characters

The characters with the Unicode property White_Space, and text without them at its ends.
-/

namespace RedisSnapshot.Text

def isBlank (char : Char) : Bool :=
  let code := char.toNat
  (9 ≤ code && code ≤ 13) || code == 0x20 || code == 0x85 || code == 0xA0 || code == 0x1680 ||
    (0x2000 ≤ code && code ≤ 0x200A) || code == 0x2028 || code == 0x2029 || code == 0x202F ||
    code == 0x205F || code == 0x3000

def trim (text : List Char) : List Char :=
  ((text.dropWhile isBlank).reverse.dropWhile isBlank).reverse

example : trim [' ', '1', ' ', '2', '\u3000', '\n'] = ['1', ' ', '2'] := by decide

end RedisSnapshot.Text
