import RedisSnapshot.Decoder

/-!
# Entries two by two

Containers of fields and values, or of members and scores, hold them alternately.
-/

namespace RedisSnapshot.Packed

def pairUp : List Bytes → List (Bytes × Bytes)
  | first :: second :: rest => (first, second) :: pairUp rest
  | _ => []

def pairs (entries : List Bytes) : Except Fault (List (Bytes × Bytes)) :=
  if entries.length % 2 = 0 then .ok (pairUp entries)
  else .error (.malformed (.oddEntries entries.length))

end RedisSnapshot.Packed
