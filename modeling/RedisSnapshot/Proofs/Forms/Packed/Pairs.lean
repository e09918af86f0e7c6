import RedisSnapshot.Packed.Pairs
import RedisSnapshot.Proofs.Forms.Packed.Listpack
import RedisSnapshot.Proofs.Forms.Packed.Ziplist

/-!
# Pairs in packed containers

The entries of a container of pairs are the pairs' members, one pair after another.
-/

namespace RedisSnapshot.Packed

def flatten (pairs : List (Bytes × Bytes)) : List Bytes :=
  pairs.flatMap fun pair => [pair.1, pair.2]

theorem pairUp_flatten (pairs : List (Bytes × Bytes)) : pairUp (flatten pairs) = pairs := by
  induction pairs with
  | nil => rfl
  | cons pair pairs ih =>
      change (pair.1, pair.2) :: pairUp (flatten pairs) = pair :: pairs
      rw [ih]

/-- Nothing of an even number of entries is left alone. -/
theorem flatten_pairUp {entries : List Bytes} (h : entries.length % 2 = 0) :
    flatten (pairUp entries) = entries := by
  fun_induction pairUp entries with
  | case1 first second rest ih =>
      have hrest : rest.length % 2 = 0 := by
        simp only [List.length_cons] at h
        omega
      exact congrArg (first :: second :: ·) (ih hrest)
  | case2 entries hshort =>
      match entries with
      | [] => rfl
      | [_] => cases h
      | first :: second :: rest => exact (hshort first second rest rfl).elim

theorem length_flatten (pairs : List (Bytes × Bytes)) :
    (flatten pairs).length = 2 * pairs.length := by
  induction pairs with
  | nil => rfl
  | cons pair pairs ih =>
      change (flatten pairs).length + 2 = 2 * (pairs.length + 1)
      rw [ih]
      omega

theorem pairs_flatten (entries : List (Bytes × Bytes)) : pairs (flatten entries) = .ok entries := by
  rw [pairs, length_flatten, if_pos (by omega), pairUp_flatten]

theorem Ziplist.decodePairs_eq {pairs : List (Bytes × Bytes)} {blob : Bytes}
    (h : Ziplist.Form (flatten pairs) blob) : Ziplist.decodePairs blob = .ok pairs := by
  rw [Ziplist.decodePairs, h.decode_eq]
  exact pairs_flatten pairs

theorem Listpack.decodePairs_eq {pairs : List (Bytes × Bytes)} {blob : Bytes}
    (h : Listpack.Form (flatten pairs) blob) : Listpack.decodePairs blob = .ok pairs := by
  rw [Listpack.decodePairs, h.decode_eq]
  exact pairs_flatten pairs

end RedisSnapshot.Packed
