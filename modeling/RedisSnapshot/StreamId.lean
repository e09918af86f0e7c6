import RedisSnapshot.Bytes
import RedisSnapshot.Decimal

/-!
# Stream entry ids

An id is a pair of machine words, a time in milliseconds and a sequence number, ordered by the time
first. Sums of ids and deltas wrap around.
-/

namespace RedisSnapshot

structure StreamId where
  ms : UInt64
  seq : UInt64
deriving DecidableEq

namespace StreamId

instance : Inhabited StreamId := ⟨⟨0, 0⟩⟩

instance : LT StreamId where
  lt a b := a.ms < b.ms ∨ a.ms = b.ms ∧ a.seq < b.seq

instance (a b : StreamId) : Decidable (a < b) :=
  inferInstanceAs (Decidable (a.ms < b.ms ∨ a.ms = b.ms ∧ a.seq < b.seq))

theorem lt_iff {a b : StreamId} : a < b ↔ a.ms < b.ms ∨ a.ms = b.ms ∧ a.seq < b.seq :=
  Iff.rfl

theorem lt_trans {a b c : StreamId} (hab : a < b) (hbc : b < c) : a < c := by
  simp only [lt_iff, UInt64.lt_iff_toNat_lt, ← UInt64.toNat_inj] at *
  omega

theorem lt_of_not_lt_of_ne {a b : StreamId} (hlt : ¬ a < b) (hne : a ≠ b) : b < a := by
  have hne' : ¬ (a.ms = b.ms ∧ a.seq = b.seq) := by
    rintro ⟨hms, hseq⟩
    exact hne (by cases a; cases b; simp_all)
  simp only [lt_iff, UInt64.lt_iff_toNat_lt, ← UInt64.toNat_inj] at *
  omega

def compare (a b : StreamId) : Ordering :=
  if a < b then .lt else if a = b then .eq else .gt

def ofNats (ms seq : Nat) : StreamId :=
  ⟨UInt64.ofNat ms, UInt64.ofNat seq⟩

/-- The id in sixteen bytes, both words with the most significant byte first. -/
def ofRaw (raw : Bytes) : StreamId :=
  ofNats (Word.big (raw.take 8)) (Word.big (raw.drop 8))

def offsetBy (id : StreamId) (ms seq : UInt64) : StreamId :=
  ⟨id.ms + ms, id.seq + seq⟩

def text (id : StreamId) : String :=
  Decimal.text id.ms.toNat ++ "-" ++ Decimal.text id.seq.toNat

def bytes (id : StreamId) : Bytes :=
  Decimal.bytes id.ms.toNat ++ 45 :: Decimal.bytes id.seq.toNat

end StreamId

end RedisSnapshot
