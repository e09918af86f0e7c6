import RedisSnapshot.Error

/-!
# Pace

A pace is kept with a bucket that holds one token at most and fills at a steady rate. Whoever needs
a token looks again at fixed intervals until there is one, so a wait takes whole intervals. Time is
given in billionths of a second and the level of the bucket in billionths of a token, which keeps
all of this exact.
-/

namespace RedisSnapshot

structure Pace where
  /-- Tokens per second. -/
  rate : Nat
  level : Nat
  /-- The moment that the level was told for. -/
  moment : Nat
  rate_pos : 0 < rate

namespace Pace

def full : Nat := 1000000000

/-- The time between two looks at the bucket. -/
def interval : Nat := 1000000

/-- A pace of so many tokens in a second. None is needed if their number is not limited. -/
def ofRate? (rate now : Nat) : Option Pace :=
  if h : 0 < rate then some ⟨rate, full, now, h⟩ else none

def refill (pace : Pace) (now : Nat) : Pace :=
  { pace with level := min full (pace.level + (now - pace.moment) * pace.rate), moment := now }

def tryTake (pace : Pace) (now : Nat) : Bool × Pace :=
  let pace := pace.refill now
  if full ≤ pace.level then (true, { pace with level := pace.level - full }) else (false, pace)

/-- The number of intervals that it takes until there is a token. -/
def intervals (pace : Pace) (now : Nat) : Nat :=
  let perInterval := interval * pace.rate
  (full - (pace.refill now).level + perInterval - 1) / perInterval

theorem tryTake_after_intervals (pace : Pace) (now : Nat) (h : pace.moment ≤ now) :
    (pace.tryTake (now + interval * pace.intervals now)).1 = true := by
  have hrate := pace.rate_pos
  have hpos : 0 < interval * pace.rate := Nat.mul_pos (by decide) hrate
  have hceil : full - (pace.refill now).level ≤ interval * pace.rate * pace.intervals now := by
    have hdiv := Nat.div_add_mod (full - (pace.refill now).level + interval * pace.rate - 1)
      (interval * pace.rate)
    have hmod := Nat.mod_lt (full - (pace.refill now).level + interval * pace.rate - 1) hpos
    simp only [intervals]
    omega
  have hspan : (now + interval * pace.intervals now - pace.moment) * pace.rate =
      (now - pace.moment) * pace.rate + interval * pace.rate * pace.intervals now := by
    rw [show now + interval * pace.intervals now - pace.moment =
      (now - pace.moment) + interval * pace.intervals now by omega, Nat.add_mul,
      Nat.mul_right_comm]
  have hlevel : full ≤ (pace.refill (now + interval * pace.intervals now)).level := by
    simp only [refill, hspan] at hceil ⊢
    omega
  simp [tryTake, hlevel]

/-- Waits for a token and takes it, unless that is no longer wanted; also tells the moment when. -/
def acquire (pace : Pace) (isCancelled : Bool) (now : Nat) : Except Error Nat × Pace :=
  if isCancelled then (.error .cancelled, pace)
  else
    let moment := now + interval * pace.intervals now
    (.ok moment, (pace.tryTake moment).2)

end Pace

end RedisSnapshot
