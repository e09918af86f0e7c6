import Mathlib.Algebra.Group.Nat.Defs
import Mathlib.Data.List.Basic
import Mathlib.Data.List.TakeWhile
import RedisSnapshot.Binary64.Shortest
import RedisSnapshot.Proofs.Decimal

/-!
# Seventeen digits suffice

A grid of decimals has a point inside the interval that rounds to a magnitude as soon as its step is
smaller than the interval. With seventeen digits the step is at most `10 ^ -16` of the magnitude, and
the interval is larger than `2 ^ -53` of it. So the search for the shortest digits always ends with a
decimal of the interval, whose first digit is not zero.
-/

namespace RedisSnapshot.Binary64

theorem one_pos : 0 < one := by
  unfold one
  -- The power itself is not to be calculated.
  generalize 1076 = exponent
  exact Nat.two_pow_pos exponent

/-! ### The grid of so many digits -/

section Point

variable {centre : Nat}

/-- The step of a grid is no more than the magnitude with a point set behind its first digit. -/
theorem step_le_centre (h : 0 < centre) {count : Nat} (hcount : 1 ≤ count) :
    10 ^ (count - 1) * (10 ^ (pointOf centre - count).toNat * one) ≤
      centre * 10 ^ (-(pointOf centre - count)).toNat := by
  have hone := one_pos
  unfold pointOf
  generalize one = unit at hone ⊢
  split
  · rename_i hlarge
    obtain ⟨length, hlength⟩ : ∃ length, length = (Decimal.digits (centre / unit)).length :=
      ⟨_, rfl⟩
    have hpositive : 1 ≤ length := hlength ▸ List.length_pos_iff.2 (Decimal.digits_ne_nil _)
    have hpower : 10 ^ (length - 1) * unit ≤ centre := by
      have hfloor := Decimal.pow_length_le (Nat.div_pos hlarge hone)
      rw [← hlength] at hfloor
      exact (Nat.le_div_iff_mul_le hone).1 hfloor
    rw [← hlength]
    rcases Nat.le_total count length with hwhole | hpart
    · have hup : (-((length : Int) - count)).toNat = 0 := by omega
      have hdown : ((length : Int) - count).toNat = length - count := by omega
      have hsum : count - 1 + (length - count) = length - 1 := by omega
      rw [hup, hdown, Nat.pow_zero, Nat.mul_one, ← Nat.mul_assoc, ← Nat.pow_add, hsum]
      exact hpower
    · have hup : (-((length : Int) - count)).toNat = count - length := by omega
      have hdown : ((length : Int) - count).toNat = 0 := by omega
      have hsum : count - 1 = count - length + (length - 1) := by omega
      rw [hup, hdown, Nat.pow_zero, Nat.one_mul, hsum, Nat.pow_add, Nat.mul_assoc,
        Nat.mul_comm centre]
      exact Nat.mul_le_mul_left _ hpower
  · obtain ⟨length, hlength⟩ : ∃ length, length = (Decimal.digits (unit / centre)).length :=
      ⟨_, rfl⟩
    have hpower : unit ≤ centre * 10 ^ length := by
      have hfloor := Decimal.lt_pow_length (unit / centre)
      rw [← hlength, Nat.div_lt_iff_lt_mul h, Nat.mul_comm] at hfloor
      exact Nat.le_of_lt hfloor
    have hup : (-(1 - (length : Int) - count)).toNat = length + (count - 1) := by omega
    have hdown : (1 - (length : Int) - count).toNat = 0 := by omega
    rw [← hlength, hup, hdown, Nat.pow_zero, Nat.one_mul, Nat.pow_add, ← Nat.mul_assoc,
      Nat.mul_comm (10 ^ (count - 1))]
    exact Nat.mul_le_mul_right _ hpower

end Point

namespace Interval

variable {interval : Interval} {tie : Tie} {exponent : Int} {grid : Nat}

/-- The place of the magnitude on the grid, without what is behind the point. -/
def floorOn (interval : Interval) (exponent : Int) : Nat :=
  interval.centre * 10 ^ (-exponent).toNat / (10 ^ exponent.toNat * one)

def containsOn (interval : Interval) (exponent : Int) (grid : Nat) : Bool :=
  interval.contains (10 ^ (-exponent).toNat) (10 ^ exponent.toNat) grid

/-- The point of the grid that is found lies in the interval, next to the place of the magnitude. -/
theorem onGrid?_spec (h : interval.onGrid? tie exponent = some grid) :
    interval.containsOn exponent grid = true ∧ interval.floorOn exponent ≤ grid := by
  have hfloor : interval.centre * Nat.pow 10 (-exponent).toNat /
      (Nat.pow 10 exponent.toNat * one) = interval.floorOn exponent := rfl
  have hcontains : interval.contains (Nat.pow 10 (-exponent).toNat) (Nat.pow 10 exponent.toNat) =
      interval.containsOn exponent := rfl
  unfold onGrid? at h
  dsimp only at h
  rw [hfloor, hcontains] at h
  generalize interval.floorOn exponent = below at h ⊢
  have hnext : below + below % 2 = below ∨ below + below % 2 = below + 1 := by omega
  split at h
  · rename_i hbelow habove
    split at h
    · cases h
      exact ⟨hbelow, Nat.le_refl _⟩
    · split at h
      · cases h
        exact ⟨habove, Nat.le_succ _⟩
      · cases tie with
        | toEven =>
            cases h
            refine ⟨?_, Nat.le_add_right _ _⟩
            rcases hnext with heven | hodd
            · rw [heven]
              exact hbelow
            · rw [hodd]
              exact habove
        | upward =>
            cases h
            exact ⟨habove, Nat.le_succ _⟩
  · rename_i hbelow _
    cases h
    exact ⟨hbelow, Nat.le_refl _⟩
  · rename_i _ habove
    cases h
    exact ⟨habove, Nat.le_succ _⟩
  · cases h

theorem isSome_onGrid?_of_contains
    (h : interval.containsOn exponent (interval.floorOn exponent) = true ∨
      interval.containsOn exponent (interval.floorOn exponent + 1) = true) :
    (interval.onGrid? tie exponent).isSome = true := by
  have hfloor : interval.centre * Nat.pow 10 (-exponent).toNat /
      (Nat.pow 10 exponent.toNat * one) = interval.floorOn exponent := rfl
  have hcontains : interval.contains (Nat.pow 10 (-exponent).toNat) (Nat.pow 10 exponent.toNat) =
      interval.containsOn exponent := rfl
  unfold onGrid?
  dsimp only
  rw [hfloor, hcontains]
  split
  · split
    · rfl
    · split
      · rfl
      · cases tie <;> rfl
  · rfl
  · rfl
  · rename_i hbelow habove
    rw [hbelow, habove] at h
    simp at h

theorem containsOn_of_lt
    (hlow : interval.low * 10 ^ (-exponent).toNat < grid * (10 ^ exponent.toNat * one))
    (hhigh : grid * (10 ^ exponent.toNat * one) < interval.high * 10 ^ (-exponent).toNat) :
    interval.containsOn exponent grid = true := by
  rw [← Nat.mul_assoc] at hlow hhigh
  unfold containsOn contains
  dsimp only
  split
  · rw [Bool.and_eq_true]
    exact ⟨decide_eq_true (Nat.le_of_lt hlow), decide_eq_true (Nat.le_of_lt hhigh)⟩
  · rw [Bool.and_eq_true]
    exact ⟨decide_eq_true hlow, decide_eq_true hhigh⟩

/-- A grid whose step is smaller than the interval has a point in it. -/
theorem isSome_onGrid? {before behind : Nat} (hlow : interval.low + before = interval.centre)
    (hhigh : interval.high = interval.centre + behind) (hbehind : 0 < behind)
    (hstep : 10 ^ exponent.toNat * one < (before + behind) * 10 ^ (-exponent).toNat) :
    (interval.onGrid? tie exponent).isSome = true := by
  obtain ⟨up, hup⟩ : ∃ up, 10 ^ (-exponent).toNat = up := ⟨_, rfl⟩
  obtain ⟨step, hdown⟩ : ∃ step, 10 ^ exponent.toNat * one = step := ⟨_, rfl⟩
  obtain ⟨below, hbelow⟩ : ∃ below, interval.floorOn exponent = below := ⟨_, rfl⟩
  have hpositive : 0 < step := hdown ▸ Nat.mul_pos (Nat.pow_pos (by decide)) one_pos
  have hbehindUp : 0 < behind * up := Nat.mul_pos hbehind (hup ▸ Nat.pow_pos (by decide))
  rw [hup, hdown, Nat.add_mul] at hstep
  -- The magnitude is this far behind the point of the grid below it.
  obtain ⟨remainder, hremainder, hplace⟩ :
      ∃ remainder < step, below * step + remainder = interval.centre * up := by
    refine ⟨_, Nat.mod_lt (interval.centre * up) hpositive, ?_⟩
    rw [← hbelow, floorOn, hup, hdown]
    exact Nat.div_add_mod' _ _
  have hlowUp : interval.low * up + before * up = interval.centre * up := by
    rw [← Nat.add_mul, hlow]
  have hhighUp : interval.high * up = interval.centre * up + behind * up := by
    rw [hhigh, Nat.add_mul]
  refine isSome_onGrid?_of_contains ?_
  rw [hbelow]
  rcases Nat.lt_or_ge remainder (before * up) with hnear | hfar
  · refine .inl (containsOn_of_lt ?_ ?_)
    · rw [hup, hdown]
      omega
    · rw [hup, hdown]
      omega
  · refine .inr (containsOn_of_lt ?_ ?_)
    · rw [hup, hdown, Nat.succ_mul]
      omega
    · rw [hup, hdown, Nat.succ_mul]
      omega

end Interval

/-! ### The search -/

theorem exists_grid_of_isSome {interval : Interval} {tie : Tie} {point : Int} {last : Nat}
    (hlast : (interval.onGrid? tie (point - last)).isSome = true) (left count : Nat)
    (hcount : count ≤ last) (hleft : last < count + left) :
    ∃ found grid, count ≤ found ∧ interval.onGrid? tie (point - found) = some grid ∧
      searchGrids interval tie point left count =
        ⟨dropTrailingZeros (Decimal.digits grid), point - found + (Decimal.digits grid).length⟩ := by
  induction left generalizing count with
  | zero => omega
  | succ left ih =>
      rw [searchGrids]
      cases hgrid : interval.onGrid? tie (point - count) with
      | some grid => exact ⟨count, grid, Nat.le_refl _, hgrid, rfl⟩
      | none =>
          have hne : count ≠ last := by
            rintro rfl
            rw [hgrid] at hlast
            cases hlast
          obtain ⟨found, grid, hfound, hsome, hsearch⟩ := ih (count + 1) (by omega) (by omega)
          exact ⟨found, grid, by omega, hsome, hsearch⟩

section Magnitude

variable {x : Binary64}

theorem spacing_pos (x : Binary64) : 0 < x.spacing :=
  Nat.two_pow_pos _

theorem significand_lt (x : Binary64) : x.significand < 2 ^ 53 := by
  have hfraction : x.fraction < 2 ^ 52 := Nat.mod_lt _ (by decide)
  rw [significand]
  split
  · exact Nat.lt_trans hfraction (by decide)
  · change 2 ^ 52 + x.fraction < 2 ^ 53
    omega

/-- How far the interval reaches to both sides of the magnitude. -/
theorem exists_reach (h : 0 < x.units) :
    ∃ before behind, x.interval.low + before = x.interval.centre ∧
      x.interval.high = x.interval.centre + behind ∧ 0 < behind ∧
        4 * x.significand * x.spacing < 2 ^ 53 * (before + behind) := by
  have hspacing := spacing_pos x
  have hlt := significand_lt x
  have hsignificand : 1 ≤ x.significand := Nat.pos_of_mul_pos_right h
  have hunits : x.spacing ≤ x.units := Nat.le_mul_of_pos_left _ hsignificand
  by_cases hpower : x.fraction = 0 ∧ 1 < x.exponentField
  · -- Below a power of two the magnitudes are twice as close.
    have hvalue : x.significand = 2 ^ 52 := by
      rw [significand, if_neg (by omega), hpower.1]
      rfl
    refine ⟨x.spacing, 2 * x.spacing, ?_, rfl, by omega, ?_⟩
    · change 4 * x.units - (if _ then _ else _) + x.spacing = 4 * x.units
      rw [if_pos hpower]
      omega
    · rw [hvalue]
      omega
  · refine ⟨2 * x.spacing, 2 * x.spacing, ?_, rfl, by omega, ?_⟩
    · change 4 * x.units - (if _ then _ else _) + 2 * x.spacing = 4 * x.units
      rw [if_neg hpower]
      omega
    · have hscaled := Nat.mul_lt_mul_of_pos_right hlt hspacing
      rw [Nat.mul_assoc]
      omega

/-- **Seventeen digits suffice.** The digits of a magnitude are those of some decimal that lies in
its interval, without the zeros at their end. -/
theorem shortest_spec (h : 0 < x.units) (tie : Tie) :
    ∃ exponent grid, 0 < grid ∧ x.interval.containsOn exponent grid = true ∧
      x.shortest tie =
        ⟨dropTrailingZeros (Decimal.digits grid), exponent + (Decimal.digits grid).length⟩ := by
  have hcentre : 0 < x.interval.centre := Nat.mul_pos (by decide) h
  obtain ⟨before, behind, hlow, hhigh, hbehind, hreach⟩ := exists_reach h
  have hlast : (x.interval.onGrid? tie (pointOf x.interval.centre - (17 : Nat))).isSome = true := by
    refine Interval.isSome_onGrid? hlow hhigh hbehind ?_
    have hstep := step_le_centre hcentre (by decide : 1 ≤ 17)
    have hwide : x.interval.centre < 2 ^ 53 * (before + behind) := by
      change 4 * (x.significand * x.spacing) < _
      rw [← Nat.mul_assoc]
      exact hreach
    have hpositive : 0 < 10 ^ (-(pointOf x.interval.centre - (17 : Nat))).toNat :=
      Nat.pow_pos (by decide)
    have hscaled := Nat.mul_lt_mul_of_pos_right hwide hpositive
    rw [Nat.mul_assoc] at hscaled
    generalize 10 ^ (pointOf x.interval.centre - (17 : Nat)).toNat * one = step at hstep ⊢
    omega
  obtain ⟨count, grid, hcount, hgrid, hsearch⟩ :=
    exists_grid_of_isSome hlast 17 1 (by decide) (by decide)
  obtain ⟨hcontains, hfloor⟩ := Interval.onGrid?_spec hgrid
  refine ⟨_, grid, Nat.lt_of_lt_of_le ?_ hfloor, hcontains, hsearch⟩
  -- Already one digit reaches as far as the first digit of the magnitude.
  have hstep := Nat.le_trans (Nat.le_mul_of_pos_left _ (Nat.pow_pos (by decide)))
    (step_le_centre hcentre hcount)
  rw [Interval.floorOn]
  exact Nat.div_pos hstep (Nat.mul_pos (Nat.pow_pos (by decide)) one_pos)

end Magnitude

/-! ### Zeros at the end -/

theorem mem_of_mem_dropTrailingZeros {digits : List Nat} {digit : Nat}
    (h : digit ∈ dropTrailingZeros digits) : digit ∈ digits :=
  List.mem_reverse.1 ((List.dropWhile_sublist _).subset (List.mem_reverse.1 h))

theorem exists_zeros (digits : List Nat) :
    ∃ count, digits = dropTrailingZeros digits ++ List.replicate count 0 := by
  let isZero : Nat → Bool := (· == 0)
  have hzeros : digits.reverse.takeWhile isZero =
      List.replicate (digits.reverse.takeWhile isZero).length 0 := by
    refine List.eq_replicate_iff.2 ⟨rfl, fun digit hmem => ?_⟩
    have hzero : isZero digit = true := List.mem_takeWhile_imp hmem
    exact beq_iff_eq.1 hzero
  have hsplit := congrArg List.reverse
    (@List.takeWhile_append_dropWhile _ isZero digits.reverse)
  rw [List.reverse_append, List.reverse_reverse, hzeros, List.reverse_replicate] at hsplit
  exact ⟨_, hsplit.symm⟩

/-- What is left when the zeros at the end are dropped still begins with the first digit. -/
theorem head_dropTrailingZeros {digits rest : List Nat} {first : Nat} (h : digits = first :: rest)
    (hfirst : 0 < first) : ∃ rest, dropTrailingZeros digits = first :: rest := by
  obtain ⟨count, hdigits⟩ := exists_zeros digits
  cases hleft : dropTrailingZeros digits with
  | nil =>
      rw [hleft, List.nil_append, h] at hdigits
      have hzero := List.eq_of_mem_replicate (hdigits ▸ List.mem_cons_self)
      omega
  | cons other others =>
      rw [hleft, h] at hdigits
      rw [(List.cons.inj hdigits).1]
      exact ⟨others, rfl⟩

/-- Digits, the first of which is not zero. -/
structure IsLeading (digits : List Nat) : Prop where
  lt : ∀ digit ∈ digits, digit < 10
  exists_cons : ∃ first rest, digits = first :: rest ∧ 0 < first

theorem isLeading_shortest {x : Binary64} (h : 0 < x.units) (tie : Tie) :
    IsLeading (x.shortest tie).digits := by
  obtain ⟨exponent, grid, hgrid, -, hshortest⟩ := shortest_spec h tie
  obtain ⟨first, rest, hdigits, hfirst⟩ := Decimal.head_digits hgrid
  obtain ⟨others, hleft⟩ := head_dropTrailingZeros hdigits hfirst
  rw [hshortest]
  exact ⟨fun digit hmem => Decimal.lt_of_mem_digits (mem_of_mem_dropTrailingZeros hmem), first,
    others, hleft, hfirst⟩

end RedisSnapshot.Binary64
