import RedisSnapshot.Proofs.Binary64.Nearest
import RedisSnapshot.Proofs.Binary64.Shortest

/-!
# Decimals of any size

A decimal that begins too far in front of its point is beyond all finite magnitudes, and one that
begins too far behind it is nearer to zero than to anything else. The digits of such a decimal are
not looked at, but they would not make a difference: whatever a decimal is, it is rounded as the
ratio that it is.
-/

namespace RedisSnapshot.Binary64

/-- The word is that of the magnitude nearest to so many digits and a power of ten. -/
def IsNearestDecimal (digits : List Nat) (exponent : Int) (word : Nat) : Prop :=
  IsNearest (Decimal.valueOf digits * 10 ^ exponent.toNat) (10 ^ (-exponent).toNat) word

/-- The word of the ratio that digits and a power of ten are. -/
def exactWord (digits : List Nat) (exponent : Int) : Nat :=
  wordOfRatio (Decimal.valueOf digits * 10 ^ exponent.toNat) (10 ^ (-exponent).toNat)

section Ratios

variable {numerator denominator : Nat}

/-- Less than half a unit is rounded to zero. -/
theorem wordOfRatio_of_small (h : 2 * (numerator * unitsInOne) < denominator) :
    wordOfRatio numerator denominator = 0 := by
  have hpositive : 0 < denominator := Nat.zero_lt_of_lt h
  have hzero : unitsOf 0 * denominator = 0 := Nat.zero_mul _
  have hone : unitsOf (0 + 1) * denominator = denominator := Nat.one_mul _
  refine (wordOfRatio_eq_iff hpositive).2 (isNearest_of_between hpositive (by decide) ?_ ?_
    (.inl ⟨rfl, ?_⟩) fun _ => rfl)
  · omega
  · omega
  · omega

/-- What has more than so many digits in front of its point is beyond all finite magnitudes. -/
theorem wordOfRatio_of_large (hpositive : 0 < denominator)
    (h : 10 ^ 310 * denominator ≤ numerator) :
    wordOfRatio numerator denominator = infiniteWord := by
  have hunits : unitsOf infiniteWord ≤ 10 ^ 310 * unitsInOne := by decide +kernel
  refine (wordOfRatio_eq_iff hpositive).2 (isNearest_infiniteWord hpositive ?_)
  calc unitsOf infiniteWord * denominator ≤ 10 ^ 310 * unitsInOne * denominator :=
        Nat.mul_le_mul_right _ hunits
    _ = 10 ^ 310 * denominator * unitsInOne := Nat.mul_right_comm _ _ _
    _ ≤ numerator * unitsInOne := Nat.mul_le_mul_right _ h

end Ratios

theorem IsLeading.dropWhile_zeros {digits : List Nat} (h : IsLeading digits) (before : Nat) :
    (List.replicate before 0 ++ digits).dropWhile (· == 0) = digits := by
  obtain ⟨first, rest, rfl, hfirst⟩ := h.exists_cons
  rw [List.dropWhile_append_of_pos fun digit hmem => beq_iff_eq.2 (List.eq_of_mem_replicate hmem),
    List.dropWhile_cons_of_neg (by simpa using Nat.ne_of_gt hfirst)]

theorem IsLeading.isEmpty_eq_false {digits : List Nat} (h : IsLeading digits) :
    digits.isEmpty = false := by
  obtain ⟨first, rest, rfl, -⟩ := h.exists_cons
  rfl

/-- All digits but the zeros in front of them. -/
theorem exists_leading {digits : List Nat} (h : ∀ digit ∈ digits, digit < 10) :
    ∃ before leading, digits = List.replicate before 0 ++ leading ∧
      (leading = [] ∨ IsLeading leading) := by
  induction digits with
  | nil => exact ⟨0, [], rfl, .inl rfl⟩
  | cons digit digits ih =>
      obtain ⟨hdigit, hdigits⟩ := List.forall_mem_cons.1 h
      by_cases hzero : digit = 0
      · obtain ⟨before, leading, rfl, hleading⟩ := ih hdigits
        exact ⟨before + 1, leading, by rw [hzero, List.replicate_succ, List.cons_append], hleading⟩
      · exact ⟨0, digit :: digits, rfl, .inr ⟨h, digit, digits, rfl, Nat.pos_of_ne_zero hzero⟩⟩

section Leading

variable {digits : List Nat} {exponent : Int}

/-- Digits far behind the point are rounded to nothing. -/
theorem exactWord_of_small (h : IsLeading digits) (hsmall : digits.length + exponent < -330) :
    exactWord digits exponent = 0 := by
  have hvalue := Decimal.valueOf_lt h.lt
  have hratio : ∀ places, 2 * unitsInOne ≤ 10 ^ places →
      digits.length + places ≤ (-exponent).toNat →
        2 * (Decimal.valueOf digits * unitsInOne) < 10 ^ (-exponent).toNat :=
    fun places hunits hplaces =>
    calc 2 * (Decimal.valueOf digits * unitsInOne)
        = Decimal.valueOf digits * (2 * unitsInOne) := Nat.mul_left_comm _ _ _
      _ < 10 ^ digits.length * 10 ^ places :=
          Nat.mul_lt_mul_of_lt_of_le hvalue hunits (Nat.pow_pos (by decide))
      _ = 10 ^ (digits.length + places) := (Nat.pow_add ..).symm
      _ ≤ 10 ^ (-exponent).toNat := Nat.pow_le_pow_right (by decide) hplaces
  have hexponent : exponent.toNat = 0 := by omega
  refine wordOfRatio_of_small ?_
  rw [hexponent, Nat.pow_zero, Nat.mul_one]
  exact hratio 325 (by decide +kernel) (by omega)

/-- Digits far in front of the point are too large. -/
theorem exactWord_of_large (h : IsLeading digits) (hlarge : 310 < digits.length + exponent) :
    exactWord digits exponent = infiniteWord := by
  obtain ⟨first, rest, rfl, hfirst⟩ := h.exists_cons
  have hvalue := Decimal.pow_length_le_valueOf hfirst rest
  rw [List.length_cons] at hlarge
  have hratio : ∀ places, places + (-exponent).toNat ≤ rest.length + exponent.toNat →
      10 ^ places * 10 ^ (-exponent).toNat ≤
        Decimal.valueOf (first :: rest) * 10 ^ exponent.toNat := fun places hplaces =>
    calc 10 ^ places * 10 ^ (-exponent).toNat = 10 ^ (places + (-exponent).toNat) :=
          (Nat.pow_add ..).symm
      _ ≤ 10 ^ (rest.length + exponent.toNat) := Nat.pow_le_pow_right (by decide) hplaces
      _ = 10 ^ rest.length * 10 ^ exponent.toNat := Nat.pow_add ..
      _ ≤ Decimal.valueOf (first :: rest) * 10 ^ exponent.toNat := Nat.mul_le_mul_right _ hvalue
  exact wordOfRatio_of_large (Nat.pow_pos (by decide)) (hratio 310 (by omega))

end Leading

/-- What a decimal is rounded to, if it is neither too large nor too small for that. Zeros in front
of its digits do not matter. -/
theorem wordOfDecimal_eq {digits : List Nat} (h : IsLeading digits) (before : Nat) {exponent : Int}
    (hsmall : -330 ≤ digits.length + exponent) (hlarge : digits.length + exponent ≤ 310) :
    wordOfDecimal (List.replicate before 0 ++ digits) exponent =
      wordOfRatio (Decimal.valueOf digits * 10 ^ exponent.toNat) (10 ^ (-exponent).toNat) := by
  unfold wordOfDecimal
  dsimp only
  rw [h.dropWhile_zeros, h.isEmpty_eq_false, if_neg (by simpa using hsmall), if_neg (by omega)]
  split
  · rename_i hexponent
    have hzero : (-exponent).toNat = 0 := by omega
    rw [hzero]
    rfl
  · rename_i hexponent
    have hzero : exponent.toNat = 0 := by omega
    rw [hzero, Nat.pow_zero, Nat.mul_one]
    rfl

theorem wordOfDecimal_eq_exactWord {digits : List Nat} (h : ∀ digit ∈ digits, digit < 10)
    (exponent : Int) : wordOfDecimal digits exponent = exactWord digits exponent := by
  obtain ⟨before, leading, rfl, rfl | hleading⟩ := exists_leading h
  · have hzeros : (List.replicate before 0).dropWhile (· == 0) = [] := by
      refine List.dropWhile_eq_nil_iff.2 fun digit hmem => ?_
      exact beq_iff_eq.2 (List.eq_of_mem_replicate hmem)
    have hword : exactWord (List.replicate before 0 ++ []) exponent = 0 := by
      refine wordOfRatio_of_small ?_
      rw [Decimal.valueOf_replicate_append]
      change 2 * (0 * 10 ^ exponent.toNat * unitsInOne) < 10 ^ (-exponent).toNat
      rw [Nat.zero_mul, Nat.zero_mul]
      exact Nat.pow_pos (by decide)
    rw [hword, List.append_nil]
    unfold wordOfDecimal
    dsimp only
    rw [hzeros, if_pos (.inl rfl)]
  · rw [exactWord, Decimal.valueOf_replicate_append, ← exactWord]
    by_cases hsmall : leading.length + exponent < -330
    · rw [exactWord_of_small hleading hsmall]
      unfold wordOfDecimal
      dsimp only
      rw [hleading.dropWhile_zeros, if_pos (.inr hsmall)]
    · by_cases hlarge : 310 < leading.length + exponent
      · rw [exactWord_of_large hleading hlarge]
        unfold wordOfDecimal
        dsimp only
        rw [hleading.dropWhile_zeros, hleading.isEmpty_eq_false, if_neg (by simpa using hsmall),
          if_pos hlarge]
      · exact wordOfDecimal_eq hleading before (Int.not_lt.1 hsmall) (Int.not_lt.1 hlarge)

/-- **Every decimal is rounded to the nearest magnitude.** -/
theorem wordOfDecimal_eq_iff {digits : List Nat} (h : ∀ digit ∈ digits, digit < 10)
    {exponent : Int} {word : Nat} :
    wordOfDecimal digits exponent = word ↔ IsNearestDecimal digits exponent word := by
  rw [wordOfDecimal_eq_exactWord h]
  exact wordOfRatio_eq_iff (Nat.pow_pos (by decide))

end RedisSnapshot.Binary64
