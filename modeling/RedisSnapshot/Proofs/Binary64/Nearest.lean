import Mathlib.Data.Nat.Dist
import RedisSnapshot.Binary64.Rounding

/-!
# The magnitude nearest to a ratio

The words of the magnitudes are in order of size, from zero to the infinite magnitude, which takes
the place of the power of two that would follow the greatest finite one. A ratio lies between two
neighbours among them, and its word is that of the nearer one, or of the even one if they are equally
near. No other word is nearest, so this says everything about the word.
-/

namespace RedisSnapshot.Binary64

/-- Units in one. -/
def unitsInOne : Nat :=
  Nat.pow 2 1074

/-- The magnitude that a word is of, in units. -/
def unitsOf (word : Nat) : Nat :=
  (ofMagnitude false word).units

/-- The word is that of the magnitude nearest to a ratio, and even if another one is as near. -/
structure IsNearest (numerator denominator word : Nat) : Prop where
  le : word ≤ infiniteWord
  dist_le : ∀ other ≤ infiniteWord,
    Nat.dist (unitsOf word * denominator) (numerator * unitsInOne) ≤
      Nat.dist (unitsOf other * denominator) (numerator * unitsInOne)
  even : ∀ other ≤ infiniteWord, other ≠ word →
    Nat.dist (unitsOf other * denominator) (numerator * unitsInOne) =
      Nat.dist (unitsOf word * denominator) (numerator * unitsInOne) → word % 2 = 0

/-! ### Words in order -/

theorem toNat_ofMagnitude {word : Nat} (h : word ≤ infiniteWord) :
    (ofMagnitude false word).bits.toNat = word :=
  Nat.mod_eq_of_lt (Nat.lt_of_le_of_lt h (by decide))

/-- The exponent field and the fraction of a word. -/
theorem unitsOf_fields {field fraction : Nat} (hfield : field ≤ 2047)
    (hfraction : fraction < 2 ^ 52) (hle : field * 2 ^ 52 + fraction ≤ infiniteWord) :
    unitsOf (field * 2 ^ 52 + fraction) =
      (if field = 0 then fraction else 2 ^ 52 + fraction) * 2 ^ (field - 1) := by
  have hbits := toNat_ofMagnitude hle
  obtain ⟨x, hx⟩ : ∃ x, x = ofMagnitude false (field * 2 ^ 52 + fraction) := ⟨_, rfl⟩
  rw [← hx] at hbits
  have hexponent : x.exponentField = field := by
    change x.bits.toNat / 2 ^ 52 % 2 ^ 11 = field
    omega
  have hrest : x.fraction = fraction := by
    change x.bits.toNat % 2 ^ 52 = fraction
    omega
  rw [unitsOf, ← hx, units, significand, spacing, hexponent, hrest]
  rfl

/-- A significand that is doubled so often, up to the first one that has a binary digit too many. -/
theorem unitsOf_eq {doublings significand : Nat} (hnormal : doublings = 0 ∨ 2 ^ 52 ≤ significand)
    (hmost : significand ≤ 2 ^ 53) (hle : doublings * 2 ^ 52 + significand ≤ infiniteWord) :
    unitsOf (doublings * 2 ^ 52 + significand) = significand * 2 ^ doublings := by
  have hlimit : infiniteWord = 2047 * 2 ^ 52 := rfl
  rcases Nat.lt_or_ge significand (2 ^ 52) with hsmall | hlarge
  · obtain rfl := hnormal.resolve_right (Nat.not_le.2 hsmall)
    rw [unitsOf_fields (by decide) hsmall hle, if_pos rfl]
  · rcases Nat.lt_or_ge significand (2 ^ 53) with hlt | hge
    · have hword : doublings * 2 ^ 52 + significand =
          (doublings + 1) * 2 ^ 52 + (significand - 2 ^ 52) := by
        omega
      rw [hword, unitsOf_fields (by omega) (by omega) (hword ▸ hle), if_neg (Nat.succ_ne_zero _),
        Nat.add_sub_cancel, Nat.add_sub_cancel' hlarge]
    · have hword : doublings * 2 ^ 52 + significand = (doublings + 2) * 2 ^ 52 + 0 := by
        omega
      have hsignificand : significand = 2 ^ 52 * 2 := by
        omega
      rw [hword, unitsOf_fields (by omega) (by decide) (hword ▸ hle), if_neg (Nat.succ_ne_zero _),
        hsignificand, Nat.mul_assoc, ← Nat.pow_succ']
      rfl

theorem unitsOf_infiniteWord {last : Nat} (h : last = 2046) :
    unitsOf infiniteWord = 2 ^ 52 * 2 ^ last := by
  have hlimit : infiniteWord = 2047 * 2 ^ 52 := rfl
  have hword : infiniteWord = last * 2 ^ 52 + 2 ^ 52 := by omega
  rw [hword]
  exact unitsOf_eq (.inr (Nat.le_refl _)) (by decide) (Nat.le_of_eq hword.symm)

/-- A word tells a significand and how often it is doubled. -/
theorem exists_significand (word : Nat) :
    ∃ doublings significand, word = doublings * 2 ^ 52 + significand ∧
      (doublings = 0 ∨ 2 ^ 52 ≤ significand) ∧ significand < 2 ^ 53 := by
  refine ⟨word / 2 ^ 52 - 1, word - (word / 2 ^ 52 - 1) * 2 ^ 52, ?_, ?_, ?_⟩
  · omega
  · omega
  · omega

theorem unitsOf_lt_succ {word : Nat} (h : word < infiniteWord) :
    unitsOf word < unitsOf (word + 1) := by
  obtain ⟨doublings, significand, rfl, hnormal, hlt⟩ := exists_significand word
  rw [Nat.add_assoc, unitsOf_eq hnormal (Nat.le_of_lt hlt) (Nat.le_of_lt h),
    unitsOf_eq (hnormal.imp_right Nat.le_succ_of_le) hlt h]
  exact Nat.mul_lt_mul_of_pos_right (Nat.lt_succ_self _) (Nat.two_pow_pos _)

theorem unitsOf_lt {first second : Nat} (hlt : first < second) (hle : second ≤ infiniteWord) :
    unitsOf first < unitsOf second := by
  induction second, hlt using Nat.le_induction with
  | base => exact unitsOf_lt_succ hle
  | succ second _ ih => exact Nat.lt_trans (ih (Nat.le_of_lt hle)) (unitsOf_lt_succ hle)

/-! ### Between two neighbours -/

section Neighbours

variable {numerator denominator word other : Nat}

theorem unitsOf_mul_lt (hpositive : 0 < denominator) (hlt : word < other)
    (hle : other ≤ infiniteWord) : unitsOf word * denominator < unitsOf other * denominator :=
  Nat.mul_lt_mul_of_pos_right (unitsOf_lt hlt hle) hpositive

theorem unitsOf_mul_cases (hpositive : 0 < denominator) (hfinite : word < infiniteWord)
    (hother : other ≤ infiniteWord) :
    other = word ∨ other = word + 1 ∨
      unitsOf other * denominator < unitsOf word * denominator ∨
      unitsOf (word + 1) * denominator < unitsOf other * denominator := by
  rcases Nat.lt_trichotomy other word with hbelow | rfl | habove
  · exact .inr (.inr (.inl (unitsOf_mul_lt hpositive hbelow (Nat.le_of_lt hfinite))))
  · exact .inl rfl
  · rcases Nat.eq_or_lt_of_le (Nat.succ_le_of_lt habove) with hnext | hbeyond
    · exact .inr (.inl hnext.symm)
    · exact .inr (.inr (.inr (unitsOf_mul_lt hpositive hbeyond hother)))

/-- Of two neighbours with the ratio between them it is enough to look at these two. -/
theorem isNearest_of_between {chosen : Nat} (hpositive : 0 < denominator)
    (hfinite : word < infiniteWord)
    (hlow : unitsOf word * denominator ≤ numerator * unitsInOne)
    (hhigh : numerator * unitsInOne < unitsOf (word + 1) * denominator)
    (hchosen : chosen = word ∧ 2 * (numerator * unitsInOne) ≤
        unitsOf word * denominator + unitsOf (word + 1) * denominator ∨
      chosen = word + 1 ∧ unitsOf word * denominator + unitsOf (word + 1) * denominator ≤
        2 * (numerator * unitsInOne))
    (heven : 2 * (numerator * unitsInOne) =
        unitsOf word * denominator + unitsOf (word + 1) * denominator → chosen % 2 = 0) :
    IsNearest numerator denominator chosen := by
  refine ⟨?_, fun other hother => ?_, fun other hother hne hdist => ?_⟩
  · rcases hchosen with ⟨rfl, -⟩ | ⟨rfl, -⟩
    · exact Nat.le_of_lt hfinite
    · exact hfinite
  · have hposition := unitsOf_mul_cases hpositive hfinite hother
    unfold Nat.dist
    rcases hchosen with ⟨rfl, hnear⟩ | ⟨rfl, hnear⟩
    · rcases hposition with rfl | rfl | hbelow | habove <;> omega
    · rcases hposition with rfl | rfl | hbelow | habove <;> omega
  · have hposition := unitsOf_mul_cases hpositive hfinite hother
    unfold Nat.dist at hdist
    rcases hchosen with ⟨rfl, hnear⟩ | ⟨rfl, hnear⟩
    · rcases hposition with rfl | rfl | hbelow | habove
      · exact absurd rfl hne
      · exact heven (by omega)
      · omega
      · omega
    · rcases hposition with rfl | rfl | hbelow | habove
      · exact heven (by omega)
      · exact absurd rfl hne
      · omega
      · omega

/-- Beyond all magnitudes the infinite one is nearest. -/
theorem isNearest_infiniteWord (hpositive : 0 < denominator)
    (h : unitsOf infiniteWord * denominator ≤ numerator * unitsInOne) :
    IsNearest numerator denominator infiniteWord := by
  refine ⟨Nat.le_refl _, fun other hother => ?_, fun _ _ _ _ => by decide⟩
  unfold Nat.dist
  rcases Nat.eq_or_lt_of_le hother with rfl | hlt
  · exact Nat.le_refl _
  · have hbelow := unitsOf_mul_lt hpositive hlt (Nat.le_refl _)
    omega

/-- No two words are nearest: between two that are even there is another one. -/
theorem IsNearest.unique (hpositive : 0 < denominator)
    (hword : IsNearest numerator denominator word)
    (hother : IsNearest numerator denominator other) : word = other := by
  have hle : ∀ {word other}, IsNearest numerator denominator word →
      IsNearest numerator denominator other → other ≤ word := by
    intro word other hword hother
    by_contra hnot
    have hlt : word < other := Nat.lt_of_not_le hnot
    have hdist := Nat.le_antisymm (hword.dist_le other hother.le) (hother.dist_le word hword.le)
    have heven := hword.even other hother.le (Nat.ne_of_gt hlt) hdist.symm
    have heven' := hother.even word hword.le (Nat.ne_of_lt hlt) hdist
    have hbetween : word + 1 < other := by omega
    have hmiddle : word + 1 ≤ infiniteWord := Nat.le_trans (Nat.le_of_lt hbetween) hother.le
    have hlow := unitsOf_mul_lt hpositive (Nat.lt_add_one word) hmiddle
    have hhigh := unitsOf_mul_lt hpositive hbetween hother.le
    have hnear := hword.dist_le (word + 1) hmiddle
    unfold Nat.dist at hdist hnear
    omega
  exact Nat.le_antisymm (hle hother hword) (hle hword hother)

/-! ### Ratios -/

theorem roundDiv_cases (numerator denominator : Nat) :
    (roundDiv numerator denominator = numerator / denominator ∧
      2 * (numerator % denominator) ≤ denominator ∧
      (2 * (numerator % denominator) = denominator → numerator / denominator % 2 = 0)) ∨
    (roundDiv numerator denominator = numerator / denominator + 1 ∧
      denominator ≤ 2 * (numerator % denominator) ∧
      (2 * (numerator % denominator) = denominator → (numerator / denominator + 1) % 2 = 0)) := by
  unfold roundDiv
  dsimp only
  split
  · exact .inl ⟨rfl, by omega, by omega⟩
  · split
    · exact .inr ⟨rfl, by omega, by omega⟩
    · rcases Nat.mod_two_eq_zero_or_one (numerator / denominator) with heven | hodd
      · exact .inl ⟨by omega, by omega, fun _ => heven⟩
      · exact .inr ⟨by omega, by omega, by omega⟩

/-- The spacing that a ratio is rounded to is told by its binary digits. -/
theorem wordOfRatio_spec (hpositive : 0 < denominator) (numerator : Nat) :
    ∃ doublings,
      (doublings = 0 ∨ 2 ^ 52 * (2 ^ doublings * denominator) ≤ numerator * unitsInOne) ∧
        numerator * unitsInOne < 2 ^ 53 * (2 ^ doublings * denominator) ∧
          wordOfRatio numerator denominator = min infiniteWord (doublings * 2 ^ 52 +
            roundDiv (numerator * unitsInOne) (2 ^ doublings * denominator)) := by
  obtain ⟨quotient, hquotient⟩ : ∃ quotient, quotient = numerator * unitsInOne / denominator :=
    ⟨_, rfl⟩
  have hscale : ∀ digits doublings, 2 ^ digits * (2 ^ doublings * denominator) =
      2 ^ (digits + doublings) * denominator := fun digits doublings => by
    rw [← Nat.mul_assoc, ← Nat.pow_add]
  refine ⟨Nat.log2 quotient - 52, ?_, ?_, ?_⟩
  · refine or_iff_not_imp_left.2 fun hsome => ?_
    have hne : quotient ≠ 0 := by
      rintro rfl
      exact hsome rfl
    rw [hscale, ← Nat.le_div_iff_mul_le hpositive, ← hquotient]
    exact (Nat.le_log2 hne).1 (by omega)
  · rw [hscale, ← Nat.div_lt_iff_lt_mul hpositive, ← hquotient]
    exact Nat.lt_of_lt_of_le Nat.lt_log2_self (Nat.pow_le_pow_right (by decide) (by omega))
  · rw [hquotient, Nat.mul_comm _ denominator]
    unfold wordOfRatio unitsInOne
    rfl

/-- **The word of a ratio** is that of the magnitude nearest to it. -/
theorem isNearest_wordOfRatio (hpositive : 0 < denominator) :
    IsNearest numerator denominator (wordOfRatio numerator denominator) := by
  obtain ⟨doublings, hlow, hhigh, hword⟩ := wordOfRatio_spec hpositive numerator
  rw [hword]
  obtain ⟨step, hstep⟩ : ∃ step, step = 2 ^ doublings * denominator := ⟨_, rfl⟩
  obtain ⟨quotient, hquotient⟩ : ∃ quotient, quotient = numerator * unitsInOne / step := ⟨_, rfl⟩
  have hstepPositive : 0 < step := hstep ▸ Nat.mul_pos (Nat.pow_pos (by decide)) hpositive
  have hdivision := Nat.div_add_mod' (numerator * unitsInOne) step
  have hremainder := Nat.mod_lt (numerator * unitsInOne) hstepPositive
  have hround := roundDiv_cases (numerator * unitsInOne) step
  rw [← hstep] at hlow hhigh ⊢
  rw [← hquotient] at hdivision hround
  have hmost : quotient < 2 ^ 53 := hquotient ▸ (Nat.div_lt_iff_lt_mul hstepPositive).2 hhigh
  have hleast : doublings = 0 ∨ 2 ^ 52 ≤ quotient :=
    hlow.imp_right fun hle => hquotient ▸ (Nat.le_div_iff_mul_le hstepPositive).2 hle
  rcases Nat.lt_or_ge (doublings * 2 ^ 52 + quotient) infiniteWord with hfinite | hbeyond
  · have hbelow : unitsOf (doublings * 2 ^ 52 + quotient) * denominator = quotient * step := by
      rw [unitsOf_eq hleast (Nat.le_of_lt hmost) (Nat.le_of_lt hfinite), hstep, Nat.mul_assoc]
    have habove : unitsOf (doublings * 2 ^ 52 + quotient + 1) * denominator =
        quotient * step + step := by
      rw [Nat.add_assoc, unitsOf_eq (hleast.imp_right Nat.le_succ_of_le) hmost hfinite, hstep,
        Nat.mul_assoc, ← Nat.succ_mul]
    rw [Nat.min_eq_right (by omega)]
    refine isNearest_of_between hpositive hfinite ?_ ?_ ?_ ?_
    · omega
    · omega
    · rw [hbelow, habove]
      omega
    · rw [hbelow, habove]
      omega
  · rw [Nat.min_eq_left (by omega)]
    refine isNearest_infiniteWord hpositive ?_
    obtain ⟨last, hlast⟩ : ∃ last, last = 2046 := ⟨_, rfl⟩
    have hlimit : infiniteWord = 2047 * 2 ^ 52 := rfl
    have hspacing : 2 ^ last * denominator ≤ step := by
      rw [hstep]
      exact Nat.mul_le_mul_right _ (Nat.pow_le_pow_right (by decide) (by omega))
    calc unitsOf infiniteWord * denominator = 2 ^ 52 * (2 ^ last * denominator) := by
          rw [unitsOf_infiniteWord hlast, Nat.mul_assoc]
      _ ≤ quotient * step := Nat.mul_le_mul (by omega) hspacing
      _ ≤ numerator * unitsInOne := by omega

theorem wordOfRatio_eq_iff (hpositive : 0 < denominator) :
    wordOfRatio numerator denominator = word ↔ IsNearest numerator denominator word := by
  constructor
  · rintro rfl
    exact isNearest_wordOfRatio hpositive
  · exact (isNearest_wordOfRatio hpositive).unique hpositive

end Neighbours

end RedisSnapshot.Binary64
