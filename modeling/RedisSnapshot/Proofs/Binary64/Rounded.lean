import RedisSnapshot.Proofs.Binary64.Decimals
import RedisSnapshot.Proofs.Binary64.Written

/-!
# What is written rounds back

The interval of a magnitude ends half way to its neighbours, of which the one before is only half as
far away just below a power of two. So no magnitude is nearer to what lies in the interval, however it
is given as a ratio, and the digits that are found in the interval round to the magnitude.
-/

namespace RedisSnapshot.Binary64

/-! ### Ratios in an interval -/

/-- The ratio lies in the interval, and not on its ends if these do not belong to it. -/
structure Interval.Holds (interval : Interval) (numerator denominator : Nat) : Prop where
  low : interval.low * denominator ≤ numerator * one
  high : numerator * one ≤ interval.high * denominator
  inside : interval.closed = false →
    interval.low * denominator < numerator * one ∧ numerator * one < interval.high * denominator

theorem Interval.holds_of_containsOn {interval : Interval} {exponent : Int} {grid : Nat}
    (h : interval.containsOn exponent grid = true) :
    interval.Holds (grid * 10 ^ exponent.toNat) (10 ^ (-exponent).toNat) := by
  unfold containsOn contains at h
  dsimp only at h
  split at h
  · rename_i hclosed
    rw [Bool.and_eq_true, decide_eq_true_iff, decide_eq_true_iff] at h
    exact ⟨h.1, h.2, fun hopen => absurd (hclosed.symm.trans hopen) (by decide)⟩
  · rw [Bool.and_eq_true, decide_eq_true_iff, decide_eq_true_iff] at h
    exact ⟨Nat.le_of_lt h.1, Nat.le_of_lt h.2, fun _ => h⟩

/-- It does not matter how the ratio is given. -/
theorem Interval.Holds.of_eq {interval : Interval} {numerator denominator other below : Nat}
    (h : interval.Holds numerator denominator) (hdenominator : 0 < denominator)
    (heq : other * denominator = numerator * below) (hbelow : 0 < below) :
    interval.Holds other below := by
  have hplace : other * one * denominator = numerator * one * below := by
    rw [Nat.mul_right_comm, heq, Nat.mul_right_comm]
  have hscale : ∀ bound, bound * denominator * below = bound * below * denominator :=
    fun bound => Nat.mul_right_comm _ _ _
  refine ⟨?_, ?_, fun hopen => ⟨?_, ?_⟩⟩
  · refine Nat.le_of_mul_le_mul_right ?_ hdenominator
    rw [← hscale, hplace]
    exact Nat.mul_le_mul_right _ h.low
  · refine Nat.le_of_mul_le_mul_right ?_ hdenominator
    rw [← hscale, hplace]
    exact Nat.mul_le_mul_right _ h.high
  · refine Nat.lt_of_mul_lt_mul_right (a := denominator) ?_
    rw [← hscale, hplace]
    exact Nat.mul_lt_mul_of_pos_right (h.inside hopen).1 hbelow
  · refine Nat.lt_of_mul_lt_mul_right (a := denominator) ?_
    rw [← hscale, hplace]
    exact Nat.mul_lt_mul_of_pos_right (h.inside hopen).2 hbelow

section Magnitude

variable {x : Binary64} {numerator denominator : Nat}

theorem one_eq : one = unitsInOne * 4 := by
  have hpower : ∀ exponent, Nat.pow 2 (exponent + 2) = Nat.pow 2 exponent * 4 := fun exponent =>
    Nat.pow_add 2 exponent 2
  unfold one unitsInOne
  generalize hlow : 1074 = low
  generalize hhigh : 1076 = high
  have hsum : high = low + 2 := by omega
  rw [hsum, hpower]

/-- How far the interval reaches below the magnitude, in quarters of the spacing. -/
def margin (x : Binary64) : Nat :=
  if x.fraction = 0 ∧ 1 < x.exponentField then 1 else 2

theorem interval_low (x : Binary64) : x.interval.low = 4 * x.units - x.margin * x.spacing := by
  rw [interval, margin]
  split
  · rw [Nat.one_mul]
  · rfl

theorem margin_le (x : Binary64) : x.margin ≤ 2 := by
  unfold margin
  split <;> omega

theorem margin_spacing_le (hunits : 0 < x.units) : x.margin * x.spacing ≤ 2 * x.units :=
  Nat.mul_le_mul x.margin_le (Nat.le_mul_of_pos_left _ (Nat.pos_of_mul_pos_right hunits))

/-- The word of a number without its sign. -/
def word (x : Binary64) : Nat :=
  x.exponentField * Nat.pow 2 52 + x.fraction

theorem word_eq (x : Binary64) : x.word = (x.exponentField - 1) * Nat.pow 2 52 + x.significand := by
  have hpower : Nat.pow 2 52 = 4503599627370496 := rfl
  rw [word, significand, hpower]
  split
  · omega
  · omega

theorem significand_normal (x : Binary64) :
    x.exponentField - 1 = 0 ∨ 2 ^ 52 ≤ x.significand := by
  rw [significand]
  split
  · omega
  · exact .inr (Nat.le_add_right _ _)

theorem even_of_closed (h : x.interval.closed = true) : x.word % 2 = 0 := by
  have heven : x.significand % 2 = 0 := of_decide_eq_true h
  have hword : x.word = (x.exponentField - 1) * 2 ^ 52 + x.significand := x.word_eq
  rw [hword]
  omega

section Neighbours

variable (hfinite : x.exponentField < 2047)

include hfinite

theorem word_lt : x.word < infiniteWord := by
  have hfraction : x.fraction < 2 ^ 52 := Nat.mod_lt _ (by decide)
  change x.exponentField * 2 ^ 52 + x.fraction < 2047 * 2 ^ 52
  omega

theorem unitsOf_word : unitsOf x.word = x.units := by
  have hle := Nat.le_of_lt (word_lt hfinite)
  rw [word_eq] at hle ⊢
  exact unitsOf_eq x.significand_normal (Nat.le_of_lt (significand_lt x)) hle

/-- The next magnitude is as far away as the spacing says. -/
theorem unitsOf_word_succ : unitsOf (x.word + 1) = x.units + x.spacing := by
  have hle : x.word + 1 ≤ infiniteWord := word_lt hfinite
  rw [word_eq, Nat.add_assoc] at hle ⊢
  exact (unitsOf_eq (x.significand_normal.imp_right Nat.le_succ_of_le) (significand_lt x) hle).trans
    (Nat.succ_mul ..)

/-- The magnitude before is as far away, or half as far just below a power of two. -/
theorem exists_word_pred (hunits : 0 < x.units) :
    ∃ before, x.word = before + 1 ∧ 2 * unitsOf before + x.margin * x.spacing = 2 * x.units := by
  have hle : ∀ {before}, x.word = before + 1 → before ≤ infiniteWord := by
    intro before hword
    have hlt := word_lt hfinite
    rw [hword] at hlt
    exact Nat.le_of_lt (Nat.lt_of_succ_lt hlt)
  have hsignificand : 0 < x.significand := Nat.pos_of_mul_pos_right hunits
  have hmost := significand_lt x
  have hword : x.word = (x.exponentField - 1) * 2 ^ 52 + x.significand := x.word_eq
  rw [units, spacing, margin]
  by_cases hpower : x.fraction = 0 ∧ 1 < x.exponentField
  · have hvalue : x.significand = 2 ^ 52 := by
      rw [significand, if_neg (by omega), hpower.1]
      rfl
    obtain ⟨exponent, hexponent⟩ : ∃ exponent, x.exponentField - 1 = exponent + 1 :=
      ⟨x.exponentField - 2, by omega⟩
    have hbefore : x.word = exponent * 2 ^ 52 + (2 ^ 53 - 1) + 1 := by
      rw [hword, hexponent, hvalue]
      omega
    have hdouble : Nat.pow 2 (exponent + 1) = 2 * 2 ^ exponent := Nat.pow_succ'
    refine ⟨_, hbefore, ?_⟩
    rw [unitsOf_eq (.inr (by decide)) (by decide) (hle hbefore), if_pos hpower, hvalue, hexponent,
      hdouble]
    omega
  · have hnormal : x.exponentField - 1 = 0 ∨ 2 ^ 52 ≤ x.significand - 1 := by
      refine or_iff_not_imp_left.2 fun hexponent => ?_
      have hvalue : x.significand = 2 ^ 52 + x.fraction := if_neg (by omega)
      omega
    have hbefore : x.word = (x.exponentField - 1) * 2 ^ 52 + (x.significand - 1) + 1 := by
      rw [hword, Nat.add_assoc, Nat.sub_add_cancel hsignificand]
    refine ⟨_, hbefore, ?_⟩
    rw [unitsOf_eq hnormal (by omega) (hle hbefore), if_neg hpower]
    change 2 * ((x.significand - 1) * 2 ^ (x.exponentField - 1)) + 2 * 2 ^ (x.exponentField - 1) =
      2 * (x.significand * 2 ^ (x.exponentField - 1))
    rw [← Nat.mul_add, ← Nat.succ_mul, Nat.succ_eq_add_one, Nat.sub_add_cancel hsignificand]

/-- The ends of the interval are half way to the neighbours. -/
theorem exists_ends (hunits : 0 < x.units) :
    ∃ before, x.word = before + 1 ∧ x.interval.low = 2 * (unitsOf before + unitsOf x.word) ∧
      x.interval.high = 2 * (unitsOf x.word + unitsOf (x.word + 1)) := by
  obtain ⟨before, hbefore, hmargin⟩ := exists_word_pred hfinite hunits
  refine ⟨before, hbefore, ?_, ?_⟩
  · rw [interval_low, unitsOf_word hfinite]
    omega
  · rw [unitsOf_word hfinite, unitsOf_word_succ hfinite]
    change 4 * x.units + 2 * x.spacing = _
    omega

/-- **Whatever lies in the interval of a magnitude is nearest to it.** -/
theorem isNearest_of_holds (hunits : 0 < x.units) (hdenominator : 0 < denominator)
    (h : x.interval.Holds numerator denominator) : IsNearest numerator denominator x.word := by
  have hword := word_lt hfinite
  obtain ⟨before, hbefore, hlow, hhigh⟩ := exists_ends hfinite hunits
  have hplace : numerator * one = 2 * (2 * (numerator * unitsInOne)) := by
    rw [one_eq, ← Nat.mul_assoc, Nat.mul_comm, ← Nat.mul_assoc 2]
  have hbelow := unitsOf_mul_lt hdenominator (hbefore ▸ Nat.lt_add_one before) (Nat.le_of_lt hword)
  have habove := unitsOf_mul_lt hdenominator (Nat.lt_add_one x.word) hword
  obtain ⟨hfirst, hlast, hinside⟩ := h
  rw [hplace, hlow, Nat.mul_assoc, Nat.add_mul] at hfirst
  rw [hplace, hhigh, Nat.mul_assoc, Nat.add_mul] at hlast
  rw [hplace, hlow, hhigh, Nat.mul_assoc, Nat.mul_assoc, Nat.add_mul, Nat.add_mul] at hinside
  -- in a tie the ratio is on an end, which belongs to the interval only if the word is even
  have heven :
      2 * (numerator * unitsInOne) =
          unitsOf before * denominator + unitsOf x.word * denominator ∨
        2 * (numerator * unitsInOne) =
          unitsOf x.word * denominator + unitsOf (x.word + 1) * denominator →
      x.word % 2 = 0 := by
    intro htie
    refine even_of_closed (Bool.of_not_eq_false fun hopen => ?_)
    obtain ⟨hfirst, hlast⟩ := hinside hopen
    omega
  generalize x.word = word at *
  subst hbefore
  rcases Nat.lt_or_ge (numerator * unitsInOne) (unitsOf (before + 1) * denominator) with hlt | hge
  · refine isNearest_of_between hdenominator (Nat.lt_of_succ_lt hword) ?_ hlt (.inr ⟨rfl, ?_⟩)
      fun htie => heven (.inl htie)
    · omega
    · omega
  · refine isNearest_of_between hdenominator hword hge ?_ (.inl ⟨rfl, ?_⟩)
      fun htie => heven (.inr htie)
    · omega
    · omega

end Neighbours

/-! ### Decimals in an interval -/

theorem low_pos (hunits : 0 < x.units) : 1 ≤ x.interval.low := by
  have hmargin := margin_spacing_le hunits
  rw [interval_low]
  omega

theorem high_lt (hfinite : x.exponentField < 2047) : x.interval.high < 10 ^ 309 * one := by
  have hlarge : 2 ^ 55 * 2 ^ 2045 < 10 ^ 309 * one := by decide +kernel
  have hpower : ∀ bound, x.exponentField - 1 ≤ bound → x.spacing ≤ 2 ^ bound := fun bound =>
    Nat.pow_le_pow_right (by decide)
  have hspacing := hpower 2045 (by omega)
  have hscaled := Nat.mul_le_mul_right x.spacing (Nat.le_of_lt_succ (significand_lt x))
  refine Nat.lt_of_le_of_lt (Nat.le_trans ?_ (Nat.mul_le_mul_left _ hspacing)) hlarge
  change 4 * (x.significand * x.spacing) + 2 * x.spacing ≤ _
  omega

/-- No decimal of an interval is beyond the range in which digits matter. -/
theorem point_bounds (hfinite : x.exponentField < 2047) (hunits : 0 < x.units) {exponent : Int}
    {grid : Nat} (hgrid : 0 < grid) (h : x.interval.containsOn exponent grid = true) :
    -330 ≤ exponent + (Decimal.digits grid).length ∧
      exponent + (Decimal.digits grid).length ≤ 310 := by
  obtain ⟨hlow, hhigh, -⟩ := Interval.holds_of_containsOn h
  have hpower : ∀ {low high : Nat}, 10 ^ low < 10 ^ high → low < high := fun hlt =>
    (Nat.pow_lt_pow_iff_right (by decide)).1 hlt
  have hup : 0 < 10 ^ (-exponent).toNat := Nat.pow_pos (by decide)
  constructor
  · have hsmall : one < 10 ^ 324 := by decide +kernel
    have hlt : 10 ^ (-exponent).toNat <
        10 ^ ((Decimal.digits grid).length + exponent.toNat + 324) :=
      calc 10 ^ (-exponent).toNat ≤ x.interval.low * 10 ^ (-exponent).toNat :=
            Nat.le_mul_of_pos_left _ (low_pos hunits)
        _ ≤ grid * 10 ^ exponent.toNat * one := hlow
        _ ≤ 10 ^ (Decimal.digits grid).length * 10 ^ exponent.toNat * one :=
            Nat.mul_le_mul_right _ (Nat.mul_le_mul_right _ (Nat.le_of_lt (Decimal.lt_pow_length grid)))
        _ < 10 ^ (Decimal.digits grid).length * 10 ^ exponent.toNat * 10 ^ 324 :=
            Nat.mul_lt_mul_of_pos_left hsmall (Nat.mul_pos (Nat.pow_pos (by decide)) (Nat.pow_pos (by decide)))
        _ = 10 ^ ((Decimal.digits grid).length + exponent.toNat + 324) := by
            rw [Nat.pow_add, Nat.pow_add]
    have hexponent := hpower hlt
    omega
  · have hlt : 10 ^ ((Decimal.digits grid).length - 1 + exponent.toNat) <
        10 ^ (309 + (-exponent).toNat) := by
      refine Nat.lt_of_mul_lt_mul_right (a := one) ?_
      calc 10 ^ ((Decimal.digits grid).length - 1 + exponent.toNat) * one
          = 10 ^ ((Decimal.digits grid).length - 1) * 10 ^ exponent.toNat * one := by
            rw [Nat.pow_add]
        _ ≤ grid * 10 ^ exponent.toNat * one :=
            Nat.mul_le_mul_right _ (Nat.mul_le_mul_right _ (Decimal.pow_length_le hgrid))
        _ ≤ x.interval.high * 10 ^ (-exponent).toNat := hhigh
        _ < 10 ^ 309 * one * 10 ^ (-exponent).toNat :=
            Nat.mul_lt_mul_of_pos_right (high_lt hfinite) hup
        _ = 10 ^ (309 + (-exponent).toNat) * one := by
            rw [Nat.pow_add, Nat.mul_right_comm]
    have hexponent := hpower hlt
    omega

theorem shortest_point (hfinite : x.exponentField < 2047) (hunits : 0 < x.units) (tie : Tie) :
    -330 ≤ (x.shortest tie).point ∧ (x.shortest tie).point ≤ 310 := by
  obtain ⟨exponent, grid, hgrid, hcontains, hshortest⟩ := shortest_spec hunits tie
  rw [hshortest]
  exact point_bounds hfinite hunits hgrid hcontains

theorem valueOf_zeros (digits : List Nat) (count : Nat) :
    Decimal.valueOf (digits ++ List.replicate count 0) = Decimal.valueOf digits * 10 ^ count := by
  induction count with
  | zero => rw [List.replicate_zero, List.append_nil, Nat.pow_zero, Nat.mul_one]
  | succ count ih =>
      rw [List.replicate_succ', ← List.append_assoc, Decimal.valueOf_concat, ih, Nat.pow_succ,
        Nat.add_zero, Nat.mul_comm 10, Nat.mul_assoc]

/-- The digits that a magnitude is written with round to it. -/
theorem wordOfDecimal_of_shows (hfinite : x.exponentField < 2047) (hunits : 0 < x.units) {tie : Tie}
    {written : Written} (h : written.Shows (x.shortest tie)) :
    wordOfDecimal (written.whole ++ written.part) written.exponent = x.word := by
  obtain ⟨exponent, grid, -, hcontains, hshortest⟩ := shortest_spec hunits tie
  obtain ⟨before, behind, hall, hexponent⟩ := h.exists_zeros
  have hlt := h.lt (isLeading_shortest hunits tie).lt
  obtain ⟨count, hcount⟩ := exists_zeros (Decimal.digits grid)
  have hpoint : (x.shortest tie).point = exponent + (Decimal.digits grid).length := by
    rw [hshortest]
  have hdigits : (x.shortest tie).digits = dropTrailingZeros (Decimal.digits grid) := by
    rw [hshortest]
  rw [← hdigits] at hcount
  generalize x.shortest tie = number at *
  obtain ⟨digits, point⟩ := number
  dsimp only at *
  have hlength : (Decimal.digits grid).length = digits.length + count := by
    rw [hcount, List.length_append, List.length_replicate]
  have hvalue : grid = Decimal.valueOf digits * 10 ^ count := by
    rw [← valueOf_zeros, ← hcount, Decimal.valueOf_digits]
  refine (wordOfDecimal_eq_iff hlt).2 (isNearest_of_holds hfinite hunits (Nat.pow_pos (by decide))
    ((Interval.holds_of_containsOn hcontains).of_eq (Nat.pow_pos (by decide)) ?_
      (Nat.pow_pos (by decide))))
  have hpowers : behind + written.exponent.toNat + (-exponent).toNat =
      count + exponent.toNat + (-written.exponent).toNat := by
    omega
  rw [hall, List.append_assoc, Decimal.valueOf_replicate_append, valueOf_zeros, hvalue,
    Nat.mul_assoc, Nat.mul_assoc, Nat.mul_assoc, Nat.mul_assoc, ← Nat.mul_assoc (10 ^ behind),
    ← Nat.mul_assoc (10 ^ count), ← Nat.pow_add, ← Nat.pow_add, ← Nat.pow_add, ← Nat.pow_add,
    hpowers]

end Magnitude

end RedisSnapshot.Binary64
