import RedisSnapshot.Proofs.Binary64.Denoted
import RedisSnapshot.Proofs.Binary64.Rounded

/-!
# Numbers are read back from their text

The text of a finite number is read as the number itself, with its sign: digits around a point are
taken for what they are, and so is an exponent, which is never so large that digits of it no longer
count. What the digits say then rounds to the number that they were made from.
-/

namespace RedisSnapshot.Binary64

/-! ### Magnitudes -/

theorem amounts_digits {n : Nat} (h : n < 0x10000) : Amounts (Decimal.digits n) n := by
  have hvalue := Decimal.valueOf_digits n
  refine ⟨Decimal.digits n, [], (List.append_nil _).symm, hvalue.symm, ?_, .inl rfl⟩
  exact Nat.lt_of_le_of_lt (Decimal.valueOf_dropLast_le _) (hvalue.symm ▸ h)

theorem powerForm_powerText {power : Option Int}
    (h : ∀ exponent ∈ power, exponent.natAbs < 0x10000) :
    PowerForm (power.getD 0) (Written.powerText power) := by
  cases power with
  | none => exact .none
  | some power =>
      have hdigits : DigitsForm (Decimal.digits power.natAbs) (Decimal.chars power.natAbs) :=
        ⟨fun _ => Decimal.lt_of_mem_digits, rfl⟩
      have hmarked : ∀ {negative : Bool} {sign : Char}, SignForm negative [sign] →
          PowerForm (if negative then -(power.natAbs : Int) else power.natAbs)
            ('e' :: sign :: Decimal.chars power.natAbs) := fun hsign =>
        .marked (.inl rfl)
          (.mk hsign hdigits (Decimal.digits_ne_nil _) (amounts_digits (h power rfl)))
      rw [Option.getD_some, Written.powerText]
      by_cases hnegative : power < 0
      · have hvalue : -(power.natAbs : Int) = power := by omega
        have hform := hmarked .minus
        rw [if_pos rfl, hvalue] at hform
        rw [if_pos hnegative]
        exact hform
      · have hvalue : (power.natAbs : Int) = power := by omega
        have hform := hmarked .plus
        rw [if_neg Bool.false_ne_true, hvalue] at hform
        rw [if_neg hnegative]
        exact hform

/-- The digits on both sides of the point are read, and the exponent. -/
theorem magnitude?_written {whole part : List Nat} {power : Option Int}
    (hwhole : ∀ digit ∈ whole, digit < 10) (hpart : ∀ digit ∈ part, digit < 10)
    (hsome : whole ≠ []) (hsmall : ∀ exponent ∈ power, exponent.natAbs < 0x10000) :
    magnitude? (Written.text ⟨whole, part, power⟩) =
      some (wordOfDecimal (whole ++ part) (power.getD 0 - part.length)) := by
  have hpoint : PointForm whole part (whole.map Nat.digitChar ++
      if part = [] then [] else '.' :: part.map Nat.digitChar) := by
    by_cases hnone : part = []
    · rw [hnone, if_pos rfl, List.append_nil]
      exact .whole ⟨hwhole, rfl⟩ hsome
    · rw [if_neg hnone]
      exact .pointed ⟨hwhole, rfl⟩ ⟨hpart, rfl⟩ (List.append_ne_nil_of_left_ne_nil hsome _)
  exact magnitude?_eq_some_iff.2
    (.mk hpoint (powerForm_powerText hsmall) ((wordOfDecimal_eq_iff hpoint.lt).1 rfl))

/-! ### Numbers -/

section Number

variable {x : Binary64}

/-- A number is its sign and the word of its magnitude. -/
theorem ofMagnitude_word (x : Binary64) : ofMagnitude x.isNegative x.word = x := by
  obtain ⟨bits⟩ := x
  have hlt : bits.toNat < 18446744073709551616 := bits.toNat_lt
  have hword : word ⟨bits⟩ =
      bits.toNat / 4503599627370496 % 2048 * 4503599627370496 + bits.toNat % 4503599627370496 :=
    rfl
  have hnegative : isNegative ⟨bits⟩ = decide (9223372036854775808 ≤ bits.toNat) := rfl
  have hvalue : (if isNegative ⟨bits⟩ then Nat.pow 2 63 + word ⟨bits⟩ else word ⟨bits⟩) =
      bits.toNat := by
    have hpower : Nat.pow 2 63 = 9223372036854775808 := rfl
    rw [hnegative, hword, hpower]
    split
    · rename_i hlarge
      have hbits := of_decide_eq_true hlarge
      omega
    · rename_i hsmall
      have hbits := of_decide_eq_false (Bool.eq_false_iff.2 hsmall)
      omega
  rw [ofMagnitude, hvalue, UInt64.ofNat_toNat]

theorem exponentField_lt (hnan : x.isNaN = false) (hinfinite : x.isInfinite = false) :
    x.exponentField < 2047 := by
  have hlt : x.exponentField < 2048 := Nat.mod_lt _ (by decide)
  have hne : x.exponentField ≠ 2047 := by
    intro hfield
    rw [isNaN, hfield] at hnan
    rw [isInfinite, hfield] at hinfinite
    simp_all
  omega

theorem word_eq_zero (h : x.units = 0) : x.word = 0 := by
  have hsignificand : x.significand = 0 :=
    (Nat.mul_eq_zero.1 h).resolve_right (Nat.ne_of_gt (spacing_pos x))
  have hexponent : x.exponentField = 0 := by
    refine by_contra fun hne => ?_
    rw [significand, if_neg hne] at hsignificand
    exact absurd (Nat.eq_zero_of_add_eq_zero hsignificand).1 (by decide)
  rw [word_eq, hsignificand, hexponent]

/-- What a number is written as behind its sign is read as the word of its magnitude. -/
theorem magnitude?_json (hfinite : x.exponentField < 2047) :
    ∃ first rest, IsDigit first ∧
      (if x.units = 0 then "0" ++ json.whole else json.place (x.shortest json.tie)).toList =
        first :: rest ∧
      magnitude? (first :: rest) = some x.word := by
  by_cases hunits : x.units = 0
  · rw [if_pos hunits, word_eq_zero hunits]
    exact ⟨'0', ['.', '0'], ⟨0, by decide, rfl⟩, rfl, rfl⟩
  · have hpositive := Nat.pos_of_ne_zero hunits
    have hleading := isLeading_shortest hpositive json.tie
    obtain ⟨⟨whole, part, power⟩, htext, hshows⟩ := exists_written hleading
    have hword := wordOfDecimal_of_shows hfinite hpositive hshows
    obtain ⟨hwhole, hpart⟩ := List.forall_mem_append.1 (hshows.lt hleading.lt)
    obtain ⟨hsmall, hlarge⟩ := shortest_point hfinite hpositive json.tie
    obtain ⟨first, rest, hcons, -⟩ := hshows.exists_cons
    change whole = first :: rest at hcons
    subst hcons
    have hread := magnitude?_written hwhole hpart (List.cons_ne_nil _ _) fun exponent hexponent => by
      rw [hshows.power exponent hexponent]
      omega
    obtain ⟨others, hothers⟩ : ∃ others,
        Written.text ⟨first :: rest, part, power⟩ = Nat.digitChar first :: others := ⟨_, rfl⟩
    rw [if_neg hunits, htext, hothers]
    refine ⟨_, _, ⟨first, hwhole first List.mem_cons_self, rfl⟩, rfl, ?_⟩
    rw [← hothers, hread]
    exact congrArg some hword

/-- **A finite number is read back from its text.** -/
theorem read?_json_text (hnan : x.isNaN = false) (hinfinite : x.isInfinite = false) :
    read? (json.text x).toList = some x := by
  obtain ⟨first, rest, hfirst, htext, hmagnitude⟩ :=
    magnitude?_json (exponentField_lt hnan hinfinite)
  have hsign : ∀ negative, unsigned? negative (first :: rest) =
      some (ofMagnitude negative x.word) := fun negative => by
    rw [unsigned?_of_not_letter hfirst.not_mem.2, hmagnitude]
    rfl
  have hrecovered := ofMagnitude_word x
  rw [Layout.text, hnan, hinfinite, if_neg Bool.false_ne_true, if_neg Bool.false_ne_true,
    String.toList_append, htext]
  cases hnegative : x.isNegative with
  | false =>
      rw [hnegative] at hrecovered
      change read? (first :: rest) = _
      rw [read?_of_not_sign hfirst.not_mem.1, hsign, hrecovered]
  | true =>
      rw [hnegative] at hrecovered
      change unsigned? true (first :: rest) = _
      rw [hsign, hrecovered]

end Number

end RedisSnapshot.Binary64
