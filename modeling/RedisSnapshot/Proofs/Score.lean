import Mathlib.Data.List.Basic
import Mathlib.Data.List.TakeWhile
import RedisSnapshot.Binary64.Layout
import RedisSnapshot.Binary64.Reading
import RedisSnapshot.Proofs.Binary64.Shortest
import RedisSnapshot.Text.Utf8

/-!
# The text of a score is a number

Whoever is given the text of a score can read it as a number again, unless the score is none. The
text is the name of an infinity or a numeral: digits, or digits around a point with at least one in
front of it. A numeral has none of the letters that the names have, and no magnitude that is read
from one is beyond the infinite one.
-/

namespace RedisSnapshot.Binary64

/-! ### Numerals -/

def IsDigit (char : Char) : Prop :=
  ∃ digit < 10, char = Nat.digitChar digit

namespace IsDigit

variable {char : Char}

theorem isDigit (h : IsDigit char) : char.isDigit = true := by
  have hall : ∀ digit < 10, (Nat.digitChar digit).isDigit = true := by decide
  obtain ⟨digit, hdigit, rfl⟩ := h
  exact hall digit hdigit

theorem toNat_lt (h : IsDigit char) : char.toNat < 128 := by
  have hall : ∀ digit < 10, (Nat.digitChar digit).toNat < 128 := by decide
  obtain ⟨digit, hdigit, rfl⟩ := h
  exact hall digit hdigit

/-- No digit is a sign or begins a name. -/
theorem not_mem (h : IsDigit char) : char ∉ ['+', '-'] ∧ char.toLower ∉ ['n', 'i'] := by
  have hall : ∀ digit < 10, Nat.digitChar digit ∉ ['+', '-'] ∧
      (Nat.digitChar digit).toLower ∉ ['n', 'i'] := by decide
  obtain ⟨digit, hdigit, rfl⟩ := h
  exact hall digit hdigit

end IsDigit

inductive Numeral : List Char → Prop where
  | whole {digits : List Char} (hdigits : ∀ char ∈ digits, IsDigit char) (hsome : digits ≠ []) :
      Numeral digits
  | pointed {front back : List Char} (hfront : ∀ char ∈ front, IsDigit char) (hsome : front ≠ [])
      (hback : ∀ char ∈ back, IsDigit char) : Numeral (front ++ '.' :: back)

namespace Numeral

variable {text : List Char}

theorem exists_cons (h : Numeral text) : ∃ first rest, text = first :: rest ∧ IsDigit first := by
  cases h with
  | whole hdigits hsome =>
      obtain ⟨first, rest, rfl⟩ := List.exists_cons_of_ne_nil hsome
      exact ⟨first, rest, rfl, hdigits first List.mem_cons_self⟩
  | pointed hfront hsome =>
      obtain ⟨first, rest, rfl⟩ := List.exists_cons_of_ne_nil hsome
      exact ⟨first, _, rfl, hfront first List.mem_cons_self⟩

theorem toNat_lt (h : Numeral text) : ∀ char ∈ text, char.toNat < 128 := by
  cases h with
  | whole hdigits => exact fun char hmem => (hdigits char hmem).toNat_lt
  | pointed hfront _ hback =>
      intro char hmem
      rcases List.mem_append.1 hmem with hmem | hmem
      · exact (hfront char hmem).toNat_lt
      · rcases List.mem_cons.1 hmem with rfl | hmem
        · decide
        · exact (hback char hmem).toNat_lt

end Numeral

/-- What has a property ends where something comes that has it not. -/
theorem span_append {p : Char → Bool} {text rest : List Char} (h : ∀ char ∈ text, p char = true)
    (hrest : ∀ char ∈ rest.head?, p char = false) :
    (text ++ rest).takeWhile p = text ∧ (text ++ rest).dropWhile p = rest := by
  rw [List.takeWhile_append_of_pos h, List.dropWhile_append_of_pos h]
  cases rest with
  | nil => simp
  | cons first rest =>
      have hfirst := hrest first rfl
      simp [hfirst]

theorem takeDigits_append {front rest : List Char} (h : ∀ char ∈ front, IsDigit char)
    (hrest : ∀ char ∈ rest.head?, char.isDigit = false) :
    takeDigits (front ++ rest) = (front.map fun digit => digit.toNat - 48, rest) := by
  obtain ⟨htake, hdrop⟩ := span_append (fun char hmem => (h char hmem).isDigit) hrest
  rw [takeDigits, htake, hdrop]

theorem takeDigits_digits {digits : List Char} (h : ∀ char ∈ digits, IsDigit char) :
    takeDigits digits = (digits.map fun digit => digit.toNat - 48, []) := by
  have htake := @takeDigits_append _ [] h fun _ hchar => by cases hchar
  rwa [List.append_nil] at htake

theorem takeDigits_point {front : List Char} (h : ∀ char ∈ front, IsDigit char)
    (back : List Char) :
    takeDigits (front ++ '.' :: back) = (front.map fun digit => digit.toNat - 48, '.' :: back) :=
  takeDigits_append h fun char hchar => by
    rw [← Option.some.inj hchar]
    rfl

/-! ### Magnitudes -/

theorem wordOfDecimal_le (digits : List Nat) (exponent : Int) :
    wordOfDecimal digits exponent ≤ infiniteWord := by
  have hratio : ∀ numerator denominator, wordOfRatio numerator denominator ≤ infiniteWord :=
    fun _ _ => Nat.min_le_left _ _
  unfold wordOfDecimal
  dsimp only
  split
  · exact Nat.zero_le _
  · split
    · exact Nat.le_refl _
    · split <;> exact hratio _ _

theorem magnitude?_of_point {text rest : List Char} {whole part : List Nat}
    (h : takePoint text = (whole, part, rest)) (hsome : whole ++ part ≠ []) :
    magnitude? text =
      (power? rest).map fun power => wordOfDecimal (whole ++ part) (power - part.length) := by
  have hdigits : ¬ (whole.isEmpty && part.isEmpty) = true := by
    rw [Bool.and_eq_true, List.isEmpty_iff, List.isEmpty_iff, ← List.append_eq_nil_iff]
    exact hsome
  rw [magnitude?, h]
  exact if_neg hdigits

theorem magnitude?_numeral {text : List Char} (h : Numeral text) :
    ∃ word ≤ infiniteWord, magnitude? text = some word := by
  have hword : ∀ {whole part : List Nat}, takePoint text = (whole, part, []) → whole ≠ [] →
      ∃ word ≤ infiniteWord, magnitude? text = some word := fun hpoint hsome =>
    ⟨_, wordOfDecimal_le _ _,
      magnitude?_of_point hpoint (List.append_ne_nil_of_left_ne_nil hsome _)⟩
  cases h with
  | whole hdigits hsome =>
      have hpoint : takePoint text = (text.map fun digit => digit.toNat - 48, [], []) := by
        rw [takePoint, takeDigits_digits hdigits]
      exact hword hpoint (mt List.map_eq_nil_iff.1 hsome)
  | @pointed front back hfront hsome hback =>
      have hpoint : takePoint (front ++ '.' :: back) = (front.map fun digit => digit.toNat - 48,
          back.map fun digit => digit.toNat - 48, []) := by
        rw [takePoint, takeDigits_point hfront, ← takeDigits_digits hback]
        rfl
      exact hword hpoint (mt List.map_eq_nil_iff.1 hsome)

theorem isNaN_ofMagnitude (negative : Bool) {word : Nat} (h : word ≤ infiniteWord) :
    (ofMagnitude negative word).isNaN = false := by
  have hword : word ≤ 9218868437227405312 := h
  have hbits : (ofMagnitude negative word).bits.toNat =
      if negative then 9223372036854775808 + word else word := by
    cases negative
    · exact Nat.mod_eq_of_lt (by omega : word < 18446744073709551616)
    · exact Nat.mod_eq_of_lt (by omega : 9223372036854775808 + word < 18446744073709551616)
  -- A magnitude whose exponent is all ones is the infinite one, which has no fraction.
  have hzero : (ofMagnitude negative word).exponentField = 2047 →
      (ofMagnitude negative word).fraction = 0 := by
    change (ofMagnitude negative word).bits.toNat / 4503599627370496 % 2048 = 2047 →
      (ofMagnitude negative word).bits.toNat % 4503599627370496 = 0
    rw [hbits]
    split <;> omega
  rw [isNaN, Bool.and_eq_false_iff, beq_eq_false_iff_ne, bne_eq_false_iff_eq]
  by_cases hexponent : (ofMagnitude negative word).exponentField = 2047
  · exact .inr (hzero hexponent)
  · exact .inl hexponent

/-- What begins with another letter is no name. -/
theorem unsigned?_of_not_letter {first : Char} (h : first.toLower ∉ ['n', 'i']) (negative : Bool)
    (rest : List Char) :
    unsigned? negative (first :: rest) =
      (magnitude? (first :: rest)).map (ofMagnitude negative) := by
  have hname : ∀ letter ∈ ['n', 'i'], ∀ name,
      (first :: rest).map Char.toLower ≠ letter :: name := by
    intro letter hletter name hsame
    rw [List.map_cons, List.cons.injEq] at hsame
    exact h (hsame.1 ▸ hletter)
  simp only [unsigned?]
  rw [if_neg (hname 'n' (by decide) _),
    if_neg (not_or.2 ⟨hname 'i' (by decide) _, hname 'i' (by decide) _⟩)]

theorem unsigned?_numeral (negative : Bool) {text : List Char} (h : Numeral text) :
    ∃ x, unsigned? negative text = some x ∧ x.isNaN = false := by
  obtain ⟨word, hword, hmagnitude⟩ := magnitude?_numeral h
  obtain ⟨first, rest, rfl, hfirst⟩ := h.exists_cons
  refine ⟨_, ?_, isNaN_ofMagnitude negative hword⟩
  rw [unsigned?_of_not_letter hfirst.not_mem.2, hmagnitude]
  rfl

theorem read?_of_not_sign {first : Char} (h : first ∉ ['+', '-']) (rest : List Char) :
    read? (first :: rest) = unsigned? false (first :: rest) := by
  unfold read?
  split
  · exact absurd (by simp_all) h
  · exact absurd (by simp_all) h
  · rfl

/-! ### What is written -/

theorem isDigit_digitChar {digits : List Nat} (h : ∀ digit ∈ digits, digit < 10) :
    ∀ char ∈ digits.map Nat.digitChar, IsDigit char := by
  intro char hmem
  obtain ⟨digit, hdigit, rfl⟩ := List.mem_map.1 hmem
  exact ⟨digit, h digit hdigit, rfl⟩

theorem isDigit_zeros (count : Int) : ∀ char ∈ zeros count, IsDigit char :=
  fun _ hmem => ⟨0, by decide, (List.mem_replicate.1 hmem).2⟩

theorem toList_append_ofList (text : String) (chars : List Char) :
    (text ++ String.ofList chars).toList = text.toList ++ chars := by
  rw [String.toList_append, String.toList_ofList]

theorem place_score_numeral {number : Digits} (h : ∀ digit ∈ number.digits, digit < 10) :
    Numeral (score.place number).toList := by
  have hdigits := isDigit_digitChar h
  have hlength : (number.digits.map Nat.digitChar).length = number.digits.length :=
    List.length_map _
  have hplain : score.positional (number.point - 1) = true := rfl
  rw [Layout.place, if_pos hplain]
  split
  · rw [toList_append_ofList]
    change Numeral (zeros 1 ++ '.' :: (zeros _ ++ _))
    exact .pointed (isDigit_zeros 1) (List.cons_ne_nil _ _)
      (List.forall_mem_append.2 ⟨isDigit_zeros _, hdigits⟩)
  · rename_i hpoint
    split
    · rw [String.toList_append, String.toList_ofList]
      change Numeral (_ ++ [])
      rw [List.append_nil]
      refine .whole (List.forall_mem_append.2 ⟨hdigits, isDigit_zeros _⟩) fun hnone => ?_
      have hcount := congrArg List.length hnone
      rw [List.length_append, zeros, List.length_replicate, hlength, List.length_nil] at hcount
      omega
    · rename_i hinside
      rw [toList_append_ofList, String.toList_append, String.toList_ofList, List.append_assoc]
      change Numeral (_ ++ '.' :: _)
      refine .pointed (fun char hmem => hdigits char (List.mem_of_mem_take hmem)) (fun hnone => ?_)
        fun char hmem => hdigits char (List.mem_of_mem_drop hmem)
      have hcount := congrArg List.length hnone
      rw [List.length_take, List.length_nil] at hcount
      omega

theorem searchGrids_digits_lt {interval : Interval} {tie : Tie} {point : Int} (left count : Nat) :
    ∀ digit ∈ (searchGrids interval tie point left count).digits, digit < 10 := by
  induction left generalizing count with
  | zero => nofun
  | succ left ih =>
      rw [searchGrids]
      split
      · exact fun digit hmem => Decimal.lt_of_mem_digits (mem_of_mem_dropTrailingZeros hmem)
      · exact ih (count + 1)

/-- What stands behind the sign of a score. -/
def IsUnsigned (text : List Char) : Prop :=
  text = ['i', 'n', 'f'] ∨ Numeral text

namespace IsUnsigned

variable {text : List Char}

theorem exists_cons (h : IsUnsigned text) :
    ∃ first rest, text = first :: rest ∧ first ∉ ['+', '-'] := by
  rcases h with rfl | hnumeral
  · exact ⟨'i', _, rfl, by decide⟩
  · obtain ⟨first, rest, rfl, hfirst⟩ := hnumeral.exists_cons
    exact ⟨first, rest, rfl, hfirst.not_mem.1⟩

theorem toNat_lt (h : IsUnsigned text) : ∀ char ∈ text, char.toNat < 128 := by
  rcases h with rfl | hnumeral
  · have hall : ['i', 'n', 'f'].all (fun char => char.toNat < 128) = true := by decide
    exact fun char hmem => of_decide_eq_true (List.all_eq_true.1 hall char hmem)
  · exact hnumeral.toNat_lt

theorem unsigned? (h : IsUnsigned text) (negative : Bool) :
    ∃ x, unsigned? negative text = some x ∧ x.isNaN = false := by
  rcases h with rfl | hnumeral
  · exact ⟨infinity negative, rfl, isNaN_ofMagnitude negative (Nat.le_refl _)⟩
  · exact unsigned?_numeral negative hnumeral

end IsUnsigned

theorem score_text {x : Binary64} (h : x.isNaN = false) :
    ∃ sign text, (sign = [] ∨ sign = ['-']) ∧ IsUnsigned text ∧
      (score.text x).toList = sign ++ text := by
  refine ⟨(if x.isNegative then "-" else "").toList, _, ?_, ?_,
    by rw [Layout.text, h, if_neg Bool.false_ne_true, String.toList_append]⟩
  · split
    · exact .inr rfl
    · exact .inl rfl
  · split
    · exact .inl rfl
    · refine .inr ?_
      split
      · exact .whole (isDigit_zeros 1) (List.cons_ne_nil _ _)
      · exact place_score_numeral (searchGrids_digits_lt 17 1)

/-- **The text of a score is read as a number**, if the score is one. -/
theorem read?_score_text {x : Binary64} (h : x.isNaN = false) :
    ∃ found, read? (score.text x).toList = some found ∧ found.isNaN = false := by
  obtain ⟨sign, text, hsign, htext, hscore⟩ := score_text h
  rw [hscore]
  obtain ⟨first, rest, rfl, hfirst⟩ := htext.exists_cons
  rcases hsign with rfl | rfl
  · rw [List.nil_append, read?_of_not_sign hfirst]
    exact htext.unsigned? false
  · exact htext.unsigned? true

theorem toNat_lt_of_mem_score_text {x : Binary64} (h : x.isNaN = false) :
    ∀ char ∈ (score.text x).toList, char.toNat < 128 := by
  obtain ⟨sign, text, hsign, htext, hscore⟩ := score_text h
  rw [hscore]
  refine List.forall_mem_append.2 ⟨?_, htext.toNat_lt⟩
  rcases hsign with rfl | rfl
  · exact List.forall_mem_nil _
  · exact List.forall_mem_singleton.2 (by decide)

end RedisSnapshot.Binary64

/-- A character of seven bits is one byte. -/
theorem RedisSnapshot.Text.chars_bytes {text : String}
    (h : ∀ char ∈ text.toList, char.toNat < 128) :
    (bytes text).map (fun byte => Char.ofNat byte.toNat) = text.toList := by
  rw [bytes, List.map_flatMap]
  have hchar : ∀ char ∈ text.toList,
      (String.utf8EncodeChar char).map (fun byte => Char.ofNat byte.toNat) = [char] := by
    intro char hmem
    have hlow : char.toNat < 128 := h char hmem
    have hencoded : String.utf8EncodeChar char = [UInt8.ofNat char.toNat] :=
      if_pos (Nat.le_of_lt_succ hlow)
    rw [hencoded, List.map_singleton, Word.toNat_byte (by omega), Char.ofNat_toNat]
  rw [List.flatMap_congr hchar, List.flatMap_singleton']
