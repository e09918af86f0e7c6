import Mathlib.Algebra.Group.Nat.Defs
import Mathlib.Data.List.Induction
import RedisSnapshot.Decimal
import RedisSnapshot.Proofs.Forms.Word

/-!
# Decimal text is read back

A number that has been written is read again as the same number. The text has nothing but digits,
at least one of them, so it begins with no sign and ends at whatever is no digit. How many digits there
are tells the power of ten that the number is next to.
-/

namespace RedisSnapshot.Decimal

theorem digit_value {digit : Nat} (h : digit < 10) :
    digit? (UInt8.ofNat (48 + digit)) = some digit := by
  have hbyte : (UInt8.ofNat (48 + digit)).toNat = 48 + digit := Word.toNat_byte (by omega)
  have hrange : 48 ≤ UInt8.ofNat (48 + digit) ∧ UInt8.ofNat (48 + digit) ≤ 57 := by
    rw [UInt8.le_iff_toNat_le, UInt8.le_iff_toNat_le, hbyte]
    exact ⟨Nat.le_add_right .., by change 48 + digit ≤ 57; omega⟩
  rw [digit?, if_pos hrange, hbyte, Nat.add_sub_cancel_left]

theorem lt_of_mem_digits {n digit : Nat} (h : digit ∈ digits n) : digit < 10 := by
  induction n using Nat.strongRecOn with
  | _ n ih =>
      rw [digits] at h
      split at h
      · rename_i hsmall
        rw [List.mem_singleton.1 h]
        exact hsmall
      · rcases List.mem_append.1 h with h | h
        · exact ih (n / 10) (by omega) h
        · rw [List.mem_singleton.1 h]
          exact Nat.mod_lt n (by decide)

theorem digits_ne_nil (n : Nat) : digits n ≠ [] := by
  rw [digits]
  split
  · exact List.cons_ne_nil _ _
  · exact List.append_ne_nil_of_right_ne_nil _ (List.cons_ne_nil _ _)

/-- The number that digits write, the most significant first. -/
def valueOf (digits : List Nat) : Nat :=
  digits.foldl (fun value digit => 10 * value + digit) 0

theorem valueOf_concat (digits : List Nat) (digit : Nat) :
    valueOf (digits ++ [digit]) = 10 * valueOf digits + digit := by
  rw [valueOf, List.foldl_append]
  rfl

theorem valueOf_dropLast_le (digits : List Nat) : valueOf digits.dropLast ≤ valueOf digits := by
  induction digits using List.reverseRecOn with
  | nil => exact Nat.le_refl _
  | append_singleton digits digit _ =>
      rw [List.dropLast_concat, valueOf_concat]
      omega

theorem valueOf_digits (n : Nat) : valueOf (digits n) = n := by
  induction n using Nat.strongRecOn with
  | _ n ih =>
      rw [digits]
      split
      · exact Nat.zero_add n
      · rw [valueOf_concat, ih (n / 10) (by omega), Nat.div_add_mod]

theorem valueOf_lt {digits : List Nat} (h : ∀ digit ∈ digits, digit < 10) :
    valueOf digits < 10 ^ digits.length := by
  induction digits using List.reverseRecOn with
  | nil => exact Nat.one_pos
  | append_singleton digits digit ih =>
      obtain ⟨hdigits, hdigit⟩ := List.forall_mem_append.1 h
      have hfront := ih hdigits
      have hlast := hdigit digit (List.mem_singleton.2 rfl)
      rw [valueOf_concat, List.length_append, List.length_singleton, Nat.pow_succ]
      omega

theorem pow_length_le_valueOf {first : Nat} (h : 0 < first) (rest : List Nat) :
    10 ^ rest.length ≤ valueOf (first :: rest) := by
  induction rest using List.reverseRecOn with
  | nil =>
      change 1 ≤ 10 * 0 + first
      omega
  | append_singleton rest digit ih =>
      rw [← List.cons_append, valueOf_concat, List.length_append, List.length_singleton,
        Nat.pow_succ]
      omega

/-- Zeros in front do not matter. -/
theorem valueOf_replicate_append (before : Nat) (digits : List Nat) :
    valueOf (List.replicate before 0 ++ digits) = valueOf digits := by
  induction before with
  | zero => rfl
  | succ before ih => exact ih

theorem lt_pow_length (n : Nat) : n < 10 ^ (digits n).length := by
  induction n using Nat.strongRecOn with
  | _ n ih =>
      rw [digits]
      split
      · rename_i hsmall
        exact hsmall
      · have hfront := ih (n / 10) (by omega)
        rw [List.length_append, List.length_singleton, Nat.pow_succ]
        omega

theorem pow_length_le {n : Nat} (h : 0 < n) : 10 ^ ((digits n).length - 1) ≤ n := by
  induction n using Nat.strongRecOn with
  | _ n ih =>
      rw [digits]
      split
      · exact h
      · have hfront := ih (n / 10) (by omega) (by omega)
        have hlength : (digits (n / 10)).length = (digits (n / 10)).length - 1 + 1 :=
          (Nat.sub_add_cancel (List.length_pos_iff.2 (digits_ne_nil _))).symm
        rw [List.length_append, List.length_singleton, Nat.add_sub_cancel, hlength, Nat.pow_succ]
        omega

/-- No zero stands in front of other digits. -/
theorem head_digits {n : Nat} (h : 0 < n) : ∃ first rest, digits n = first :: rest ∧ 0 < first := by
  induction n using Nat.strongRecOn with
  | _ n ih =>
      rw [digits]
      split
      · exact ⟨n, [], rfl, h⟩
      · obtain ⟨first, rest, hfront, hfirst⟩ := ih (n / 10) (by omega) (by omega)
        rw [hfront]
        exact ⟨first, rest ++ [n % 10], rfl, hfirst⟩

theorem map_digitChar {digits : List Nat} (h : ∀ digit ∈ digits, digit < 10) :
    (digits.map Nat.digitChar).map (fun char => char.toNat - 48) = digits := by
  have hall : ∀ digit < 10, (Nat.digitChar digit).toNat - 48 = digit := by decide
  rw [List.map_map]
  exact (List.map_congr_left fun digit hmem => hall digit (h digit hmem)).trans (List.map_id _)

theorem chars_injective : Function.Injective chars := by
  have hdigits : ∀ n, (chars n).map (fun char => char.toNat - 48) = digits n := fun _ =>
    map_digitChar fun _ => lt_of_mem_digits
  intro m n h
  rw [← valueOf_digits m, ← valueOf_digits n, ← hdigits, ← hdigits, h]

theorem bytes_eq (n : Nat) :
    bytes n = if n < 10 then [UInt8.ofNat (48 + n)]
      else bytes (n / 10) ++ [UInt8.ofNat (48 + n % 10)] := by
  rw [bytes, digits]
  split
  · rfl
  · rw [List.map_append]
    rfl

theorem bytes_ne_nil (n : Nat) : bytes n ≠ [] := by
  rw [bytes_eq]
  split
  · exact List.cons_ne_nil _ _
  · exact List.append_ne_nil_of_right_ne_nil _ (List.cons_ne_nil _ _)

theorem digit?_of_mem_bytes {n : Nat} {byte : UInt8} (h : byte ∈ bytes n) :
    (digit? byte).isSome = true := by
  induction n using Nat.strongRecOn with
  | _ n ih =>
      rw [bytes_eq] at h
      split at h
      · rename_i hsmall
        rw [List.mem_singleton.1 h, digit_value hsmall]
        rfl
      · rcases List.mem_append.1 h with h | h
        · exact ih (n / 10) (by omega) h
        · rw [List.mem_singleton.1 h, digit_value (Nat.mod_lt n (by decide))]
          rfl

theorem nat?_bytes (n : Nat) : nat? (bytes n) = some n := by
  have hempty : (bytes n).isEmpty = false := List.isEmpty_eq_false_iff.2 (bytes_ne_nil n)
  rw [nat?, hempty, if_neg Bool.false_ne_true]
  induction n using Nat.strongRecOn with
  | _ n ih =>
      rw [bytes_eq]
      split
      · rename_i hsmall
        rw [List.foldl_cons, List.foldl_nil, digit_value hsmall]
        change some (10 * 0 + n) = some n
        rw [Nat.mul_zero, Nat.zero_add]
      · rename_i hlarge
        rw [List.foldl_append, ih (n / 10) (by omega)
            (List.isEmpty_eq_false_iff.2 (bytes_ne_nil _)), List.foldl_cons, List.foldl_nil,
          digit_value (Nat.mod_lt n (by decide))]
        change some (10 * (n / 10) + n % 10) = some n
        rw [Nat.div_add_mod]

/-- What is read as a digit is no sign. -/
theorem bytes_cons (n : Nat) :
    ∃ first rest, bytes n = first :: rest ∧ first ≠ 43 ∧ first ≠ 45 := by
  cases hbytes : bytes n with
  | nil => exact absurd hbytes (bytes_ne_nil n)
  | cons first rest =>
      have hdigit : (digit? first).isSome = true :=
        digit?_of_mem_bytes (n := n) (hbytes ▸ List.mem_cons_self)
      refine ⟨first, rest, rfl, ?_, ?_⟩
      · rintro rfl
        cases hdigit
      · rintro rfl
        cases hdigit

theorem signed?_intBytes {m : Int} (hlow : -(Word.count 63 : Int) ≤ m)
    (hhigh : m < Word.count 63) : signed? 64 (intBytes m) = some m := by
  have hrange : decide (-(Word.count (64 - 1) : Int) ≤ m ∧ m < Word.count (64 - 1)) = true :=
    decide_eq_true ⟨hlow, hhigh⟩
  cases m with
  | ofNat n =>
      obtain ⟨first, rest, hbytes, hplus, hminus⟩ := bytes_cons n
      have hread : signed? 64 (bytes n) = ((nat? (bytes n)).map fun n => (n : Int)).filter
          fun n => -(Word.count (64 - 1) : Int) ≤ n ∧ n < Word.count (64 - 1) := by
        unfold signed?
        split
        · rename_i hfirst
          rw [hbytes] at hfirst
          exact absurd (List.cons.inj hfirst).1 hminus
        · rename_i hfirst
          rw [hbytes] at hfirst
          exact absurd (List.cons.inj hfirst).1 hplus
        · rfl
      rw [intBytes, hread, nat?_bytes]
      exact Option.filter_some_pos hrange
  | negSucc n =>
      have hread : signed? 64 (45 :: bytes (n + 1)) =
          ((nat? (bytes (n + 1))).map fun n => -(n : Int)).filter
            fun n => -(Word.count (64 - 1) : Int) ≤ n ∧ n < Word.count (64 - 1) := rfl
      rw [intBytes, hread, nat?_bytes]
      exact Option.filter_some_pos hrange

theorem nat?_of_not_digit {byte : UInt8} (h : digit? byte = none) (rest : Bytes) :
    nat? (byte :: rest) = none := by
  have hnone : ∀ text : Bytes, text.foldl (fun (value : Option Nat) byte =>
      return 10 * (← value) + (← digit? byte)) none = none := by
    intro text
    induction text with
    | nil => rfl
    | cons byte text ih => exact ih
  rw [nat?, if_neg (by simp), List.foldl_cons, h]
  exact hnone rest

section Words

variable {bits n : Nat}

theorem natural?_eq_some_iff (found : Option Nat) :
    Option.filter (fun m => -(Word.count (bits - 1) : Int) ≤ m ∧ m < Word.count (bits - 1))
        (found.map fun m => (m : Int)) = some (n : Int) ↔
      n < Word.count (bits - 1) ∧ found = some n := by
  cases found with
  | none => simp
  | some m =>
      simp [Option.filter]
      omega

theorem negated?_ne_some (hpos : 0 < n) (found : Option Nat) :
    Option.filter (fun m => -(Word.count (bits - 1) : Int) ≤ m ∧ m < Word.count (bits - 1))
        (found.map fun m => -(m : Int)) ≠ some (n : Int) := by
  intro h
  obtain ⟨hmap, _⟩ := Option.filter_eq_some_iff.1 h
  cases found with
  | none => cases hmap
  | some m =>
      simp at hmap
      omega

/-- The positive numbers of a signed word are written with a plus sign or with none. -/
theorem signed?_eq_some_iff {text : Bytes} (hpos : 0 < n) :
    signed? bits text = some (n : Int) ↔
      n < Word.count (bits - 1) ∧
        ∃ sign digits, text = sign ++ digits ∧ (sign = [] ∨ sign = [43]) ∧
          nat? digits = some n := by
  -- A sign is no digit, so a text that begins with one is not digits alone.
  have hsign : ∀ {byte rest sign digits}, digit? byte = none → byte :: rest = sign ++ digits →
      (sign = [] ∨ sign = [43]) → nat? digits = some n → byte = 43 ∧ rest = digits := by
    rintro byte rest sign digits hbyte htext (rfl | rfl) hdigits
    · rw [List.nil_append] at htext
      rw [← htext, nat?_of_not_digit hbyte] at hdigits
      cases hdigits
    · exact List.cons.inj htext
  unfold signed?
  split
  · constructor
    · intro h
      exact absurd h (negated?_ne_some hpos _)
    · rintro ⟨_, sign, digits, htext, hform, hdigits⟩
      exact absurd (hsign (by decide) htext hform hdigits).1 (by decide)
  · rename_i rest
    rw [natural?_eq_some_iff]
    refine and_congr_right fun _ => ⟨fun h => ⟨[43], rest, rfl, .inr rfl, h⟩, ?_⟩
    rintro ⟨sign, digits, htext, hform, hdigits⟩
    rw [(hsign (by decide) htext hform hdigits).2]
    exact hdigits
  · rename_i hminus hplus
    rw [natural?_eq_some_iff]
    refine and_congr_right fun _ => ⟨fun h => ⟨[], text, rfl, .inl rfl, h⟩, ?_⟩
    rintro ⟨sign, digits, htext, rfl | rfl, hdigits⟩
    · rw [htext]
      exact hdigits
    · exact absurd htext (hplus digits)

end Words

end RedisSnapshot.Decimal
