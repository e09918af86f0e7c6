import RedisSnapshot.Proofs.Binary64.Shortest
import RedisSnapshot.Proofs.Score

/-!
# Digits around a point

However a number is laid out, it is written as digits on both sides of a point, with an exponent or
with none. These are the digits of the number with zeros around them, and the point and the exponent
say together what the number says about its point.
-/

namespace RedisSnapshot.Binary64

/-- The digits on both sides of the point, and the exponent if there is one. -/
structure Written where
  whole : List Nat
  part : List Nat
  power : Option Int

namespace Written

def powerText : Option Int → List Char
  | none => []
  | some power => 'e' :: (if power < 0 then '-' else '+') :: Decimal.chars power.natAbs

def text (written : Written) : List Char :=
  written.whole.map Nat.digitChar ++
    (if written.part = [] then [] else '.' :: written.part.map Nat.digitChar) ++
      powerText written.power

theorem text_of_ne_nil {whole part : List Nat} (h : part ≠ []) (power : Option Int) :
    text ⟨whole, part, power⟩ =
      whole.map Nat.digitChar ++ '.' :: part.map Nat.digitChar ++ powerText power := by
  rw [text, if_neg h]

/-- The power of ten of the last digit. -/
def exponent (written : Written) : Int :=
  written.power.getD 0 - written.part.length

/-- It is written with the digits of this number, and no zero stands in front of other digits of the
whole part. An exponent puts the point behind the first digit. -/
structure Shows (written : Written) (number : Digits) : Prop where
  exists_cons : ∃ first rest, written.whole = first :: rest ∧ (first = 0 → rest = [])
  exists_zeros : ∃ before behind, written.whole ++ written.part =
      List.replicate before 0 ++ number.digits ++ List.replicate behind 0 ∧
    written.exponent = number.point - number.digits.length - behind
  power : ∀ power ∈ written.power, power = number.point - 1

theorem Shows.lt {written : Written} {number : Digits} (h : written.Shows number)
    (hdigits : ∀ digit ∈ number.digits, digit < 10) :
    ∀ digit ∈ written.whole ++ written.part, digit < 10 := by
  obtain ⟨before, behind, hall, -⟩ := h.exists_zeros
  have hzeros : ∀ count, ∀ digit ∈ List.replicate count 0, digit < 10 := fun count digit hmem =>
    List.eq_of_mem_replicate hmem ▸ (by decide)
  rw [hall]
  exact List.forall_mem_append.2 ⟨List.forall_mem_append.2 ⟨hzeros before, hdigits⟩, hzeros behind⟩

end Written

section Place

variable {digits : List Nat} {point : Int}

/-- The point stands in front of all digits, behind a zero. -/
theorem shows_below (hpoint : point ≤ 0) :
    Written.Shows ⟨[0], List.replicate (-point).toNat 0 ++ digits, none⟩ ⟨digits, point⟩ := by
  refine ⟨⟨0, [], rfl, fun _ => rfl⟩, ⟨(-point).toNat + 1, 0, ?_, ?_⟩, fun _ hnone => by cases hnone⟩
  · change [0] ++ (_ ++ _) = _ ++ []
    rw [List.append_nil, List.replicate_succ, List.cons_append]
    rfl
  · change (0 : Int) - (List.length _ : Nat) = point - (digits.length : Nat) - (0 : Nat)
    rw [List.length_append, List.length_replicate]
    omega

/-- The point stands behind all digits, and a zero behind it. -/
theorem shows_above (h : IsLeading digits) (hpoint : digits.length ≤ point) :
    Written.Shows ⟨digits ++ List.replicate (point - digits.length).toNat 0, [0], none⟩
      ⟨digits, point⟩ := by
  obtain ⟨first, rest, hdigits, hfirst⟩ := h.exists_cons
  refine ⟨⟨first, _, by rw [hdigits]; rfl, by omega⟩,
    ⟨0, (point - digits.length).toNat + 1, ?_, ?_⟩, fun _ hnone => by cases hnone⟩
  · change digits ++ _ ++ [0] = [] ++ digits ++ _
    rw [List.nil_append, List.append_assoc, List.replicate_succ']
  · change (0 : Int) - (1 : Nat) = point - (digits.length : Nat) - ((_ : Nat) : Int)
    omega

/-- The point stands behind so many digits, with an exponent or without one. -/
theorem shows_inside (h : IsLeading digits) {count : Nat} (hcount : 0 < count)
    (hlength : count ≤ digits.length) {power : Option Int} (hpower : power.getD 0 = point - count)
    (hfirst : ∀ exponent ∈ power, exponent = point - 1) :
    Written.Shows ⟨digits.take count, digits.drop count, power⟩ ⟨digits, point⟩ := by
  obtain ⟨first, rest, hdigits, hpositive⟩ := h.exists_cons
  obtain ⟨others, rfl⟩ : ∃ others, count = others + 1 := ⟨count - 1, by omega⟩
  refine ⟨⟨first, rest.take others, by rw [hdigits]; rfl, by omega⟩, ⟨0, 0, ?_, ?_⟩, hfirst⟩
  · change _ ++ _ = [] ++ digits ++ []
    rw [List.take_append_drop, List.nil_append, List.append_nil]
  · change power.getD 0 - (List.length _ : Nat) = point - (digits.length : Nat) - (0 : Nat)
    rw [hpower, List.length_drop]
    omega

theorem zeros_eq (count : Int) : zeros count = (List.replicate count.toNat 0).map Nat.digitChar := by
  rw [List.map_replicate]
  rfl

/-- **However it is laid out** in JSON, a number is written with its digits. -/
theorem exists_written {number : Digits} (h : IsLeading number.digits) :
    ∃ written : Written, (json.place number).toList = written.text ∧ written.Shows number := by
  obtain ⟨digits, point⟩ := number
  replace h : IsLeading digits := h
  obtain ⟨first, rest, hdigits, -⟩ := h.exists_cons
  have hpositive : 0 < digits.length := hdigits ▸ Nat.succ_pos _
  rw [Layout.place]
  dsimp only
  split
  · split
    · rename_i hpoint
      refine ⟨_, ?_, shows_below hpoint⟩
      have hsome : List.replicate (-point).toNat 0 ++ digits ≠ [] :=
        List.append_ne_nil_of_right_ne_nil _ (List.length_pos_iff.1 hpositive)
      rw [toList_append_ofList, zeros_eq, ← List.map_append, Written.text_of_ne_nil hsome]
      exact (List.append_nil _).symm
    · split
      · rename_i hlength
        rw [List.length_map] at hlength
        refine ⟨_, ?_, shows_above h hlength⟩
        rw [String.toList_append, String.toList_ofList, List.length_map, zeros_eq,
          ← List.map_append, Written.text_of_ne_nil (List.cons_ne_nil _ _)]
        exact (List.append_nil _).symm
      · rename_i hpoint hlength
        rw [List.length_map] at hlength
        refine ⟨_, ?_, @shows_inside _ point h point.toNat (by omega) (by omega) none
          (by rw [Option.getD_none]; omega) fun _ hnone => by cases hnone⟩
        have hsome : digits.drop point.toNat ≠ [] := by
          rw [ne_eq, List.drop_eq_nil_iff]
          omega
        rw [toList_append_ofList, String.toList_append, String.toList_ofList, List.append_assoc,
          ← List.map_take, ← List.map_drop, Written.text_of_ne_nil hsome]
        exact (List.append_nil _).symm
  · refine ⟨_, ?_, @shows_inside _ point h 1 Nat.one_pos hpositive (some (point - 1)) rfl
      fun _ hsome => (Option.some.inj hsome).symm⟩
    have hmark : ∀ power : Int, ((if power < 0 then "e-" else "e+") ++
        Decimal.text power.natAbs).toList = Written.powerText (some power) := by
      intro power
      rw [Decimal.text, toList_append_ofList, Written.powerText]
      split <;> rfl
    rw [String.append_assoc, String.toList_append, hmark, String.toList_append,
      String.toList_ofList, ← List.map_take, ← List.map_drop, Written.text]
    congr 2
    rw [List.length_map]
    have hone : digits.length = 1 ↔ digits.drop 1 = [] := by
      rw [List.drop_eq_nil_iff]
      omega
    by_cases hlength : digits.length = 1
    · rw [if_pos hlength, if_pos (hone.1 hlength)]
      rfl
    · rw [if_neg hlength, if_neg (mt hone.2 hlength), toList_append_ofList]
      rfl

end Place

end RedisSnapshot.Binary64
