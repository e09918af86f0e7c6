import Mathlib.Algebra.GroupWithZero.Nat
import RedisSnapshot.Proofs.Json.Reading

/-!
# Line ends in a text

A line end is one byte and one character, and nothing else in a text has that byte: all bytes of a
longer character lie above it. So what bytes are shown as has as many line ends as the bytes have, be
they UTF-8 or not, while the text of a document has none.
-/

namespace RedisSnapshot.Text

def lineEnds (text : String) : Nat :=
  text.toList.count '\n'

@[simp]
theorem lineEnds_append (first second : String) :
    lineEnds (first ++ second) = lineEnds first + lineEnds second := by
  simp only [lineEnds, String.toList_append, List.count_append]

theorem lineEnds_of_printable {text : String} (h : ∀ char ∈ text.toList, 0x20 ≤ char.toNat) :
    lineEnds text = 0 := by
  apply List.count_eq_zero.2
  intro hmem
  exact absurd (h _ hmem) (by decide)

theorem lineEnds_intercalate (texts : List String) :
    lineEnds (",".intercalate texts) = (texts.map lineEnds).sum := by
  have hothers : ∀ texts : List String,
      ((texts.map String.toList).flatMap (',' :: ·)).count '\n' = (texts.map lineEnds).sum := by
    intro texts
    induction texts with
    | nil => rfl
    | cons text texts ih =>
        simp only [List.map_cons, List.flatMap_cons, List.count_append, List.sum_cons, ih]
        rfl
  rw [lineEnds, String.toList_intercalate]
  cases texts with
  | nil => rfl
  | cons text texts =>
      change ([','].intercalate (text.toList :: texts.map String.toList)).count '\n' = _
      rw [Document.intercalate_cons, List.count_append, hothers]
      rfl

/-! ### The bytes of a text -/

theorem count_utf8EncodeChar (char : Char) :
    (String.utf8EncodeChar char).count 10 = [char].count '\n' := by
  by_cases hchar : char = '\n'
  · subst hchar
    rfl
  · have hcode : char.val.toNat ≠ 10 := by
      intro hten
      apply hchar
      apply Char.ext
      exact UInt32.toNat_inj.1 hten
    have hbyte : ∀ {value : Nat}, value ≠ 10 → value < 256 → (10 : UInt8) ≠ UInt8.ofNat value := by
      intro value hne hlt hten
      apply hne
      rw [← Word.toNat_byte hlt, ← hten]
      rfl
    have hnone : [char].count '\n' = 0 := by
      apply List.count_eq_zero.2
      simpa using Ne.symm hchar
    rw [hnone]
    apply List.count_eq_zero.2
    rw [String.utf8EncodeChar]
    repeat' split
    all_goals
      simp only [List.mem_cons, List.not_mem_nil, or_false, not_or]
      repeat' apply And.intro
      all_goals exact hbyte (by omega) (by omega)

theorem count_bytes (text : String) : (bytes text).count 10 = lineEnds text := by
  rw [bytes, lineEnds]
  induction text.toList with
  | nil => rfl
  | cons char chars ih =>
      rw [List.flatMap_cons, List.count_append, count_utf8EncodeChar, ih, ← List.count_append]
      rfl

/-! ### What bytes are shown as -/

section Follow

variable {following low high value code : Nat} {rest after : Bytes}

/-- The bytes that follow a first byte are no line ends. -/
theorem count_follow (hlow : 10 < low) (value : Nat) (rest : Bytes) :
    (follow following low high value rest).2.count 10 = rest.count 10 := by
  induction rest generalizing following low high value with
  | nil => cases following <;> rfl
  | cons byte rest ih =>
      cases following with
      | zero => rfl
      | succ following =>
          rw [follow]
          split
          · rename_i hwithin
            have hbyte : byte ≠ 10 := by
              rintro rfl
              exact absurd hwithin.1 (Nat.not_le_of_lt hlow)
            rw [ih (by decide), List.count_cons_of_ne hbyte]
          · rfl

theorem le_of_follow (h : follow following low high value rest = (some code, after)) :
    value ≤ code := by
  induction rest generalizing following low high value with
  | nil =>
      cases following with
      | zero =>
          cases h
          exact Nat.le_refl _
      | succ following => cases h
  | cons byte rest ih =>
      cases following with
      | zero =>
          cases h
          exact Nat.le_refl _
      | succ following =>
          rw [follow] at h
          split at h
          · have hle := ih h
            omega
          · cases h

/-- A character of several bytes has a greater code than the line end. -/
theorem lt_of_follow (hbits : 1 ≤ value ∨ 0x90 ≤ low ∧ high ≤ 0xBF)
    (h : follow (following + 1) low high value rest = (some code, after)) : 10 < code := by
  cases rest with
  | nil => cases h
  | cons byte rest =>
      rw [follow] at h
      split at h
      · have hle := le_of_follow h
        omega
      · cases h

end Follow

/-- A first byte stands for itself, or for a character far behind the line end. -/
theorem lead?_eq_or {byte : UInt8} {lead : Lead} (h : lead? byte = some lead) :
    lead = ⟨0, 0x80, 0xBF, byte.toNat⟩ ∨
      10 ≠ byte.toNat ∧ lead.following ≠ 0 ∧ 0x80 ≤ lead.low ∧
        (1 ≤ lead.bits ∨ 0x90 ≤ lead.low ∧ lead.high ≤ 0xBF) := by
  rcases lead?_cases h with ⟨-, rfl⟩ | ⟨hlow, hhigh, rfl⟩ | ⟨hlow, hhigh, rfl⟩ | ⟨hlow, hhigh, rfl⟩
  · exact .inl rfl
  · refine .inr ?_
    dsimp only
    omega
  all_goals
    refine .inr ?_
    dsimp only
    split_ifs <;> omega

theorem ofNat_eq_lineEnd_iff (code : Nat) : Char.ofNat code = '\n' ↔ code = 10 := by
  constructor
  · intro hchar
    have hcode : (Char.ofNat code).toNat = 10 := by
      rw [hchar]
      rfl
    by_cases hvalid : code.isValidChar
    · rw [Char.ofNat, dif_pos hvalid] at hcode
      exact hcode
    · rw [Char.ofNat, dif_neg hvalid] at hcode
      exact absurd hcode (by decide)
  · rintro rfl
    rfl

/-- A character that begins here takes a line end from the bytes only if it is one. -/
theorem count_lead {byte : UInt8} {lead : Lead} (hlead : lead? byte = some lead) (rest : Bytes) :
    let next := follow lead.following lead.low lead.high lead.bits rest
    [next.1.map Char.ofNat].count (some '\n') + next.2.count 10 = (byte :: rest).count 10 := by
  rcases lead?_eq_or hlead with rfl | ⟨hbyte, hsome, hlow, hbits⟩
  · have hsame : (some (Char.ofNat byte.toNat) == some '\n') = (byte == 10) := by
      rw [Bool.eq_iff_iff, beq_iff_eq, beq_iff_eq, Option.some_inj, ofNat_eq_lineEnd_iff]
      exact UInt8.toNat_inj (b := 10)
    rw [List.count_cons, Nat.add_comm]
    simp only [follow, Option.map_some, List.count_singleton, hsame]
  · dsimp only
    have hnot : byte ≠ 10 := by
      rintro rfl
      exact hbyte rfl
    have hchar : (follow lead.following lead.low lead.high lead.bits rest).1.map Char.ofNat ≠
        some '\n' := by
      intro hlineEnd
      obtain ⟨code, hcode, hchar⟩ := Option.map_eq_some_iff.1 hlineEnd
      obtain ⟨following, hfollowing⟩ := Nat.exists_eq_succ_of_ne_zero hsome
      have hlt := lt_of_follow hbits (by rw [hfollowing] at hcode; exact Prod.ext hcode rfl)
      exact Nat.ne_of_gt hlt ((ofNat_eq_lineEnd_iff code).1 hchar)
    rw [List.count_cons_of_ne hnot, count_follow (by omega), List.count_cons_of_ne hchar,
      List.count_nil, Nat.zero_add]

theorem count_decodeOnto (read : List (Option Char)) (input : Bytes) :
    (decodeOnto read input).count (some '\n') = read.count (some '\n') + input.count 10 := by
  fun_induction decodeOnto read input with
  | case1 read => rw [List.count_reverse, List.count_nil, Nat.add_zero]
  | case2 read byte rest hlead ih =>
      have hbyte : byte ≠ 10 := by
        rintro rfl
        cases hlead
      rw [ih, List.count_cons_of_ne hbyte, List.count_cons_of_ne (by decide)]
  | case3 read byte rest lead hlead next ih =>
      calc _ = (next.1.map Char.ofNat :: read).count (some '\n') + next.2.count 10 := ih
        _ = read.count (some '\n') +
              ([next.1.map Char.ofNat].count (some '\n') + next.2.count 10) := by
            rw [← List.singleton_append, List.count_append, Nat.add_comm (List.count _ [_]),
              Nat.add_assoc]
        _ = read.count (some '\n') + (byte :: rest).count 10 := by
            rw [count_lead hlead]

/-- Bytes are shown with as many line ends as they have. -/
theorem lineEnds_lossy (input : Bytes) : lineEnds (lossy input) = input.count 10 := by
  have hdecode := count_decodeOnto [] input
  rw [List.count_nil, Nat.zero_add] at hdecode
  rw [lineEnds, lossy, String.toList_ofList, ← hdecode, List.count, List.countP_map]
  apply List.countP_congr
  intro char _
  cases char with
  | none => simp
  | some char => simp

end RedisSnapshot.Text
