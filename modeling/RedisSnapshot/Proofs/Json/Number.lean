import RedisSnapshot.Proofs.Binary64.Written
import RedisSnapshot.Proofs.Json.Document

/-!
# Numbers are written as JSON has them

An integer is written as digits, behind a sign if it is negative, and a finite number with a point or
an exponent as well. Neither has a zero in front of other digits: the digits of a magnitude begin with
one that is not zero, and where the point stands in front of them it has a zero of its own.
-/

namespace RedisSnapshot

open Binary64 (IsDigit span_append)

namespace Document

/-! ### Tokens -/

/-- A fraction behind its point, or none. -/
def IsPart (text : List Char) : Prop :=
  text = [] ∨ ∃ digits, text = '.' :: digits ∧ digits ≠ [] ∧ ∀ char ∈ digits, IsDigit char

/-- An exponent with its mark and its sign, or none. -/
def IsPower (text : List Char) : Prop :=
  text = [] ∨ ∃ sign digits, text = 'e' :: sign :: digits ∧ (sign = '+' ∨ sign = '-') ∧
    digits ≠ [] ∧ ∀ char ∈ digits, IsDigit char

/-- Digits, the first of which is zero only if it is the only one. -/
structure IsInteger (text : List Char) : Prop where
  digits : ∀ char ∈ text, IsDigit char
  exists_cons : ∃ first rest, text = first :: rest ∧ (first = '0' → rest = [])

/-- A number as it is written. -/
inductive IsToken : List Char → Prop where
  | mk {sign whole part power : List Char} (hsign : sign = [] ∨ sign = ['-'])
      (hwhole : IsInteger whole) (hpart : IsPart part) (hpower : IsPower power) :
      IsToken (sign ++ whole ++ part ++ power)

section Token

variable {digits rest : List Char}

theorem isDigits_of_forall (h : ∀ char ∈ digits, IsDigit char) (hsome : digits ≠ []) :
    isDigits digits = true := by
  rw [isDigits, List.isEmpty_eq_false_iff.2 hsome, Bool.not_false, Bool.and_true,
    List.all_eq_true]
  exact fun char hmem => (h char hmem).isDigit

theorem span_digits (h : ∀ char ∈ digits, IsDigit char)
    (hrest : ∀ char ∈ rest.head?, char.isDigit = false) :
    (digits ++ rest).takeWhile Char.isDigit = digits ∧
      (digits ++ rest).dropWhile Char.isDigit = rest :=
  span_append (fun char hmem => (h char hmem).isDigit) hrest

theorem isExponent_of_isPower (h : IsPower rest) : isExponent rest = true := by
  rcases h with rfl | ⟨sign, digits, rfl, rfl | rfl, hsome, hdigits⟩
  · rfl
  · exact isDigits_of_forall hdigits hsome
  · exact isDigits_of_forall hdigits hsome

theorem head_isPower (h : IsPower rest) : ∀ char ∈ rest.head?, char = 'e' := by
  rcases h with rfl | ⟨sign, digits, rfl, -⟩
  · exact fun _ hchar => by cases hchar
  · exact fun char hchar => (Option.some.inj hchar).symm

theorem isFraction_append {part power : List Char} (hpart : IsPart part) (hpower : IsPower power) :
    isFraction (part ++ power) = true := by
  rcases hpart with rfl | ⟨digits, rfl, hsome, hdigits⟩
  · have hexponent := isExponent_of_isPower hpower
    rcases hpower with rfl | ⟨sign, digits, rfl, -⟩
    · rfl
    · exact hexponent
  · have hrest : ∀ char ∈ power.head?, char.isDigit = false := fun char hchar => by
      rw [head_isPower hpower char hchar]
      decide
    obtain ⟨htake, hdrop⟩ := span_digits hdigits hrest
    change (isDigits ((digits ++ power).takeWhile Char.isDigit) &&
      isExponent ((digits ++ power).dropWhile Char.isDigit)) = true
    rw [htake, hdrop, isDigits_of_forall hdigits hsome, isExponent_of_isPower hpower]
    rfl

theorem isWhole_of_isInteger (h : IsInteger digits) : isWhole digits = true := by
  obtain ⟨first, rest, rfl, hfirst⟩ := h.exists_cons
  have hall : (first :: rest).all Char.isDigit = true :=
    List.all_eq_true.2 fun char hmem => (h.digits char hmem).isDigit
  rw [isWhole, hall]
  by_cases hzero : first = '0'
  · rw [hfirst hzero, hzero]
    rfl
  · simp [hzero]

theorem isUnsigned_append {whole part power : List Char} (hwhole : IsInteger whole)
    (hpart : IsPart part) (hpower : IsPower power) : isUnsigned (whole ++ part ++ power) = true := by
  have hrest : ∀ char ∈ (part ++ power).head?, char.isDigit = false := by
    intro char hchar
    rcases hpart with rfl | ⟨digits, rfl, -⟩
    · rw [head_isPower hpower char hchar]
      decide
    · rw [← Option.some.inj hchar]
      decide
  obtain ⟨htake, hdrop⟩ := span_digits hwhole.digits hrest
  rw [isUnsigned, List.append_assoc, htake, hdrop, isFraction_append hpart hpower, Bool.and_true]
  exact isWhole_of_isInteger hwhole

theorem IsToken.isNumber {token : List Char} (h : IsToken token) : isNumber token = true := by
  obtain @⟨sign, whole, part, power, hsign, hwhole, hpart, hpower⟩ := h
  have hunsigned := isUnsigned_append hwhole hpart hpower
  rcases hsign with rfl | rfl
  · obtain ⟨first, rest, rfl, -⟩ := hwhole.exists_cons
    have hfirst : first ≠ '-' := by
      rintro rfl
      exact absurd (hwhole.digits '-' List.mem_cons_self).isDigit (by decide)
    rw [List.nil_append, Document.isNumber.eq_def]
    split
    · rename_i hminus
      exact absurd (List.cons.inj hminus).1 hfirst
    · exact hunsigned
  · exact hunsigned

theorem IsToken.exists_cons {token : List Char} (h : IsToken token) :
    ∃ first rest, token = first :: rest ∧ (first = '-' ∨ first.isDigit = true) := by
  obtain @⟨sign, whole, part, power, rfl | rfl, hwhole, -, -⟩ := h
  · obtain ⟨first, rest, rfl, -⟩ := hwhole.exists_cons
    exact ⟨first, _, rfl, .inr (hwhole.digits first List.mem_cons_self).isDigit⟩
  · exact ⟨'-', _, rfl, .inl rfl⟩

theorem IsToken.isOfNumber {token : List Char} (h : IsToken token) :
    ∀ char ∈ token, isOfNumber char = true := by
  have hdigits : ∀ {digits : List Char}, (∀ char ∈ digits, IsDigit char) →
      ∀ char ∈ digits, Document.isOfNumber char = true := fun h char hmem => by
    rw [Document.isOfNumber, (h char hmem).isDigit, Bool.true_or]
  obtain @⟨sign, whole, part, power, hsign, hwhole, hpart, hpower⟩ := h
  refine List.forall_mem_append.2 ⟨List.forall_mem_append.2 ⟨List.forall_mem_append.2
    ⟨?_, hdigits hwhole.digits⟩, ?_⟩, ?_⟩
  · rcases hsign with rfl | rfl
    · exact List.forall_mem_nil _
    · exact List.forall_mem_singleton.2 (by decide)
  · rcases hpart with rfl | ⟨digits, rfl, -, hpart⟩
    · exact List.forall_mem_nil _
    · exact List.forall_mem_cons.2 ⟨by decide, hdigits hpart⟩
  · rcases hpower with rfl | ⟨sign, digits, rfl, hsign, -, hpower⟩
    · exact List.forall_mem_nil _
    · refine List.forall_mem_cons.2 ⟨by decide, List.forall_mem_cons.2 ⟨?_, hdigits hpower⟩⟩
      rcases hsign with rfl | rfl
      · decide
      · decide

/-- A number is read as its token, if nothing comes behind it that belongs to a number. -/
theorem number?_token {token : List Char} (h : IsToken token)
    (hrest : ∀ char ∈ rest.head?, isOfNumber char = false) :
    number? (token ++ rest) = some (.number (String.ofList token), rest) := by
  obtain ⟨htake, hdrop⟩ := span_append h.isOfNumber hrest
  rw [number?, htake, hdrop, if_pos h.isNumber]

end Token

/-! ### Integers -/

theorem isDigit_chars (n : Nat) : ∀ char ∈ Decimal.chars n, IsDigit char :=
  Binary64.isDigit_digitChar fun _ hmem => Decimal.lt_of_mem_digits hmem

theorem digitChar_ne_zero {digit : Nat} (hpositive : 0 < digit) (hdigit : digit < 10) :
    Nat.digitChar digit ≠ '0' := by
  have hall : ∀ digit < 10, 0 < digit → Nat.digitChar digit ≠ '0' := by decide
  exact hall digit hdigit hpositive

theorem isInteger_cons {first : Nat} (hpositive : 0 < first) (hfirst : first < 10)
    {rest : List Char} (hrest : ∀ char ∈ rest, IsDigit char) :
    IsInteger (Nat.digitChar first :: rest) :=
  ⟨List.forall_mem_cons.2 ⟨⟨first, hfirst, rfl⟩, hrest⟩, _, rest, rfl,
    fun hzero => absurd hzero (digitChar_ne_zero hpositive hfirst)⟩

theorem isInteger_zero : IsInteger ['0'] :=
  ⟨List.forall_mem_singleton.2 ⟨0, by decide, rfl⟩, '0', [], rfl, fun _ => rfl⟩

theorem isInteger_chars (n : Nat) : IsInteger (Decimal.chars n) := by
  rcases Nat.eq_zero_or_pos n with rfl | hpositive
  · have hzero : Decimal.chars 0 = ['0'] := by
      rw [Decimal.chars, Decimal.digits]
      rfl
    exact hzero ▸ isInteger_zero
  · obtain ⟨first, rest, hdigits, hfirst⟩ := Decimal.head_digits hpositive
    have hlt : ∀ digit ∈ first :: rest, digit < 10 := fun digit hmem =>
      Decimal.lt_of_mem_digits (hdigits ▸ hmem)
    rw [Decimal.chars, hdigits]
    exact isInteger_cons hfirst (hlt first List.mem_cons_self)
      (Binary64.isDigit_digitChar fun digit hmem => hlt digit (List.mem_cons_of_mem _ hmem))

theorem isToken_chars {sign : List Char} (hsign : sign = [] ∨ sign = ['-']) (n : Nat) :
    IsToken (sign ++ Decimal.chars n) := by
  have htoken := IsToken.mk hsign (isInteger_chars n) (.inl rfl) (.inl rfl)
  rwa [List.append_nil, List.append_nil] at htoken

theorem isToken_intText (value : Int) : IsToken (Decimal.intText value).toList := by
  cases value with
  | ofNat n =>
      rw [Decimal.intText, Decimal.text, String.toList_ofList]
      exact isToken_chars (.inl rfl) n
  | negSucc n =>
      rw [Decimal.intText, Decimal.text, Binary64.toList_append_ofList]
      exact isToken_chars (.inr rfl) (n + 1)

/-! ### Numbers with a point -/

theorem isPower_powerText (power : Option Int) : IsPower (Binary64.Written.powerText power) := by
  cases power with
  | none => exact .inl rfl
  | some power =>
      refine .inr ⟨_, _, rfl, ?_, ?_, isDigit_chars _⟩
      · split
        · exact .inr rfl
        · exact .inl rfl
      · exact fun hnone => Decimal.digits_ne_nil _ (List.map_eq_nil_iff.1 hnone)

/-- What shows a number is written as JSON has it, behind a sign or none. -/
theorem isToken_written {sign : List Char} (hsign : sign = [] ∨ sign = ['-'])
    {written : Binary64.Written} {number : Binary64.Digits} (h : written.Shows number)
    (hdigits : ∀ digit ∈ number.digits, digit < 10) : IsToken (sign ++ written.text) := by
  obtain ⟨hwhole, hpart⟩ := List.forall_mem_append.1 (h.lt hdigits)
  obtain ⟨first, rest, hcons, hzero⟩ := h.exists_cons
  have hinteger : IsInteger (written.whole.map Nat.digitChar) := by
    refine ⟨Binary64.isDigit_digitChar hwhole, Nat.digitChar first, rest.map Nat.digitChar,
      by rw [hcons]; rfl, fun hfirst => ?_⟩
    rcases Nat.eq_zero_or_pos first with hnone | hpositive
    · rw [hzero hnone]
      rfl
    · exact absurd hfirst (digitChar_ne_zero hpositive (hwhole first (hcons ▸ List.mem_cons_self)))
  have hfraction : IsPart (if written.part = [] then []
      else '.' :: written.part.map Nat.digitChar) := by
    split
    · exact .inl rfl
    · rename_i hsome
      exact .inr ⟨_, rfl, fun hnone => hsome (List.map_eq_nil_iff.1 hnone),
        Binary64.isDigit_digitChar hpart⟩
  have htoken := IsToken.mk hsign hinteger hfraction (isPower_powerText written.power)
  rwa [List.append_assoc, List.append_assoc, ← List.append_assoc _ _ (Binary64.Written.powerText _)]
    at htoken

theorem isToken_json {x : Binary64} (hnan : x.isNaN = false) (hinfinite : x.isInfinite = false) :
    IsToken (Binary64.json.text x).toList := by
  have hsign : (if x.isNegative then "-" else "").toList = [] ∨
      (if x.isNegative then "-" else "").toList = ['-'] := by
    split
    · exact .inr rfl
    · exact .inl rfl
  rw [Binary64.Layout.text, hnan, hinfinite, if_neg Bool.false_ne_true, if_neg Bool.false_ne_true,
    String.toList_append]
  generalize (if x.isNegative then "-" else "").toList = sign at hsign ⊢
  split
  · have htext : sign ++ ("0" ++ Binary64.json.whole).toList = sign ++ ['0'] ++ ['.', '0'] ++ [] := by
      rw [List.append_nil, List.append_assoc]
      rfl
    rw [htext]
    exact IsToken.mk hsign isInteger_zero
      (.inr ⟨['0'], rfl, List.cons_ne_nil _ _, isInteger_zero.digits⟩) (.inl rfl)
  · rename_i hunits
    have hleading := Binary64.isLeading_shortest (Nat.pos_of_ne_zero hunits) Binary64.json.tie
    obtain ⟨written, htext, hshows⟩ := Binary64.exists_written hleading
    rw [htext]
    exact isToken_written hsign hshows hleading.lt

end Document

end RedisSnapshot
