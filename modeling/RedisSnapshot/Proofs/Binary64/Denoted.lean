import RedisSnapshot.Proofs.Binary64.Decimals
import RedisSnapshot.Proofs.Score

/-!
# The number that a text denotes

A text is a number if it is digits, a point among them and a power of ten behind them, or one of the
names for what no digits can write, with a sign in front of it or without one. What is read from a
text is the number that it denotes, rounded to the nearest magnitude, and nothing else is read.
-/

namespace RedisSnapshot.Binary64

/-! ### Texts -/

/-- What is not negative may have a sign, and what is negative has one. -/
inductive SignForm : Bool → List Char → Prop where
  | bare : SignForm false []
  | plus : SignForm false ['+']
  | minus : SignForm true ['-']

/-- Digits, most significant first. -/
structure DigitsForm (digits : List Nat) (text : List Char) : Prop where
  lt : ∀ digit ∈ digits, digit < 10
  text_eq : text = digits.map Nat.digitChar

/-- Digits on both sides of a point, of which one may have none, or digits without a point. -/
inductive PointForm : List Nat → List Nat → List Char → Prop where
  | whole {whole : List Nat} {text : List Char} (hdigits : DigitsForm whole text)
      (hsome : whole ≠ []) : PointForm whole [] text
  | pointed {whole part : List Nat} {front back : List Char} (hfront : DigitsForm whole front)
      (hback : DigitsForm part back) (hsome : whole ++ part ≠ []) :
      PointForm whole part (front ++ '.' :: back)

/-- What the digits of a power of ten come to. As soon as they have reached `65536` no further digit
counts. -/
def Amounts (digits : List Nat) (amount : Nat) : Prop :=
  ∃ front back, digits = front ++ back ∧ amount = Decimal.valueOf front ∧
    Decimal.valueOf front.dropLast < 0x10000 ∧ (back = [] ∨ 0x10000 ≤ amount)

inductive ExponentForm : Int → List Char → Prop where
  | mk {negative : Bool} {sign text : List Char} {digits : List Nat} {amount : Nat}
      (hsign : SignForm negative sign) (hdigits : DigitsForm digits text) (hsome : digits ≠ [])
      (hamount : Amounts digits amount) :
      ExponentForm (if negative then -(amount : Int) else amount) (sign ++ text)

inductive PowerForm : Int → List Char → Prop where
  | none : PowerForm 0 []
  | marked {power : Int} {mark : Char} {text : List Char} (hmark : mark = 'e' ∨ mark = 'E')
      (hexponent : ExponentForm power text) : PowerForm power (mark :: text)

/-- The text denotes a number, and this is the word of the magnitude nearest to it. -/
inductive MagnitudeForm : Nat → List Char → Prop where
  | mk {whole part : List Nat} {power : Int} {word : Nat} {front back : List Char}
      (hpoint : PointForm whole part front) (hpower : PowerForm power back)
      (hword : IsNearestDecimal (whole ++ part) (power - part.length) word) :
      MagnitudeForm word (front ++ back)

/-- Names may be in capitals, in part or altogether. -/
inductive UnsignedForm (negative : Bool) : Binary64 → List Char → Prop where
  | nan {text : List Char} (hname : text.map Char.toLower = ['n', 'a', 'n']) :
      UnsignedForm negative (nan negative) text
  | infinity {text : List Char} (hname : text.map Char.toLower = ['i', 'n', 'f'] ∨
      text.map Char.toLower = ['i', 'n', 'f', 'i', 'n', 'i', 't', 'y']) :
      UnsignedForm negative (infinity negative) text
  | number {word : Nat} {text : List Char} (hmagnitude : MagnitudeForm word text) :
      UnsignedForm negative (ofMagnitude negative word) text

/-- The text of a number, rounded to the nearest one that there is. -/
inductive NumberForm : Binary64 → List Char → Prop where
  | mk {x : Binary64} {negative : Bool} {sign text : List Char} (hsign : SignForm negative sign)
      (htext : UnsignedForm negative x text) : NumberForm x (sign ++ text)

/-! ### Digits -/

namespace DigitsForm

variable {digits : List Nat} {text : List Char}

theorem takeDigits_append (h : DigitsForm digits text) {rest : List Char}
    (hrest : ∀ char ∈ rest.head?, char.isDigit = false) :
    takeDigits (text ++ rest) = (digits, rest) := by
  obtain ⟨hlt, rfl⟩ := h
  rw [Binary64.takeDigits_append (isDigit_digitChar hlt) hrest, Decimal.map_digitChar hlt]

theorem takeDigits_eq (h : DigitsForm digits text) : takeDigits text = (digits, []) := by
  obtain ⟨hlt, rfl⟩ := h
  rw [takeDigits_digits (isDigit_digitChar hlt), Decimal.map_digitChar hlt]

theorem isDigit (h : DigitsForm digits text) : ∀ char ∈ text, IsDigit char := by
  obtain ⟨hlt, rfl⟩ := h
  exact isDigit_digitChar hlt

theorem eq_nil_iff (h : DigitsForm digits text) : text = [] ↔ digits = [] := by
  rw [h.text_eq, List.map_eq_nil_iff]

end DigitsForm

theorem digitChar_of_isDigit {char : Char} (h : char.isDigit = true) :
    char.toNat - 48 < 10 ∧ Nat.digitChar (char.toNat - 48) = char := by
  have hall : ∀ digit < 10, Nat.digitChar digit = Char.ofNat (digit + 48) := by decide
  simp only [Char.isDigit, Bool.and_eq_true, decide_eq_true_eq, ge_iff_le,
    UInt32.le_iff_toNat_le] at h
  change 48 ≤ char.toNat ∧ char.toNat ≤ 57 at h
  have hdigit : char.toNat - 48 < 10 := by omega
  refine ⟨hdigit, ?_⟩
  rw [hall _ hdigit, Nat.sub_add_cancel h.1, Char.ofNat_toNat]

/-- What is taken for digits are digits, up to what is none. -/
theorem takeDigits_spec (text : List Char) :
    ∃ front, text = front ++ (takeDigits text).2 ∧ DigitsForm (takeDigits text).1 front ∧
      ∀ char ∈ (takeDigits text).2.head?, char.isDigit = false := by
  have hdigits : ∀ char ∈ text.takeWhile Char.isDigit, char.isDigit = true := fun char hmem =>
    List.mem_takeWhile_imp hmem
  refine ⟨text.takeWhile Char.isDigit, List.takeWhile_append_dropWhile.symm, ⟨?_, ?_⟩, ?_⟩
  · intro digit hmem
    obtain ⟨char, hchar, rfl⟩ := List.mem_map.1 hmem
    exact (digitChar_of_isDigit (hdigits char hchar)).1
  · change _ = List.map Nat.digitChar (List.map _ _)
    rw [List.map_map]
    refine (List.map_id _).symm.trans (List.map_congr_left fun char hmem => ?_)
    exact (digitChar_of_isDigit (hdigits char hmem)).2.symm
  · intro char hchar
    have hnot := List.head?_dropWhile_not Char.isDigit text
    have hhead : (text.dropWhile Char.isDigit).head? = some char := hchar
    rw [hhead] at hnot
    exact hnot

/-! ### Powers of ten -/

theorem exponentOf_concat (digits : List Nat) (digit : Nat) :
    exponentOf (digits ++ [digit]) =
      if exponentOf digits < 0x10000 then 10 * exponentOf digits + digit else exponentOf digits := by
  rw [exponentOf, List.foldl_append]
  rfl

theorem exponentOf_of_lt {digits : List Nat} (h : Decimal.valueOf digits.dropLast < 0x10000) :
    exponentOf digits = Decimal.valueOf digits := by
  induction digits using List.reverseRecOn with
  | nil => rfl
  | append_singleton digits digit ih =>
      rw [List.dropLast_concat] at h
      have hfront := Nat.lt_of_le_of_lt (Decimal.valueOf_dropLast_le digits) h
      rw [exponentOf_concat, ih hfront, if_pos h, Decimal.valueOf_concat]

theorem exponentOf_append {front : List Nat} (h : 0x10000 ≤ exponentOf front) (back : List Nat) :
    exponentOf (front ++ back) = exponentOf front := by
  induction back using List.reverseRecOn with
  | nil => rw [List.append_nil]
  | append_singleton back digit ih =>
      rw [← List.append_assoc, exponentOf_concat, ih, if_neg (Nat.not_lt.2 h)]

theorem exponentOf_eq_iff {digits : List Nat} {amount : Nat} :
    exponentOf digits = amount ↔ Amounts digits amount := by
  constructor
  · rintro rfl
    induction digits using List.reverseRecOn with
    | nil => exact ⟨[], [], rfl, rfl, by decide, .inl rfl⟩
    | append_singleton digits digit ih =>
        obtain ⟨front, back, hdigits, hvalue, hfront, hback⟩ := ih
        rw [exponentOf_concat]
        by_cases hsmall : exponentOf digits < 0x10000
        · have hnone : back = [] := hback.resolve_right (Nat.not_le.2 hsmall)
          rw [hnone, List.append_nil] at hdigits
          rw [if_pos hsmall, hvalue, ← hdigits, ← Decimal.valueOf_concat]
          refine ⟨digits ++ [digit], [], (List.append_nil _).symm, rfl, ?_, .inl rfl⟩
          rw [List.dropLast_concat, hdigits, ← hvalue]
          exact hsmall
        · rw [if_neg hsmall]
          refine ⟨front, back ++ [digit], ?_, hvalue, hfront, .inr (Nat.not_lt.1 hsmall)⟩
          rw [hdigits, List.append_assoc]
  · rintro ⟨front, back, rfl, rfl, hfront, hback⟩
    have hvalue := exponentOf_of_lt hfront
    rcases hback with rfl | hlarge
    · rw [List.append_nil, hvalue]
    · rw [exponentOf_append (hvalue ▸ hlarge), hvalue]

theorem digitsExponent?_eq_some_iff {negative : Bool} {text : List Char} {power : Int} :
    digitsExponent? negative text = some power ↔
      ∃ digits amount, DigitsForm digits text ∧ digits ≠ [] ∧ Amounts digits amount ∧
        power = if negative then -(amount : Int) else amount := by
  constructor
  · intro h
    obtain ⟨front, htext, hdigits, -⟩ := takeDigits_spec text
    rw [digitsExponent?] at h
    dsimp only at h
    split at h
    · cases h
    · rename_i hshape
      rw [Bool.or_eq_true, not_or, Bool.not_eq_true', Bool.not_eq_false, List.isEmpty_iff,
        List.isEmpty_iff] at hshape
      rw [hshape.2, List.append_nil] at htext
      refine ⟨_, _, htext ▸ hdigits, hshape.1, exponentOf_eq_iff.1 rfl, ?_⟩
      cases negative with
      | false => exact (Option.some.inj h).symm
      | true => exact (Option.some.inj h).symm
  · rintro ⟨digits, amount, hdigits, hsome, hamount, rfl⟩
    have hnonempty : digits.isEmpty = false := List.isEmpty_eq_false_iff.2 hsome
    rw [digitsExponent?, hdigits.takeDigits_eq]
    dsimp only
    rw [hnonempty, exponentOf_eq_iff.2 hamount]
    cases negative with
    | false => rfl
    | true => rfl

theorem exponent?_of_not_sign {first : Char} (h : first ∉ ['+', '-']) (rest : List Char) :
    exponent? (first :: rest) = digitsExponent? false (first :: rest) := by
  unfold exponent?
  split
  · exact absurd (by simp_all) h
  · exact absurd (by simp_all) h
  · rfl

theorem exponent?_eq_some_iff {text : List Char} {power : Int} :
    exponent? text = some power ↔ ExponentForm power text := by
  have hform : ∀ {negative sign text}, SignForm negative sign →
      digitsExponent? negative text = some power → ExponentForm power (sign ++ text) := by
    intro negative sign text hsign h
    obtain ⟨digits, amount, hdigits, hsome, hamount, rfl⟩ := digitsExponent?_eq_some_iff.1 h
    exact .mk hsign hdigits hsome hamount
  constructor
  · intro h
    rw [exponent?.eq_def] at h
    split at h
    · exact hform .minus h
    · exact hform .plus h
    · exact hform .bare h
  · intro h
    cases h with
    | @mk negative sign text digits amount hsign hdigits hsome hamount =>
        have hread : digitsExponent? negative text = some _ :=
          digitsExponent?_eq_some_iff.2 ⟨digits, amount, hdigits, hsome, hamount, rfl⟩
        cases hsign with
        | plus => exact hread
        | minus => exact hread
        | bare =>
            obtain ⟨first, rest, rfl⟩ :=
              List.exists_cons_of_ne_nil (mt hdigits.eq_nil_iff.1 hsome)
            have hfirst := (hdigits.isDigit first List.mem_cons_self).not_mem.1
            exact (exponent?_of_not_sign hfirst rest).trans hread

theorem power?_eq_some_iff {text : List Char} {power : Int} :
    power? text = some power ↔ PowerForm power text := by
  constructor
  · intro h
    cases text with
    | nil =>
        cases h
        exact .none
    | cons mark rest =>
        rw [power?] at h
        split at h
        · exact .marked ‹_› (exponent?_eq_some_iff.1 h)
        · cases h
  · intro h
    cases h with
    | none => rfl
    | marked hmark hexponent => rw [power?, if_pos hmark, exponent?_eq_some_iff.2 hexponent]

/-! ### Magnitudes -/

section Point

variable {whole part : List Nat} {front rest : List Char}

theorem PointForm.lt (h : PointForm whole part front) : ∀ digit ∈ whole ++ part, digit < 10 := by
  cases h with
  | whole hdigits => exact List.forall_mem_append.2 ⟨hdigits.lt, List.forall_mem_nil _⟩
  | pointed hfront hback => exact List.forall_mem_append.2 ⟨hfront.lt, hback.lt⟩

theorem PointForm.ne_nil (h : PointForm whole part front) : whole ++ part ≠ [] := by
  cases h with
  | whole _ hsome => exact List.append_ne_nil_of_left_ne_nil hsome _
  | pointed _ _ hsome => exact hsome

theorem PointForm.takePoint_append (h : PointForm whole part front)
    (hrest : ∀ char ∈ rest.head?, char.isDigit = false ∧ char ≠ '.') :
    takePoint (front ++ rest) = (whole, part, rest) := by
  have hdigit : ∀ char ∈ rest.head?, char.isDigit = false := fun char hchar => (hrest char hchar).1
  cases h with
  | whole hdigits =>
      rw [takePoint, hdigits.takeDigits_append hdigit]
      dsimp only
      split
      · exact absurd rfl (hrest '.' rfl).2
      · rfl
  | @pointed _ front back hfront hback =>
      have hpoint : ∀ char ∈ ('.' :: (back ++ rest)).head?, char.isDigit = false := by
        intro char hchar
        cases hchar
        rfl
      rw [List.append_assoc, List.cons_append, takePoint, hfront.takeDigits_append hpoint]
      exact congrArg (Prod.mk whole) (hback.takeDigits_append hdigit)

/-- What is taken for digits around a point is such a thing, unless there are no digits at all. -/
theorem takePoint_spec {text : List Char} (h : takePoint text = (whole, part, rest))
    (hsome : whole ++ part ≠ []) : ∃ front, text = front ++ rest ∧ PointForm whole part front := by
  obtain ⟨front, htext, hfront, -⟩ := takeDigits_spec text
  rw [takePoint] at h
  dsimp only at h
  split at h
  · rename_i behind hbehind
    obtain ⟨back, hback, hdigits, -⟩ := takeDigits_spec behind
    obtain ⟨rfl, hpart⟩ := Prod.mk.inj h
    rw [hpart] at hback hdigits
    refine ⟨front ++ '.' :: back, ?_, .pointed hfront hdigits hsome⟩
    rw [htext, hbehind, hback, List.append_assoc, List.cons_append]
  · obtain ⟨rfl, hpart⟩ := Prod.mk.inj h
    obtain ⟨rfl, rfl⟩ := Prod.mk.inj hpart
    rw [List.append_nil] at hsome
    exact ⟨front, htext, .whole hfront hsome⟩

end Point

theorem PowerForm.head {power : Int} {text : List Char} (h : PowerForm power text) :
    ∀ char ∈ text.head?, char.isDigit = false ∧ char ≠ '.' := by
  intro char hchar
  cases h with
  | none => cases hchar
  | marked hmark =>
      cases hchar
      rcases hmark with rfl | rfl
      · decide
      · decide

theorem magnitude?_eq_some_iff {text : List Char} {word : Nat} :
    magnitude? text = some word ↔ MagnitudeForm word text := by
  constructor
  · intro h
    obtain ⟨whole, part, rest, hpoint⟩ : ∃ whole part rest, takePoint text = (whole, part, rest) :=
      ⟨_, _, _, rfl⟩
    have hsome : whole ++ part ≠ [] := by
      intro hnone
      obtain ⟨rfl, rfl⟩ := List.append_eq_nil_iff.1 hnone
      rw [magnitude?, hpoint] at h
      cases h
    obtain ⟨front, rfl, hfront⟩ := takePoint_spec hpoint hsome
    rw [magnitude?_of_point hpoint hsome, Option.map_eq_some_iff] at h
    obtain ⟨power, hpower, hword⟩ := h
    exact .mk hfront (power?_eq_some_iff.1 hpower) ((wordOfDecimal_eq_iff hfront.lt).1 hword)
  · intro h
    cases h with
    | mk hpoint hpower hword =>
        rw [magnitude?_of_point (hpoint.takePoint_append hpower.head) hpoint.ne_nil,
          power?_eq_some_iff.2 hpower, Option.map_some, (wordOfDecimal_eq_iff hpoint.lt).2 hword]

/-! ### Numbers -/

theorem MagnitudeForm.exists_cons {word : Nat} {text : List Char} (h : MagnitudeForm word text) :
    ∃ first rest, text = first :: rest ∧ first ∉ ['+', '-'] ∧ first.toLower ∉ ['n', 'i'] := by
  have hdigits : ∀ {digits : List Nat} {front : List Char}, DigitsForm digits front → front ≠ [] →
      ∀ back, ∃ first rest, front ++ back = first :: rest ∧ first ∉ ['+', '-'] ∧
        first.toLower ∉ ['n', 'i'] := by
    intro digits front hfront hsome back
    obtain ⟨first, rest, rfl⟩ := List.exists_cons_of_ne_nil hsome
    exact ⟨first, _, rfl, (hfront.isDigit first List.mem_cons_self).not_mem⟩
  cases h with
  | mk hpoint _ _ =>
      cases hpoint with
      | whole hwhole hsome => exact hdigits hwhole (mt hwhole.eq_nil_iff.1 hsome) _
      | @pointed _ front back hfront =>
          rw [List.append_assoc]
          by_cases hnone : front = []
          · rw [hnone]
            exact ⟨'.', _, rfl, by decide, by decide⟩
          · exact hdigits hfront hnone _

theorem unsigned?_eq_some_iff {negative : Bool} {text : List Char} {x : Binary64} :
    unsigned? negative text = some x ↔ UnsignedForm negative x text := by
  constructor
  · intro h
    rw [unsigned?] at h
    split at h
    · cases h
      exact .nan ‹_›
    · split at h
      · cases h
        exact .infinity ‹_›
      · obtain ⟨word, hword, rfl⟩ := Option.map_eq_some_iff.1 h
        exact .number (magnitude?_eq_some_iff.1 hword)
  · intro h
    cases h with
    | nan hname =>
        rw [unsigned?, hname]
        rfl
    | infinity hname =>
        rw [unsigned?]
        rcases hname with hname | hname
        · rw [hname]
          rfl
        · rw [hname]
          rfl
    | number hmagnitude =>
        obtain ⟨first, rest, rfl, -, hletter⟩ := hmagnitude.exists_cons
        rw [unsigned?_of_not_letter hletter, magnitude?_eq_some_iff.2 hmagnitude, Option.map_some]

theorem UnsignedForm.exists_cons {negative : Bool} {x : Binary64} {text : List Char}
    (h : UnsignedForm negative x text) :
    ∃ first rest, text = first :: rest ∧ first ∉ ['+', '-'] := by
  have hletter : ∀ {letter : Char} {name : List Char}, letter ∉ ['+', '-'] →
      text.map Char.toLower = letter :: name → ∃ first rest, text = first :: rest ∧
        first ∉ ['+', '-'] := by
    intro letter name hname hlower
    obtain ⟨first, rest, rfl, rfl, -⟩ := List.map_eq_cons_iff.1 hlower
    refine ⟨first, rest, rfl, fun hsign => hname ?_⟩
    rcases List.mem_pair.1 hsign with rfl | rfl
    · decide
    · decide
  cases h with
  | nan hname => exact hletter (by decide) hname
  | infinity hname =>
      rcases hname with hname | hname
      · exact hletter (by decide) hname
      · exact hletter (by decide) hname
  | number hmagnitude =>
      obtain ⟨first, rest, htext, hsign, -⟩ := hmagnitude.exists_cons
      exact ⟨first, rest, htext, hsign⟩

/-- **What is read of a text** is the number that the text denotes. -/
theorem read?_eq_some_iff {text : List Char} {x : Binary64} :
    read? text = some x ↔ NumberForm x text := by
  constructor
  · intro h
    rw [read?.eq_def] at h
    split at h
    · exact .mk .minus (unsigned?_eq_some_iff.1 h)
    · exact .mk .plus (unsigned?_eq_some_iff.1 h)
    · exact .mk .bare (unsigned?_eq_some_iff.1 h)
  · intro h
    cases h with
    | mk hsign htext =>
        have hread := unsigned?_eq_some_iff.2 htext
        cases hsign with
        | plus => exact hread
        | minus => exact hread
        | bare =>
            obtain ⟨first, rest, rfl, hfirst⟩ := htext.exists_cons
            rw [List.nil_append, read?_of_not_sign hfirst]
            exact hread

end RedisSnapshot.Binary64
