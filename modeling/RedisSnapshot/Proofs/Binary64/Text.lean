import RedisSnapshot.Field
import RedisSnapshot.Proofs.Binary64.Denoted
import RedisSnapshot.Proofs.Text.Utf8

/-!
# The text of a score

A score stands in a snapshot as the text of a number, which may have blanks around it. Such a text
is read as the number, and no other bytes are read as a score.
-/

namespace RedisSnapshot

/-! ### Blanks around a text -/

namespace Text

def IsBlank (text : List Char) : Prop :=
  ∀ char ∈ text, isBlank char = true

def IsSolid (text : List Char) : Prop :=
  ∀ char ∈ text, isBlank char = false

instance (text : List Char) : Decidable (IsSolid text) :=
  List.decidableBAll (isBlank · = false) text

theorem dropWhile_isBlank {front text : List Char} (hfront : IsBlank front)
    (htext : ∀ char ∈ text.head?, isBlank char = false) :
    (front ++ text).dropWhile isBlank = text := by
  rw [List.dropWhile_append_of_pos hfront]
  cases text with
  | nil => rfl
  | cons first rest => exact List.dropWhile_cons_of_neg (Bool.eq_false_iff.1 (htext first rfl))

theorem IsBlank.reverse {text : List Char} (h : IsBlank text) : IsBlank text.reverse :=
  fun char hmem => h char (List.mem_reverse.1 hmem)

theorem trim_append {front text back : List Char} (hfront : IsBlank front) (hback : IsBlank back)
    (hsome : text ≠ []) (htext : IsSolid text) :
    trim (front ++ text ++ back) = text := by
  have hhead : ∀ char ∈ (text ++ back).head?, isBlank char = false := by
    intro char hchar
    rw [List.head?_append_of_ne_nil _ hsome] at hchar
    exact htext char (List.mem_of_mem_head? hchar)
  have hlast : ∀ char ∈ text.reverse.head?, isBlank char = false := fun char hchar =>
    htext char (List.mem_reverse.1 (List.mem_of_mem_head? hchar))
  rw [trim, List.append_assoc, dropWhile_isBlank hfront hhead, List.reverse_append,
    dropWhile_isBlank hback.reverse hlast, List.reverse_reverse]

theorem exists_append_trim (text : List Char) :
    ∃ front back, text = front ++ trim text ++ back ∧ IsBlank front ∧ IsBlank back := by
  obtain ⟨behind, hbehind⟩ : ∃ behind, text.dropWhile isBlank = behind := ⟨_, rfl⟩
  refine ⟨text.takeWhile isBlank, (behind.reverse.takeWhile isBlank).reverse, ?_, ?_, ?_⟩
  · rw [trim, hbehind, List.append_assoc, ← List.reverse_append, List.takeWhile_append_dropWhile,
      List.reverse_reverse, ← hbehind, List.takeWhile_append_dropWhile]
  · exact fun char hmem => List.mem_takeWhile_imp hmem
  · exact fun char hmem => List.mem_takeWhile_imp (List.mem_reverse.1 hmem)

end Text

/-! ### Numbers -/

namespace Binary64

open Text

theorem toLower_of_isBlank {char : Char} (h : isBlank char = true) : char.toLower = char := by
  refine dif_neg ?_
  rintro ⟨hlow, hhigh⟩
  have hcode : 65 ≤ char.toNat ∧ char.toNat ≤ 90 := ⟨hlow, hhigh⟩
  simp only [isBlank, Bool.or_eq_true, Bool.and_eq_true, decide_eq_true_eq, beq_iff_eq] at h
  omega

theorem isSolid_of_toLower {name text : List Char} (hname : text.map Char.toLower = name)
    (hsolid : IsSolid name) : IsSolid text := by
  intro char hmem
  by_contra hblank
  rw [Bool.not_eq_false] at hblank
  have hlower := hsolid char.toLower (hname ▸ List.mem_map_of_mem hmem)
  rw [toLower_of_isBlank hblank, hblank] at hlower
  cases hlower

theorem SignForm.isSolid {negative : Bool} {text : List Char} (h : SignForm negative text) :
    IsSolid text := by
  cases h with
  | bare => decide
  | plus => decide
  | minus => decide

theorem DigitsForm.isSolid {digits : List Nat} {text : List Char} (h : DigitsForm digits text) :
    IsSolid text := by
  have hdigit : ∀ digit < 10, Text.isBlank (Nat.digitChar digit) = false := by decide
  intro char hmem
  obtain ⟨digit, hlt, rfl⟩ := h.isDigit char hmem
  exact hdigit digit hlt

theorem PointForm.isSolid {whole part : List Nat} {text : List Char}
    (h : PointForm whole part text) : IsSolid text := by
  cases h with
  | whole hdigits => exact hdigits.isSolid
  | pointed hfront hback =>
      exact List.forall_mem_append.2
        ⟨hfront.isSolid, List.forall_mem_cons.2 ⟨by decide, hback.isSolid⟩⟩

theorem PowerForm.isSolid {power : Int} {text : List Char} (h : PowerForm power text) :
    IsSolid text := by
  cases h with
  | none => exact List.forall_mem_nil _
  | marked hmark hexponent =>
      obtain ⟨hsign, hdigits, -, -⟩ := hexponent
      refine List.forall_mem_cons.2 ⟨?_, List.forall_mem_append.2 ⟨hsign.isSolid, hdigits.isSolid⟩⟩
      rcases hmark with rfl | rfl
      · decide
      · decide

theorem UnsignedForm.isSolid {negative : Bool} {x : Binary64} {text : List Char}
    (h : UnsignedForm negative x text) : IsSolid text := by
  cases h with
  | nan hname => exact isSolid_of_toLower hname (by decide)
  | infinity hname =>
      rcases hname with hname | hname
      · exact isSolid_of_toLower hname (by decide)
      · exact isSolid_of_toLower hname (by decide)
  | number hmagnitude =>
      obtain ⟨hpoint, hpower⟩ := hmagnitude
      exact List.forall_mem_append.2 ⟨hpoint.isSolid, hpower.isSolid⟩

theorem NumberForm.isSolid {x : Binary64} {text : List Char} (h : NumberForm x text) :
    IsSolid text := by
  obtain ⟨hsign, htext⟩ := h
  exact List.forall_mem_append.2 ⟨hsign.isSolid, htext.isSolid⟩

theorem NumberForm.ne_nil {x : Binary64} {text : List Char} (h : NumberForm x text) :
    text ≠ [] := by
  obtain ⟨_, htext⟩ := h
  obtain ⟨first, rest, rfl, -⟩ := htext.exists_cons
  exact List.append_ne_nil_of_right_ne_nil _ (List.cons_ne_nil _ _)

/-! ### Scores -/

/-- The bytes are a text in UTF-8 that denotes the score, blanks around it aside. -/
inductive TextForm (score : Binary64) : Bytes → Prop where
  | mk {front number back : List Char} (hfront : IsBlank front) (hnumber : NumberForm score number)
      (hback : IsBlank back) : TextForm score (bytes (String.ofList (front ++ number ++ back)))

/-- **What is read of a score in text** is the number that the text denotes. -/
theorem ofText_eq_ok_iff {text : Bytes} {score : Binary64} :
    ofText text = .ok score ↔ TextForm score text := by
  constructor
  · intro h
    rw [ofText] at h
    split at h
    · cases h
    · rename_i chars hchars
      split at h
      · rename_i hread
        cases h
        obtain ⟨front, back, hsplit, hfront, hback⟩ := exists_append_trim chars
        rw [strict?_eq_some_iff.1 hchars, hsplit]
        exact .mk hfront (read?_eq_some_iff.1 hread) hback
      · cases h
  · rintro ⟨hfront, hnumber, hback⟩
    rw [ofText, strict?_bytes, String.toList_ofList]
    dsimp only
    rw [trim_append hfront hback hnumber.ne_nil hnumber.isSolid, read?_eq_some_iff.2 hnumber]

end Binary64

end RedisSnapshot
