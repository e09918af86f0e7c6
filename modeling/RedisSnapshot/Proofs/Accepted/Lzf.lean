import RedisSnapshot.Proofs.Forms.Lzf

/-!
# What is decompressed

Nothing is decompressed but the bytes of tokens that expand to as many bytes as were declared. A byte
that begins a token leaves no choice of what the token is, so every token that is read has the form
from which it was read; and a reference that finds its first byte behind the start of the output can
bring all the others, since each of them is there when it is needed.
-/

namespace RedisSnapshot.Lzf

/-- What a token can be on account of its form, whatever stands before it. -/
def Token.IsWritable : Token → Prop
  | literal run => 1 ≤ run.length ∧ run.length ≤ 32
  | reference distance length =>
      (3 ≤ length ∧ length ≤ 264) ∧ 1 ≤ distance ∧ distance ≤ 8192

/-! ### A token has the form that it was read from -/

section Reading

variable {control : UInt8} {input rest : Bytes} {token : Token}

theorem bytes_of_literal {run : Bytes} (h : run.length = control.toNat + 1) :
    (Token.literal run).bytes = control :: run := by
  have hcontrol : control = UInt8.ofNat (run.length - 1) := by
    apply Word.byte_eq
    have hlt := control.toNat_lt
    omega
  rw [Token.bytes, ← hcontrol]

theorem bytes_of_reference_short {low : UInt8} (hshort : control.toNat / 32 ≠ 7) :
    (Token.reference (256 * (control.toNat % 32) + low.toNat + 1) (control.toNat / 32 + 2)).bytes =
      [control, low] := by
  have hcontrolLt := control.toNat_lt
  have hlowLt := low.toNat_lt
  have hcontrol : control = UInt8.ofNat (32 * (control.toNat / 32 + 2 - 2) +
      (256 * (control.toNat % 32) + low.toNat + 1 - 1) / 256) := by
    apply Word.byte_eq
    omega
  have hlow : low = UInt8.ofNat (256 * (control.toNat % 32) + low.toNat + 1 - 1) := by
    apply Word.byte_eq
    omega
  rw [Token.bytes, if_pos (by omega), ← hcontrol, ← hlow]

theorem bytes_of_reference_long {extension low : UInt8} (hlong : control.toNat / 32 = 7) :
    (Token.reference (256 * (control.toNat % 32) + low.toNat + 1) (extension.toNat + 9)).bytes =
      [control, extension, low] := by
  have hcontrolLt := control.toNat_lt
  have hextensionLt := extension.toNat_lt
  have hlowLt := low.toNat_lt
  have hcontrol : control = UInt8.ofNat (32 * 7 +
      (256 * (control.toNat % 32) + low.toNat + 1 - 1) / 256) := by
    apply Word.byte_eq
    omega
  have hextension : extension = UInt8.ofNat (extension.toNat + 9 - 9) := by
    apply Word.byte_eq
    omega
  have hlow : low = UInt8.ofNat (256 * (control.toNat % 32) + low.toNat + 1 - 1) := by
    apply Word.byte_eq
    omega
  rw [Token.bytes, if_neg (by omega), ← hcontrol, ← hextension, ← hlow]

theorem form_of_readToken (h : readToken control input = .ok (token, rest)) :
    control :: input = token.bytes ++ rest ∧ token.IsWritable := by
  have hcontrolLt := control.toNat_lt
  unfold readToken at h
  dsimp only at h
  split at h
  · split at h
    · rename_i hrun
      cases h
      refine ⟨?_, ?_⟩
      · rw [bytes_of_literal hrun, List.cons_append, List.take_append_drop]
      · change 1 ≤ (input.take (control.toNat + 1)).length ∧
          (input.take (control.toNat + 1)).length ≤ 32
        omega
    · cases h
  · rename_i hpositive
    split at h
    · rename_i hlong
      split at h
      · cases h
      · cases h
      · rename_i extension low later
        cases h
        have hextensionLt := extension.toNat_lt
        have hlowLt := low.toNat_lt
        refine ⟨?_, ?_⟩
        · rw [bytes_of_reference_long hlong]
          rfl
        · exact ⟨⟨by omega, by omega⟩, by omega, by omega⟩
    · rename_i hshort
      split at h
      · cases h
      · rename_i low later
        cases h
        have hlowLt := low.toNat_lt
        refine ⟨?_, ?_⟩
        · rw [bytes_of_reference_short hshort]
          rfl
        · exact ⟨⟨by omega, by omega⟩, by omega, by omega⟩

end Reading

/-! ### What a token adds is what it brings -/

/-- A reference into the output has all the bytes that it asks for. -/
theorem exists_repeatBack {distance : Nat} (length : Nat) {output : Bytes} (hnearest : 1 ≤ distance)
    (hreach : distance ≤ output.length) :
    ∃ copied : Bytes, copied.length = length ∧
      (∀ k < length, (output ++ copied)[output.length + k]? =
        (output ++ copied)[output.length + k - distance]?) ∧
      repeatBack distance length output.toArray = (output ++ copied).toArray := by
  induction length generalizing output with
  | zero => exact ⟨[], rfl, by simp, by simp [repeatBack]⟩
  | succ length ih =>
      have hplace : output.length - distance < output.length := by omega
      let first := output[output.length - distance]
      have hgrown : distance ≤ (output ++ [first]).length := by
        rw [List.length_append]
        omega
      obtain ⟨later, hlength, hcopied, hrepeat⟩ := ih hgrown
      refine ⟨first :: later, by simp [hlength], ?_, ?_⟩
      · intro k hk
        cases k with
        | zero =>
            rw [Nat.add_zero, List.getElem?_append_right (Nat.le_refl _),
              List.getElem?_append_left hplace, List.getElem?_eq_getElem hplace]
            simp [first]
        | succ k =>
            have hnext := hcopied k (by omega)
            have hlengthGrown : (output ++ [first]).length + k = output.length + (k + 1) := by
              rw [List.length_append, List.length_singleton]
              omega
            rwa [hlengthGrown, List.append_assoc, List.singleton_append] at hnext
      · have hfirst : output[output.length - distance]? = some first :=
          List.getElem?_eq_getElem hplace
        rw [repeatBack, List.size_toArray, List.getElem?_toArray, hfirst, Option.getD_some,
          List.push_toArray, hrepeat, List.append_assoc, List.singleton_append]

theorem Token.brings_of_append (output : Bytes) {token : Token} {limit : Nat} {grown : Array UInt8}
    (hwritable : token.IsWritable) (h : token.append limit output.toArray = .ok grown) :
    ∃ added, token.Brings output added ∧ grown = (output ++ added).toArray := by
  cases token with
  | literal run =>
      rw [Token.append] at h
      split at h
      · cases h
        exact ⟨run, .literal hwritable.1 hwritable.2, by simp⟩
      · cases h
  | reference distance length =>
      obtain ⟨⟨hshortest, hlongest⟩, hnearest, hfarthest⟩ := hwritable
      rw [Token.append, List.size_toArray] at h
      split at h
      · cases h
      · rename_i hreach
        split at h
        · cases h
          have hwithin : distance ≤ output.length := by omega
          obtain ⟨copied, hlength, hcopied, hrepeat⟩ :=
            exists_repeatBack length hnearest hwithin
          exact ⟨copied, .reference hshortest hlongest hnearest hfarthest hwithin hlength hcopied,
            hrepeat⟩
        · cases h

/-! ### The whole input -/

/-- Every step of the loop reads a token off the front and appends what it brings. -/
theorem expands_of_decompressOnto {limit : Nat} {output final : Array UInt8} {input : Bytes}
    (h : decompressOnto limit output input = .ok final) :
    final.size = limit ∧ ∃ tokens : List Token,
      Expands output.toList tokens final.toList ∧ input = tokens.flatMap Token.bytes := by
  fun_induction decompressOnto limit output input with
  | case1 output hlimit =>
      cases h
      exact ⟨hlimit, [], .nil, rfl⟩
  | case2 | case3 | case4 => cases h
  | case5 output control input token rest hread grown happend ih =>
      obtain ⟨hform, hwritable⟩ := form_of_readToken hread
      obtain ⟨added, hbrings, rfl⟩ := Token.brings_of_append output.toList hwritable happend
      obtain ⟨hsize, tokens, hexpands, hrest⟩ := ih h
      refine ⟨hsize, token :: tokens, .cons hbrings hexpands, ?_⟩
      rw [hform, hrest, List.flatMap_cons]

theorem compresses_of_decompress {input value : Bytes} {length : Nat}
    (h : decompress input length = .ok value) :
    Compresses input value ∧ value.length = length := by
  rw [decompress] at h
  split at h
  · cases h
  · split at h
    · rename_i final hfinal
      cases h
      obtain ⟨hsize, tokens, hexpands, hinput⟩ := expands_of_decompressOnto hfinal
      exact ⟨⟨tokens, hexpands, hinput⟩, hsize⟩
    · cases h

/-- **Exactly the compressed strings.** Of a length that can be held, what is decompressed is what the
bytes of tokens expand to, if that has the declared length; everything else is malformed. -/
theorem decompress_exact (input : Bytes) {length : Nat} (hlength : length < Word.count 63) :
    (∀ value, decompress input length = .ok value ↔
      Compresses input value ∧ value.length = length) ∧
    ((¬ ∃ value, Compresses input value ∧ value.length = length) ↔
      ∃ cause, decompress input length = .error (.malformed cause)) := by
  have hiff : ∀ value, decompress input length = .ok value ↔
      Compresses input value ∧ value.length = length := by
    intro value
    constructor
    · exact compresses_of_decompress
    · rintro ⟨hcompresses, rfl⟩
      exact hcompresses.decompress_eq hlength
  refine ⟨hiff, ?_⟩
  constructor
  · intro hnone
    rw [decompress, if_neg (by omega)]
    split
    · rename_i final hfinal
      have hfound : decompress input length = .ok final.toList := by
        rw [decompress, if_neg (by omega), hfinal]
      exact absurd ⟨final.toList, (hiff _).1 hfound⟩ hnone
    · rename_i cause _
      exact ⟨cause, rfl⟩
  · rintro ⟨cause, hcause⟩ ⟨value, hvalue⟩
    rw [(hiff value).2 hvalue] at hcause
    cases hcause

/-- A reference that overlaps what it writes, and one that would reach before the start. -/
theorem decompress_exact_overlap :
    (6 < Word.count 63 ∧
      decompress [1, 97, 98, 0x40, 1] 6 = .ok [97, 98, 97, 98, 97, 98] ∧
      Compresses [1, 97, 98, 0x40, 1] [97, 98, 97, 98, 97, 98]) ∧
    (4 < Word.count 63 ∧ decompress [0, 97, 0x20, 5] 4 = .error (.malformed .lzfDistance) ∧
      ¬ ∃ value, Compresses [0, 97, 0x20, 5] value ∧ value.length = 4) := by
  have hsix : 6 < Word.count 63 := by decide
  have hfour : 4 < Word.count 63 := by decide
  have hfound : decompress [1, 97, 98, 0x40, 1] 6 = .ok [97, 98, 97, 98, 97, 98] := by
    rw [decompress, if_neg (by decide)]
    simp [decompressOnto, readToken, Token.append, repeatBack]
  have hrefused : decompress [0, 97, 0x20, 5] 4 = .error (.malformed .lzfDistance) := by
    rw [decompress, if_neg (by decide)]
    simp [decompressOnto, readToken, Token.append]
  obtain ⟨hiff, _⟩ := decompress_exact [1, 97, 98, 0x40, 1] hsix
  obtain ⟨_, hnone⟩ := decompress_exact [0, 97, 0x20, 5] hfour
  exact ⟨⟨hsix, hfound, ((hiff _).1 hfound).1⟩, hfour, hrefused, hnone.2 ⟨_, hrefused⟩⟩

/-! ### Where a compressed string ends -/

theorem decompress_cases (input : Bytes) {length : Nat} (hlength : length < Word.count 63) :
    (∃ value, decompress input length = .ok value) ∨
      ∃ cause, decompress input length = .error (.malformed cause) := by
  rw [decompress, if_neg (Nat.not_le_of_lt hlength)]
  cases decompressOnto length #[] input with
  | ok output => exact .inl ⟨output.toList, rfl⟩
  | error cause => exact .inr ⟨cause, rfl⟩

/-- Behind tokens that have brought all the bytes that were declared there is no room for another. -/
theorem eq_nil_of_decompress_append {input more value other : Bytes} {length : Nat}
    (h : decompress input length = .ok value)
    (hmore : decompress (input ++ more) length = .ok other) : more = [] := by
  obtain ⟨⟨tokens, hexpands, rfl⟩, rfl⟩ := compresses_of_decompress h
  rw [decompress] at hmore
  split at hmore
  · cases hmore
  · split at hmore
    · rename_i final hfinal
      rw [hexpands.decompressOnto_append (Nat.le_refl _)] at hfinal
      obtain ⟨hsize, later, hlater, rfl⟩ := expands_of_decompressOnto hfinal
      cases later with
      | nil => rfl
      | cons token later =>
          have hgrown := hlater.length_lt
          simp only [Array.length_toList] at hgrown
          omega
    · cases hmore

/-- **No compressed string begins another one** of the same length. Cut short anywhere, be it inside a
token or between two of them, or continued by anything, it is malformed. -/
theorem decompress_prefixFree {input value : Bytes} {length : Nat}
    (h : decompress input length = .ok value) :
    (∀ front, front <+: input → front ≠ input →
      ∃ cause, decompress front length = .error (.malformed cause)) ∧
    ∀ more, more ≠ [] → ∃ cause, decompress (input ++ more) length = .error (.malformed cause) := by
  have hlength : length < Word.count 63 := by
    apply Nat.lt_of_not_le
    intro hlarge
    rw [decompress, if_pos hlarge] at h
    cases h
  constructor
  · rintro front ⟨more, rfl⟩ hless
    apply (decompress_cases front hlength).resolve_left
    rintro ⟨other, hfront⟩
    have hnothing := eq_nil_of_decompress_append hfront h
    apply hless
    rw [hnothing, List.append_nil]
  · intro more hmore
    apply (decompress_cases (input ++ more) hlength).resolve_left
    rintro ⟨other, hother⟩
    exact hmore (eq_nil_of_decompress_append h hother)

/-- A literal of two bytes and a reference that repeats them twice: cut inside the reference, cut in
front of it, and with one more literal behind. -/
theorem decompress_prefixFree_overlap :
    decompress [1, 97, 98, 0x40, 1] 6 = .ok [97, 98, 97, 98, 97, 98] ∧
      (∃ cause, decompress [1, 97, 98, 0x40] 6 = .error (.malformed cause)) ∧
      (∃ cause, decompress [1, 97, 98] 6 = .error (.malformed cause)) ∧
      ∃ cause, decompress ([1, 97, 98, 0x40, 1] ++ [0, 99]) 6 = .error (.malformed cause) := by
  have hfound : decompress [1, 97, 98, 0x40, 1] 6 = .ok [97, 98, 97, 98, 97, 98] := by
    rw [decompress, if_neg (by decide)]
    simp [decompressOnto, readToken, Token.append, repeatBack]
  obtain ⟨hcut, hmore⟩ := decompress_prefixFree hfound
  exact ⟨hfound, hcut _ (by decide) (by decide), hcut _ (by decide) (by decide),
    hmore _ (by decide)⟩

end RedisSnapshot.Lzf
