import RedisSnapshot.Proofs.Reads

/-!
# Words of a fixed width

The writing side of numbers in a snapshot: so many bytes in either order, and the word that an
integer has in two's complement. A number comes back from its word exactly if the word is wide
enough for it.
-/

namespace RedisSnapshot

namespace Word

/-- So many bytes of a number, the least significant first. -/
def toLittle : (width value : Nat) → Bytes
  | 0, _ => []
  | width + 1, value => UInt8.ofNat value :: toLittle width (value / 256)

/-- So many bytes of a number, the most significant first. -/
def toBig (width value : Nat) : Bytes :=
  (toLittle width value).reverse

/-- The word of so many bits that an integer has in two's complement. -/
def ofInt (bits : Nat) (value : Int) : Nat :=
  (value % count bits).toNat

def Fits (bits : Nat) (value : Int) : Prop :=
  -(count (bits - 1) : Int) ≤ value ∧ value < count (bits - 1)

instance (bits : Nat) (value : Int) : Decidable (Fits bits value) :=
  inferInstanceAs (Decidable (_ ∧ _))

theorem byte_eq {byte : UInt8} {value : Nat} (h : byte.toNat = value % 256) :
    byte = UInt8.ofNat value :=
  UInt8.toNat_inj.1 (h.trans UInt8.toNat_ofNat.symm)

theorem toNat_byte {value : Nat} (h : value < 256) : (UInt8.ofNat value).toNat = value :=
  UInt8.toNat_ofNat_of_lt' h

@[simp]
theorem toLittle_length (width value : Nat) : (toLittle width value).length = width := by
  induction width generalizing value with
  | zero => rfl
  | succ width ih => rw [toLittle, List.length_cons, ih]

@[simp]
theorem toBig_length (width value : Nat) : (toBig width value).length = width := by
  rw [toBig, List.length_reverse, toLittle_length]

theorem little_toLittle {width value : Nat} (h : value < Nat.pow 256 width) :
    little (toLittle width value) = value := by
  induction width generalizing value with
  | zero =>
      have hzero : value = 0 := Nat.lt_one_iff.1 h
      rw [hzero]
      rfl
  | succ width ih =>
      have hlow : (UInt8.ofNat value).toNat = value % 256 := UInt8.toNat_ofNat
      have hhigh : value / 256 < Nat.pow 256 width := Nat.div_lt_of_lt_mul (by
        rwa [← Nat.mul_comm (Nat.pow 256 width) 256])
      rw [toLittle, little, ih hhigh, hlow, Nat.mod_add_div]

theorem big_reverse (bytes : Bytes) : big bytes.reverse = little bytes := by
  induction bytes with
  | nil => rfl
  | cons byte rest ih => rw [List.reverse_cons, big_append, ih, little, Nat.add_comm]

theorem big_toBig {width value : Nat} (h : value < Nat.pow 256 width) :
    big (toBig width value) = value := by
  rw [toBig, big_reverse, little_toLittle h]

theorem toLittle_little (bytes : Bytes) : toLittle bytes.length (little bytes) = bytes := by
  induction bytes with
  | nil => rfl
  | cons byte rest ih =>
      have hlt := byte.toNat_lt
      have hrest : (byte.toNat + 256 * little rest) / 256 = little rest := by omega
      have hbyte : byte = UInt8.ofNat (byte.toNat + 256 * little rest) := byte_eq (by omega)
      rw [List.length_cons, little, toLittle, hrest, ih, ← hbyte]

theorem toBig_big (bytes : Bytes) : toBig bytes.length (big bytes) = bytes := by
  obtain ⟨reversed, rfl⟩ : ∃ reversed : Bytes, bytes = reversed.reverse :=
    ⟨bytes.reverse, bytes.reverse_reverse.symm⟩
  rw [big_reverse, toBig, List.length_reverse, toLittle_little]

theorem big_lt (bytes : Bytes) : big bytes < Nat.pow 256 bytes.length := by
  obtain ⟨reversed, rfl⟩ : ∃ reversed : Bytes, bytes = reversed.reverse :=
    ⟨bytes.reverse, bytes.reverse_reverse.symm⟩
  rw [big_reverse, List.length_reverse]
  exact little_lt reversed

theorem count_pos (bits : Nat) : 0 < count bits :=
  Nat.pow_pos (by decide)

theorem count_succ (bits : Nat) : count (bits + 1) = 2 * count bits :=
  Nat.mul_comm (Nat.pow 2 bits) 2

theorem count_bytes (width : Nat) : count (8 * width) = Nat.pow 256 width :=
  Nat.pow_mul 2 8 width

theorem ofInt_lt (bits : Nat) (value : Int) : ofInt bits value < count bits := by
  have hpos := count_pos bits
  unfold ofInt
  have hlt := Int.emod_lt_of_pos value (b := (count bits : Int)) (by omega)
  omega

theorem signed_ofInt {bits : Nat} {value : Int} (hbits : 0 < bits) (h : Fits bits value) :
    signed bits (ofInt bits value) = value := by
  obtain ⟨half, rfl⟩ : ∃ half, bits = half + 1 := ⟨bits - 1, by omega⟩
  obtain ⟨hlow, hhigh⟩ := h
  have hpos := count_pos half
  rw [Nat.add_sub_cancel] at hlow hhigh
  unfold signed ofInt
  rw [Nat.add_sub_cancel, count_succ]
  by_cases hsign : 0 ≤ value
  · have hword : value % ((2 * count half : Nat) : Int) = value :=
      Int.emod_eq_of_lt hsign (by omega)
    rw [hword, if_pos (by omega)]
    omega
  · have hword : value % ((2 * count half : Nat) : Int) = value + (2 * count half : Nat) := by
      rw [← Int.add_emod_right, Int.emod_eq_of_lt (by omega) (by omega)]
    rw [hword, if_neg (by omega)]
    omega

/-- Every word is that of the integer it stands for, which fits. -/
theorem ofInt_signed {bits value : Nat} (hbits : 0 < bits) (h : value < count bits) :
    Fits bits (signed bits value) ∧ ofInt bits (signed bits value) = value := by
  obtain ⟨half, rfl⟩ : ∃ half, bits = half + 1 := ⟨bits - 1, by omega⟩
  rw [count_succ] at h
  unfold Fits signed ofInt
  rw [Nat.add_sub_cancel, count_succ]
  by_cases hsign : value < count half
  · rw [if_pos hsign, Int.emod_eq_of_lt (by omega) (by omega)]
    omega
  · have hword : ((value : Int) - (2 * count half : Nat)) % ((2 * count half : Nat) : Int) =
        value := by
      rw [Int.sub_emod_right, Int.emod_eq_of_lt (by omega) (by omega)]
    rw [if_neg hsign, hword]
    omega

end Word

namespace Reader

variable {ε : Type}

theorem Reads.little {width value : Nat} (h : value < Nat.pow 256 width) :
    (Reader.little width : Reader ε Nat).Reads value (Word.toLittle width value) := by
  have hword := (Reads.take (ε := ε) (Word.toLittle_length width value)).map Word.little
  rwa [Word.little_toLittle h] at hword

theorem Reads.big {width value : Nat} (h : value < Nat.pow 256 width) :
    (Reader.big width : Reader ε Nat).Reads value (Word.toBig width value) := by
  have hword := (Reads.take (ε := ε) (Word.toBig_length width value)).map Word.big
  rwa [Word.big_toBig h] at hword

theorem Reads.signedLittle_word {width word : Nat} (h : word < Nat.pow 256 width) :
    (Reader.signedLittle width : Reader ε Int).Reads (Word.signed (8 * width) word)
      (Word.toLittle width word) := by
  have hword := (Reads.take (ε := ε) (Word.toLittle_length width word)).map
    (Word.signed (8 * width) ∘ Word.little)
  rwa [Function.comp_apply, Word.little_toLittle h] at hword

theorem Reads.signedLittle {width : Nat} {value : Int} (hwidth : 0 < width)
    (h : Word.Fits (8 * width) value) :
    (Reader.signedLittle width : Reader ε Int).Reads value
      (Word.toLittle width (Word.ofInt (8 * width) value)) := by
  have hlt : Word.ofInt (8 * width) value < Nat.pow 256 width := by
    rw [← Word.count_bytes]
    exact Word.ofInt_lt _ _
  have hword := Reads.signedLittle_word (ε := ε) hlt
  rwa [Word.signed_ofInt (by omega) h] at hword

end Reader

end RedisSnapshot
