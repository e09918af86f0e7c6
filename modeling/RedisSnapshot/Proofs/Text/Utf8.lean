import RedisSnapshot.Proofs.Forms.Word
import RedisSnapshot.Text.Utf8

/-!
# Text is read back from its bytes

Every character is written as a first byte, which tells how many follow, and bytes that follow. The
range that the first byte asks of the next one leaves out just what no character needs, so that the
bytes of any character are read as that character, and what is behind them as if it stood alone. No
other bytes are read as a character.
-/

namespace RedisSnapshot.Text

theorem bytes_append (first second : String) :
    bytes (first ++ second) = bytes first ++ bytes second := by
  rw [bytes, bytes, bytes, String.toList_append, List.flatMap_append]

/-! ### The bytes of a character -/

section Follow

variable {following low high value : Nat} {byte : UInt8} {rest : Bytes}

theorem follow_of_within (hlow : low ≤ byte.toNat) (hhigh : byte.toNat ≤ high) :
    follow (following + 1) low high value (byte :: rest) =
      follow following 0x80 0xBF (64 * value + byte.toNat % 64) rest := by
  rw [follow, if_pos ⟨hlow, hhigh⟩]

/-- A byte that is not the first one has six bits. -/
theorem follow_bits {bits : Nat} (hbits : bits < 64) (hlow : low ≤ bits + 0x80)
    (hhigh : bits + 0x80 ≤ high) :
    follow (following + 1) low high value (UInt8.ofNat (bits + 0x80) :: rest) =
      follow following 0x80 0xBF (64 * value + bits) rest := by
  have hbyte : (UInt8.ofNat (bits + 0x80)).toNat = bits + 0x80 := Word.toNat_byte (by omega)
  rw [follow_of_within (by rwa [hbyte]) (by rwa [hbyte]), hbyte]
  congr 2
  omega

end Follow

theorem lead?_ofNat {value : Nat} (h : value < 256) :
    lead? (UInt8.ofNat value) =
      if value < 0x80 then some ⟨0, 0x80, 0xBF, value⟩
      else if value < 0xC2 then none
      else if value < 0xE0 then some ⟨1, 0x80, 0xBF, value % 0x20⟩
      else if value < 0xF0 then
        some ⟨2, if value = 0xE0 then 0xA0 else 0x80, if value = 0xED then 0x9F else 0xBF,
          value % 0x10⟩
      else if value < 0xF5 then
        some ⟨3, if value = 0xF0 then 0x90 else 0x80, if value = 0xF4 then 0x8F else 0xBF,
          value % 0x08⟩
      else none := by
  rw [lead?, Word.toNat_byte h]

/-- The bytes begin with one that asks for those behind it, and together they are the character of
this number. -/
structure Encodes (encoded : Bytes) (code : Nat) : Prop where
  exists_lead : ∃ byte lead following, encoded = byte :: following ∧ lead? byte = some lead ∧
    ∀ rest, follow lead.following lead.low lead.high lead.bits (following ++ rest) =
      (some code, rest)

section Encodes

variable {code : Nat}

theorem encodes_one (h : code < 0x80) : Encodes [UInt8.ofNat code] code := by
  have hlead : lead? (UInt8.ofNat code) = some ⟨0, 0x80, 0xBF, code⟩ := by
    rw [lead?_ofNat (by omega), if_pos h]
  exact ⟨_, _, _, rfl, hlead, fun _ => rfl⟩

theorem encodes_two (hlow : 0x80 ≤ code) (hhigh : code < 0x800) :
    Encodes [UInt8.ofNat (code / 64 % 32 + 0xC0), UInt8.ofNat (code % 64 + 0x80)] code := by
  have hlead : lead? (UInt8.ofNat (code / 64 % 32 + 0xC0)) =
      some ⟨1, 0x80, 0xBF, code / 64⟩ := by
    rw [lead?_ofNat (by omega), if_neg (by omega), if_neg (by omega), if_pos (by omega)]
    congr 2
    omega
  refine ⟨_, _, _, rfl, hlead, fun rest => ?_⟩
  dsimp only
  rw [List.singleton_append, follow_bits (by omega) (by omega) (by omega), follow]
  congr 2
  omega

theorem encodes_three (hlow : 0x800 ≤ code) (hhigh : code < 0x10000)
    (hvalid : code < 0xD800 ∨ 0xDFFF < code) :
    Encodes [UInt8.ofNat (code / 4096 % 16 + 0xE0), UInt8.ofNat (code / 64 % 64 + 0x80),
      UInt8.ofNat (code % 64 + 0x80)] code := by
  have hlead : lead? (UInt8.ofNat (code / 4096 % 16 + 0xE0)) =
      some ⟨2, if code / 4096 + 0xE0 = 0xE0 then 0xA0 else 0x80,
        if code / 4096 + 0xE0 = 0xED then 0x9F else 0xBF, code / 4096⟩ := by
    rw [lead?_ofNat (by omega), if_neg (by omega), if_neg (by omega), if_neg (by omega),
      if_pos (by omega), Nat.mod_eq_of_lt (by omega : code / 4096 < 16)]
    congr 2
    omega
  refine ⟨_, _, _, rfl, hlead, fun rest => ?_⟩
  dsimp only
  rw [List.cons_append, follow_bits (by omega) (by split <;> omega) (by split <;> omega),
    List.singleton_append, follow_bits (by omega) (by omega) (by omega), follow]
  congr 2
  omega

theorem encodes_four (hlow : 0x10000 ≤ code) (hhigh : code < 0x110000) :
    Encodes [UInt8.ofNat (code / 262144 % 8 + 0xF0), UInt8.ofNat (code / 4096 % 64 + 0x80),
      UInt8.ofNat (code / 64 % 64 + 0x80), UInt8.ofNat (code % 64 + 0x80)] code := by
  have hlead : lead? (UInt8.ofNat (code / 262144 % 8 + 0xF0)) =
      some ⟨3, if code / 262144 + 0xF0 = 0xF0 then 0x90 else 0x80,
        if code / 262144 + 0xF0 = 0xF4 then 0x8F else 0xBF, code / 262144⟩ := by
    rw [lead?_ofNat (by omega), if_neg (by omega), if_neg (by omega), if_neg (by omega),
      if_neg (by omega), if_pos (by omega), Nat.mod_eq_of_lt (by omega : code / 262144 < 8)]
    congr 2
    omega
  refine ⟨_, _, _, rfl, hlead, fun rest => ?_⟩
  dsimp only
  rw [List.cons_append, follow_bits (by omega) (by split <;> omega) (by split <;> omega),
    List.cons_append, follow_bits (by omega) (by omega) (by omega),
    List.singleton_append, follow_bits (by omega) (by omega) (by omega), follow]
  congr 2
  omega

end Encodes

theorem encodes_char (char : Char) : Encodes (String.utf8EncodeChar char) char.toNat := by
  obtain ⟨code, hcode⟩ : ∃ code, char.toNat = code := ⟨_, rfl⟩
  have hvalid : code < 0xD800 ∨ 0xDFFF < code ∧ code < 0x110000 := hcode ▸ char.valid
  have hvalue : char.val.toNat = code := hcode
  rw [String.utf8EncodeChar, hvalue, hcode]
  split
  · exact encodes_one (by omega)
  · split
    · exact encodes_two (by omega) (by omega)
    · split
      · exact encodes_three (by omega) (by omega) (by omega)
      · exact encodes_four (by omega) (by omega)

/-! ### The character of bytes -/

theorem lead?_cases {byte : UInt8} {lead : Lead} (h : lead? byte = some lead) :
    (byte.toNat < 0x80 ∧ lead = ⟨0, 0x80, 0xBF, byte.toNat⟩) ∨
    (0xC2 ≤ byte.toNat ∧ byte.toNat < 0xE0 ∧ lead = ⟨1, 0x80, 0xBF, byte.toNat % 0x20⟩) ∨
    (0xE0 ≤ byte.toNat ∧ byte.toNat < 0xF0 ∧ lead = ⟨2, if byte.toNat = 0xE0 then 0xA0 else 0x80,
      if byte.toNat = 0xED then 0x9F else 0xBF, byte.toNat % 0x10⟩) ∨
    (0xF0 ≤ byte.toNat ∧ byte.toNat < 0xF5 ∧ lead = ⟨3, if byte.toNat = 0xF0 then 0x90 else 0x80,
      if byte.toNat = 0xF4 then 0x8F else 0xBF, byte.toNat % 0x08⟩) := by
  rw [lead?] at h
  split at h
  · exact .inl ⟨‹_›, (Option.some.inj h).symm⟩
  · split at h
    · cases h
    · split at h
      · exact .inr (.inl ⟨by omega, ‹_›, (Option.some.inj h).symm⟩)
      · split at h
        · exact .inr (.inr (.inl ⟨by omega, ‹_›, (Option.some.inj h).symm⟩))
        · split at h
          · exact .inr (.inr (.inr ⟨by omega, ‹_›, (Option.some.inj h).symm⟩))
          · cases h

section Follow

variable {following low high value code : Nat} {rest behind : Bytes}

theorem exists_of_follow (h : follow (following + 1) low high value rest = (some code, behind)) :
    ∃ byte tail, rest = byte :: tail ∧ low ≤ byte.toNat ∧ byte.toNat ≤ high ∧
      follow following 0x80 0xBF (64 * value + byte.toNat % 64) tail = (some code, behind) := by
  cases rest with
  | nil => cases h
  | cons byte tail =>
      rw [follow] at h
      split at h
      · rename_i hwithin
        exact ⟨byte, tail, rfl, hwithin.1, hwithin.2, h⟩
      · cases h

theorem eq_of_follow (h : follow 0 low high value rest = (some code, behind)) :
    code = value ∧ behind = rest := by
  rw [follow] at h
  cases h
  exact ⟨rfl, rfl⟩

end Follow

theorem eq_ofNat {byte : UInt8} {value : Nat} (h : value = byte.toNat) :
    byte = UInt8.ofNat value := by
  rw [h, UInt8.ofNat_toNat]

theorem toNat_ofNat {code : Nat} (h : code < 0xD800 ∨ 0xDFFF < code ∧ code < 0x110000) :
    (Char.ofNat code).val.toNat = code := by
  have hvalid : code.isValidChar := h
  rw [Char.ofNat, dif_pos hvalid]
  rfl

/-- A first byte and those that it asks for are the bytes of the character that is read. -/
theorem eq_encode_of_follow {byte : UInt8} {lead : Lead} {rest behind : Bytes} {code : Nat}
    (hlead : lead? byte = some lead)
    (h : follow lead.following lead.low lead.high lead.bits rest = (some code, behind)) :
    byte :: rest = String.utf8EncodeChar (Char.ofNat code) ++ behind := by
  rcases lead?_cases hlead with ⟨hbyte, rfl⟩ | ⟨hlow, hhigh, rfl⟩ | ⟨hlow, hhigh, rfl⟩ |
    ⟨hlow, hhigh, rfl⟩
  · obtain ⟨hcode, rfl⟩ := eq_of_follow h
    dsimp only at hcode
    rw [String.utf8EncodeChar, toNat_ofNat (by omega), if_pos (by omega)]
    exact congrArg (· :: _) (eq_ofNat hcode)
  · obtain ⟨second, tail, rfl, hsecond, hsecond', h⟩ := exists_of_follow h
    obtain ⟨hcode, rfl⟩ := eq_of_follow h
    dsimp only at hsecond hsecond' hcode
    rw [String.utf8EncodeChar, toNat_ofNat (by omega), if_neg (by omega), if_pos (by omega)]
    simp only [List.cons_append, List.nil_append, List.cons.injEq, and_true]
    exact ⟨eq_ofNat (by omega), eq_ofNat (by omega)⟩
  · obtain ⟨second, tail, rfl, hsecond, hsecond', h⟩ := exists_of_follow h
    obtain ⟨third, tail, rfl, hthird, hthird', h⟩ := exists_of_follow h
    obtain ⟨hcode, rfl⟩ := eq_of_follow h
    dsimp only at hsecond hsecond' hcode
    -- the ranges of the second byte leave out what two bytes hold, and the surrogates
    have hlarge : 0x80 ≤ second.toNat ∧ (byte.toNat = 0xE0 → 0xA0 ≤ second.toNat) := by
      split at hsecond <;> omega
    have hsmall : second.toNat ≤ 0xBF ∧ (byte.toNat = 0xED → second.toNat ≤ 0x9F) := by
      split at hsecond' <;> omega
    clear hsecond hsecond'
    rw [String.utf8EncodeChar, toNat_ofNat (by omega), if_neg (by omega), if_neg (by omega),
      if_pos (by omega)]
    simp only [List.cons_append, List.nil_append, List.cons.injEq, and_true]
    exact ⟨eq_ofNat (by omega), eq_ofNat (by omega), eq_ofNat (by omega)⟩
  · obtain ⟨second, tail, rfl, hsecond, hsecond', h⟩ := exists_of_follow h
    obtain ⟨third, tail, rfl, hthird, hthird', h⟩ := exists_of_follow h
    obtain ⟨fourth, tail, rfl, hfourth, hfourth', h⟩ := exists_of_follow h
    obtain ⟨hcode, rfl⟩ := eq_of_follow h
    dsimp only at hsecond hsecond' hcode
    have hlarge : 0x80 ≤ second.toNat ∧ (byte.toNat = 0xF0 → 0x90 ≤ second.toNat) := by
      split at hsecond <;> omega
    have hsmall : second.toNat ≤ 0xBF ∧ (byte.toNat = 0xF4 → second.toNat ≤ 0x8F) := by
      split at hsecond' <;> omega
    clear hsecond hsecond'
    rw [String.utf8EncodeChar, toNat_ofNat (by omega), if_neg (by omega), if_neg (by omega),
      if_neg (by omega)]
    simp only [List.cons_append, List.nil_append, List.cons.injEq, and_true]
    exact ⟨eq_ofNat (by omega), eq_ofNat (by omega), eq_ofNat (by omega), eq_ofNat (by omega)⟩

/-! ### Whole texts -/

theorem decodeOnto_char (read : List (Option Char)) (char : Char) (rest : Bytes) :
    decodeOnto read (String.utf8EncodeChar char ++ rest) = decodeOnto (some char :: read) rest := by
  obtain ⟨byte, lead, following, hencoded, hlead, hfollow⟩ := (encodes_char char).exists_lead
  rw [hencoded, List.cons_append, decodeOnto, hlead]
  dsimp only
  rw [hfollow, Option.map_some, Char.ofNat_toNat]

theorem decode_bytes (text : String) : decode (bytes text) = text.toList.map some := by
  have honto : ∀ (chars : List Char) (read : List (Option Char)),
      decodeOnto read (chars.flatMap String.utf8EncodeChar) = read.reverse ++ chars.map some := by
    intro chars
    induction chars with
    | nil =>
        intro read
        rw [List.flatMap_nil, decodeOnto, List.map_nil, List.append_nil]
    | cons char chars ih =>
        intro read
        rw [List.flatMap_cons, decodeOnto_char, ih, List.reverse_cons, List.append_assoc]
        rfl
  exact honto text.toList []

theorem mapM_id_eq_some_iff {α : Type} {values : List (Option α)} {found : List α} :
    values.mapM id = some found ↔ values = found.map some := by
  constructor
  · intro h
    induction values generalizing found with
    | nil => cases h; rfl
    | cons value values ih =>
        rw [List.mapM_cons] at h
        obtain ⟨first, hfirst, h⟩ := Option.bind_eq_some_iff.1 h
        obtain ⟨rest, hrest, h⟩ := Option.bind_eq_some_iff.1 h
        cases h
        rw [List.map_cons, ih hrest]
        exact congrArg (· :: _) hfirst
  · rintro rfl
    induction found with
    | nil => rfl
    | cons value values ih =>
        rw [List.map_cons, List.mapM_cons, ih]
        rfl

/-- **Text is read back** from its bytes. -/
theorem strict?_bytes (text : String) : strict? (bytes text) = some text.toList :=
  mapM_id_eq_some_iff.2 (decode_bytes text)

theorem exists_append_decodeOnto (read : List (Option Char)) (input : Bytes) :
    ∃ found, decodeOnto read input = read.reverse ++ found := by
  induction read, input using decodeOnto.induct with
  | case1 read => exact ⟨[], by rw [decodeOnto, List.append_nil]⟩
  | case2 read byte rest hlead ih =>
      obtain ⟨found, hfound⟩ := ih
      refine ⟨none :: found, ?_⟩
      rw [decodeOnto, hlead]
      dsimp only
      rw [hfound, List.reverse_cons, List.append_assoc, List.singleton_append]
  | case3 read byte rest lead hlead next ih =>
      obtain ⟨found, hfound⟩ := ih
      refine ⟨next.1.map Char.ofNat :: found, ?_⟩
      rw [decodeOnto, hlead]
      dsimp only
      rw [hfound, List.reverse_cons, List.append_assoc, List.singleton_append]

theorem eq_of_decodeOnto (read : List (Option Char)) (input : Bytes) (chars : List Char)
    (h : decodeOnto read input = read.reverse ++ chars.map some) :
    input = chars.flatMap String.utf8EncodeChar := by
  induction read, input using decodeOnto.induct generalizing chars with
  | case1 read =>
      rw [decodeOnto, List.self_eq_append_right, List.map_eq_nil_iff] at h
      rw [h, List.flatMap_nil]
  | case2 read byte rest hlead =>
      obtain ⟨found, hfound⟩ := exists_append_decodeOnto (none :: read) rest
      rw [decodeOnto, hlead] at h
      dsimp only at h
      rw [hfound, List.reverse_cons, List.append_assoc, List.append_cancel_left_eq] at h
      obtain ⟨_, _, _, hnone, _⟩ := List.map_eq_cons_iff.1 h.symm
      cases hnone
  | case3 read byte rest lead hlead next ih =>
      obtain ⟨found, hfound⟩ := exists_append_decodeOnto (next.1.map Char.ofNat :: read) next.2
      rw [decodeOnto, hlead] at h
      dsimp only at h
      have hchars := h
      rw [hfound, List.reverse_cons, List.append_assoc, List.append_cancel_left_eq] at hchars
      obtain ⟨char, chars, rfl, hchar, -⟩ := List.map_eq_cons_iff.1 hchars.symm
      obtain ⟨code, hcode, rfl⟩ := Option.map_eq_some_iff.1 hchar.symm
      rw [List.flatMap_cons, ← ih chars ?_]
      · exact eq_encode_of_follow hlead (Prod.ext hcode rfl)
      · rw [h, ← hchar, List.reverse_cons, List.append_assoc]
        rfl

/-- What is read is the text whose bytes these are. -/
theorem strict?_eq_some_iff {input : Bytes} {chars : List Char} :
    strict? input = some chars ↔ input = bytes (String.ofList chars) := by
  constructor
  · intro h
    rw [bytes, String.toList_ofList]
    exact eq_of_decodeOnto [] input chars (mapM_id_eq_some_iff.1 h)
  · rintro rfl
    rw [strict?_bytes, String.toList_ofList]

@[simp]
theorem lossy_bytes (text : String) : lossy (bytes text) = text := by
  rw [lossy, decode_bytes, List.map_map]
  exact (congrArg String.ofList (List.map_id text.toList)).trans (String.ofList_toList)

/-- Bytes that are a text in UTF-8. -/
def IsUtf8 (input : Bytes) : Prop :=
  ∃ text : String, bytes text = input

/-- What is UTF-8 is not changed when it is shown. -/
theorem IsUtf8.bytes_lossy {input : Bytes} (h : IsUtf8 input) : bytes (lossy input) = input := by
  obtain ⟨text, rfl⟩ := h
  rw [lossy_bytes]

theorem IsUtf8.lossy_eq_iff {input : Bytes} (h : IsUtf8 input) {text : String} :
    lossy input = text ↔ input = bytes text := by
  constructor
  · rintro rfl
    exact h.bytes_lossy.symm
  · rintro rfl
    exact lossy_bytes text

/-- Only characters below the blank have bytes below it. -/
theorem le_of_mem_bytes {text : String} (h : ∀ char ∈ text.toList, 0x20 ≤ char.toNat) :
    ∀ byte ∈ bytes text, 0x20 ≤ byte.toNat := by
  have hbyte : ∀ {value}, 0x20 ≤ value → value < 256 → 0x20 ≤ (UInt8.ofNat value).toNat :=
    fun hlow hhigh => (Word.toNat_byte hhigh).symm ▸ hlow
  have hencoded : ∀ char ∈ text.toList, ∀ byte ∈ String.utf8EncodeChar char, 0x20 ≤ byte.toNat := by
    intro char hmem
    obtain ⟨code, hcode⟩ : ∃ code, char.val.toNat = code := ⟨_, rfl⟩
    have hlow : 0x20 ≤ code := hcode ▸ h char hmem
    rw [String.utf8EncodeChar, hcode]
    repeat' split
    all_goals
      simp only [List.mem_cons, List.not_mem_nil, or_false, forall_eq_or_imp, forall_eq]
      repeat' apply And.intro
      all_goals exact hbyte (by omega) (by omega)
  exact fun byte hmem =>
    have ⟨char, hchar, hbyte⟩ := List.mem_flatMap.1 hmem
    hencoded char hchar byte hbyte

end RedisSnapshot.Text
