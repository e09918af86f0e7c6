import RedisSnapshot.Proofs.Accepted.Found
import RedisSnapshot.Proofs.Composed

/-!
# Where memory runs out

The numbers of elements, nodes and pending entries that a snapshot declares are only counted off,
and one that is too large is found out when the bytes end. The length of a string is believed: room
for all of it is asked for before a byte of it is read, and a length that no memory can hold ends
the program. A compressed string has two such lengths. These are the only places: a decoder ends the
program exactly if it comes to read a string of this kind.
-/

namespace RedisSnapshot

/-- What begins with a string of which so many bytes would have to be held, more than there can be
held of anything. -/
inductive Unholdable (length : Nat) : Bytes → Prop where
  | plain {front : Bytes} (rest : Bytes) (hfront : LengthForm length front)
      (hlarge : Word.count 63 ≤ length) : Unholdable length (front ++ rest)
  | compressed {full : Nat} {front back : Bytes} (rest : Bytes) (hfront : LengthForm length front)
      (hback : LengthForm full back) (hlarge : Word.count 63 ≤ length) :
      Unholdable length (0xC3 :: (front ++ (back ++ rest)))
  | decompressed {packed front back : Bytes} (rest : Bytes)
      (hfront : LengthForm packed.length front) (hback : LengthForm length back)
      (hheld : packed.length < Word.count 63) (hlarge : Word.count 63 ≤ length) :
      Unholdable length (0xC3 :: (front ++ (back ++ (packed ++ rest))))

namespace Decoder

open Reader

/-! ### Decoders that end the program -/

/-- The decoder ends the program over so many bytes that it would have to hold. -/
def Crashes {α : Type} (decoder : Decoder α) (cursor : Cursor) (length : Nat) : Prop :=
  ∃ after, decoder.run cursor = .failed (.beyondMemory length) after

section Crashes

variable {α β : Type} {decoder : Decoder α} {next : α → Decoder β} {cursor : Cursor} {length : Nat}

theorem IsModest.not_crashes (h : decoder.IsModest) : ¬ decoder.Crashes cursor length :=
  fun ⟨_, hrun⟩ => h _ _ _ hrun

theorem Crashes.bind (h : decoder.Crashes cursor length) :
    Crashes (decoder >>= next) cursor length := by
  obtain ⟨after, hrun⟩ := h
  exact ⟨after, by rw [run_bind, hrun]⟩

theorem Crashes.bind_of_done {first : α} {middle : Cursor}
    (hrun : decoder.run cursor = .done first middle) (h : (next first).Crashes middle length) :
    Crashes (decoder >>= next) cursor length := by
  obtain ⟨after, hnext⟩ := h
  exact ⟨after, by rw [run_bind, hrun]; exact hnext⟩

theorem Crashes.of_bind (h : Crashes (decoder >>= next) cursor length) :
    decoder.Crashes cursor length ∨ ∃ first middle, decoder.run cursor = .done first middle ∧
      (next first).Crashes middle length := by
  obtain ⟨after, hrun⟩ := h
  rcases failed_of_bind hrun with hfirst | ⟨first, middle, hfirst, hlater⟩
  · exact .inl ⟨after, hfirst⟩
  · exact .inr ⟨first, middle, hfirst, after, hlater⟩

theorem crashes_ofExcept_iff {result : Except Fault α} :
    Crashes (Reader.ofExcept result) cursor length ↔ result = .error (.beyondMemory length) := by
  constructor
  · rintro ⟨after, hrun⟩
    cases result <;> cases hrun
    rfl
  · rintro rfl
    exact ⟨cursor, rfl⟩

theorem crashes_allocate_iff {count : Nat} :
    (allocate count).Crashes cursor length ↔ count = length ∧ Word.count 63 ≤ length := by
  unfold allocate
  split
  · rename_i hlarge
    constructor
    · rintro ⟨after, hrun⟩
      cases hrun
      exact ⟨rfl, hlarge⟩
    · rintro ⟨rfl, _⟩
      exact ⟨cursor, rfl⟩
  · rename_i hsmall
    constructor
    · intro hcrash
      exact absurd hcrash (IsModest.take count).not_crashes
    · rintro ⟨rfl, hlarge⟩
      exact absurd hlarge hsmall

end Crashes

/-! ### Strings -/

theorem done_of_allocate {count : Nat} {bytes : Bytes} {cursor after : Cursor}
    (h : (allocate count).run cursor = .done bytes after) :
    count < Word.count 63 ∧ bytes.length = count ∧ cursor.rest = bytes ++ after.rest := by
  unfold allocate at h
  split at h
  · cases h
  · exact ⟨by omega, done_of_take h⟩

theorem decompress_eq_beyondMemory_iff {packed : Bytes} {full length : Nat} :
    Lzf.decompress packed full = .error (.beyondMemory length) ↔
      full = length ∧ Word.count 63 ≤ length := by
  unfold Lzf.decompress
  split
  · rename_i hlarge
    constructor
    · rintro ⟨⟩
      exact ⟨rfl, hlarge⟩
    · rintro ⟨rfl, _⟩
      rfl
  · rename_i hsmall
    constructor
    · split <;> nofun
    · rintro ⟨rfl, hlarge⟩
      exact absurd hlarge hsmall

/-- The reader of what stands behind the first byte of a compressed string. -/
def compressed : Decoder Bytes := do
  let packedLength ← length
  let full ← length
  ofExcept (Lzf.decompress (← allocate packedLength) full)

/-- The reader of what stands behind the first byte of an integer in place of its text. -/
def integerText (width : Nat) : Decoder Bytes := do
  return Decimal.intBytes (← signedLittle width)

theorem unholdable_of_compressed {cursor : Cursor} {length : Nat}
    (h : compressed.Crashes cursor length) :
    Unholdable length (0xC3 :: cursor.rest) := by
  rcases h.of_bind with hcrash | ⟨size, second, hsize, hlater⟩
  · exact absurd hcrash isModest_length.not_crashes
  rcases hlater.of_bind with hcrash | ⟨full, third, hfull, hlast⟩
  · exact absurd hcrash isModest_length.not_crashes
  obtain ⟨front, hfront, hsecond⟩ := lengthForm_of_done hsize
  obtain ⟨back, hback, hthird⟩ := lengthForm_of_done hfull
  rw [hsecond, hthird]
  rcases hlast.of_bind with hcrash | ⟨packed, last, hpacked, hresult⟩
  · obtain ⟨rfl, hlarge⟩ := crashes_allocate_iff.1 hcrash
    exact .compressed _ hfront hback hlarge
  · obtain ⟨hheld, rfl, hrest⟩ := done_of_allocate hpacked
    obtain ⟨rfl, hlarge⟩ := decompress_eq_beyondMemory_iff.1 (crashes_ofExcept_iff.1 hresult)
    rw [hrest]
    exact .decompressed _ hfront hback hheld hlarge

theorem isModest_integerText (width : Nat) : (integerText width).IsModest :=
  .bind (.map _ (.take width)) fun _ => .pure _

/-- **Strings without room.** Reading a string ends the program exactly if nothing can hold it. -/
theorem crashes_string_iff {cursor : Cursor} {length : Nat} :
    string.Crashes cursor length ↔ Unholdable length cursor.rest := by
  constructor
  · intro h
    rcases h.of_bind with hcrash | ⟨found, middle, hfound, h⟩
    · exact absurd hcrash isModest_announced.not_crashes
    obtain ⟨form, hform, hrest⟩ := announces_of_done hfound
    rw [hrest]
    cases hform with
    | length hform =>
        obtain ⟨rfl, hlarge⟩ := crashes_allocate_iff.1 h
        exact .plain _ hform hlarge
    | literal =>
        split at h
        · contradiction
        · exact absurd h (isModest_integerText 1).not_crashes
        · exact absurd h (isModest_integerText 2).not_crashes
        · exact absurd h (isModest_integerText 4).not_crashes
        · rename_i hkind
          cases hkind
          exact unholdable_of_compressed h
        · exact absurd h (IsModest.malformed_at _).not_crashes
  · obtain ⟨offset, input⟩ := cursor
    intro h
    cases h with
    | plain rest hfront hlarge =>
        refine .bind_of_done (reads_announced hfront offset rest) ?_
        exact crashes_allocate_iff.2 ⟨rfl, hlarge⟩
    | compressed rest hfront hback hlarge =>
        refine .bind_of_done (reads_announced_literal 3 (by decide) offset _) ?_
        refine .bind_of_done (reads_length hfront _ _) ?_
        refine .bind_of_done (reads_length hback _ _) ?_
        exact .bind (crashes_allocate_iff.2 ⟨rfl, hlarge⟩)
    | decompressed rest hfront hback hheld hlarge =>
        refine .bind_of_done (reads_announced_literal 3 (by decide) offset _) ?_
        refine .bind_of_done (reads_length hfront _ _) ?_
        refine .bind_of_done (reads_length hback _ _) ?_
        refine .bind_of_done (reads_allocate hheld _ _) ?_
        exact crashes_ofExcept_iff.2 (decompress_eq_beyondMemory_iff.2 ⟨rfl, hlarge⟩)

/-! ### Everything that has strings in it -/

/-- On its way from one cursor the decoder comes to read a string at another. -/
inductive MeetsString : {α : Type} → Decoder α → Cursor → Cursor → Prop where
  | here (cursor : Cursor) : MeetsString string cursor cursor
  | first {α β : Type} {decoder : Decoder α} {next : α → Decoder β} {cursor place : Cursor}
      (h : MeetsString decoder cursor place) : MeetsString (decoder >>= next) cursor place
  | later {α β : Type} {decoder : Decoder α} {next : α → Decoder β} {value : α}
      {cursor middle place : Cursor} (hrun : decoder.run cursor = .done value middle)
      (h : MeetsString (next value) middle place) : MeetsString (decoder >>= next) cursor place

/-- One of the strings that the decoder comes to is one that nothing can hold. -/
def MeetsUnholdable {α : Type} (decoder : Decoder α) (cursor : Cursor) (length : Nat) : Prop :=
  ∃ place, decoder.MeetsString cursor place ∧ Unholdable length place.rest

theorem MeetsString.crashes {α : Type} {decoder : Decoder α} {cursor place : Cursor} {length : Nat}
    (h : decoder.MeetsString cursor place) (hplace : Unholdable length place.rest) :
    decoder.Crashes cursor length := by
  induction h with
  | here cursor => exact crashes_string_iff.2 hplace
  | first _ ih => exact (ih hplace).bind
  | later hrun _ ih => exact .bind_of_done hrun (ih hplace)

/-- Wherever the decoder ends the program there is a string that nothing can hold. -/
def BelievesStringsOnly {α : Type} (decoder : Decoder α) : Prop :=
  ∀ (cursor : Cursor) (length : Nat),
    decoder.Crashes cursor length → decoder.MeetsUnholdable cursor length

namespace BelievesStringsOnly

variable {α β σ : Type} {decoder : Decoder α}

theorem of_isModest (h : decoder.IsModest) : decoder.BelievesStringsOnly :=
  fun _ _ hcrash => absurd hcrash h.not_crashes

theorem string : string.BelievesStringsOnly :=
  fun cursor _ hcrash => ⟨cursor, .here cursor, crashes_string_iff.1 hcrash⟩

theorem bind {next : α → Decoder β} (h : decoder.BelievesStringsOnly)
    (hnext : ∀ value, (next value).BelievesStringsOnly) :
    BelievesStringsOnly (decoder >>= next) := by
  intro cursor length hcrash
  rcases hcrash.of_bind with hfirst | ⟨value, middle, hrun, hlater⟩
  · obtain ⟨place, hmeets, hplace⟩ := h cursor length hfirst
    exact ⟨place, .first hmeets, hplace⟩
  · obtain ⟨place, hmeets, hplace⟩ := hnext value middle length hlater
    exact ⟨place, .later hrun hmeets, hplace⟩

theorem iterate {step : σ → Decoder σ} (h : ∀ state, (step state).BelievesStringsOnly)
    (count : Nat) (state : σ) : BelievesStringsOnly (Reader.iterate step count state) := by
  induction count generalizing state with
  | zero => exact .of_isModest (.pure state)
  | succ count ih => exact .bind (h state) ih

end BelievesStringsOnly

theorem Composed.believesStringsOnly {α : Type} {decoder : Decoder α} (h : Composed decoder) :
    decoder.BelievesStringsOnly := by
  induction h with
  | length => exact .of_isModest isModest_length
  | string => exact .string
  | byte => exact .of_isModest .byte
  | take count => exact .of_isModest (.take count)
  | malformed cause => exact .of_isModest (.malformed cause)
  | malformed_at cause => exact .of_isModest (.malformed_at cause)
  | ofExcept hheld => exact .of_isModest (.ofExcept hheld)
  | pure value => exact .of_isModest (.pure value)
  | bind _ _ ih ihnext => exact .bind ih ihnext
  | iterate _ count state ih => exact .iterate ih count state

/-- **Where a decoder ends the program.** It does so exactly if it comes to a string that nothing
can hold. -/
theorem Composed.crashes_iff {α : Type} {decoder : Decoder α} (h : Composed decoder)
    {cursor : Cursor} {length : Nat} :
    decoder.Crashes cursor length ↔ decoder.MeetsUnholdable cursor length :=
  ⟨h.believesStringsOnly cursor length, fun ⟨_, hmeets, hplace⟩ => hmeets.crashes hplace⟩

end Decoder

end RedisSnapshot
