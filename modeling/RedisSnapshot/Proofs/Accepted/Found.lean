import RedisSnapshot.Proofs.Forms.Field

/-!
# What readers have found

A reader that is done says what it has found and where it has stopped, and in between lie the bytes
that it has taken. A run is taken apart here into the runs of its parts, down to single bytes and
words: what was found as an integer, a length or a row of values stands there in a form of it. A
reader that is not done has one part that is not, and says by it where it has stopped.
-/

namespace RedisSnapshot

namespace Reader

variable {ε α β : Type} {cursor after : Cursor}

theorem done_of_byte {first : UInt8} (h : (byte : Reader ε UInt8).run cursor = .done first after) :
    cursor.rest = first :: after.rest := by
  obtain ⟨offset, _ | ⟨found, rest⟩⟩ := cursor <;> cases h
  rfl

theorem done_of_take {count : Nat} {bytes : Bytes}
    (h : (take count : Reader ε Bytes).run cursor = .done bytes after) :
    bytes.length = count ∧ cursor.rest = bytes ++ after.rest := by
  simp only [take] at h
  split at h
  · rename_i hlength
    cases h
    exact ⟨hlength, (List.take_append_drop count cursor.rest).symm⟩
  · cases h

theorem done_of_ofExcept {result : Except ε α} {value : α}
    (h : (ofExcept result).run cursor = .done value after) : result = .ok value ∧ after = cursor := by
  cases result <;> cases h
  exact ⟨rfl, rfl⟩

theorem done_of_big {width value : Nat}
    (h : (big width : Reader ε Nat).run cursor = .done value after) :
    value < Nat.pow 256 width ∧ cursor.rest = Word.toBig width value ++ after.rest := by
  obtain ⟨bytes, middle, htake, hvalue⟩ := done_of_bind h
  cases hvalue
  obtain ⟨rfl, hrest⟩ := done_of_take htake
  exact ⟨Word.big_lt bytes, by rw [Word.toBig_big, hrest]⟩

theorem done_of_little {width value : Nat}
    (h : (little width : Reader ε Nat).run cursor = .done value after) :
    value < Nat.pow 256 width ∧ cursor.rest = Word.toLittle width value ++ after.rest := by
  obtain ⟨bytes, middle, htake, hvalue⟩ := done_of_bind h
  cases hvalue
  obtain ⟨rfl, hrest⟩ := done_of_take htake
  exact ⟨Word.little_lt bytes, by rw [Word.toLittle_little, hrest]⟩

theorem done_of_signedLittle {width : Nat} {value : Int} (hwidth : 0 < width)
    (h : (signedLittle width : Reader ε Int).run cursor = .done value after) :
    ∃ bytes, IntegerForm width value bytes ∧ cursor.rest = bytes ++ after.rest := by
  obtain ⟨bytes, middle, htake, hvalue⟩ := done_of_bind h
  cases hvalue
  obtain ⟨rfl, hrest⟩ := done_of_take htake
  have hlt : Word.little bytes < Word.count (8 * bytes.length) := by
    rw [Word.count_bytes]
    exact Word.little_lt bytes
  obtain ⟨hfits, hword⟩ := Word.ofInt_signed (by omega) hlt
  refine ⟨bytes, ⟨hfits, ?_⟩, hrest⟩
  rw [Function.comp_apply, hword, Word.toLittle_little]

/-! ### Readers that are not done -/

section NotDone

variable {need : Need} {fault : ε}

theorem short_of_map {reader : Reader ε α} {f : α → β}
    (h : (f <$> reader).run cursor = .short need after) :
    reader.run cursor = .short need after := by
  rcases short_of_bind h with h | ⟨_, _, _, hpure⟩
  · exact h
  · cases hpure

theorem short_of_byte (h : (byte : Reader ε UInt8).run cursor = .short need after) :
    cursor.rest = [] ∧ after = cursor := by
  obtain ⟨offset, _ | ⟨found, rest⟩⟩ := cursor <;> cases h
  exact ⟨rfl, rfl⟩

theorem short_of_take {count : Nat} (h : (take count : Reader ε Bytes).run cursor = .short need after) :
    cursor.rest.length < count ∧ after = cursor := by
  simp only [take] at h
  split at h
  · cases h
  · rename_i hlength
    cases h
    rw [List.length_take] at hlength
    exact ⟨by omega, rfl⟩

theorem failed_of_ofExcept {result : Except ε α}
    (h : (ofExcept result).run cursor = .failed fault after) :
    result = .error fault ∧ after = cursor := by
  cases result <;> cases h
  exact ⟨rfl, rfl⟩

theorem not_short_ofExcept {result : Except ε α} :
    (ofExcept result).run cursor ≠ .short need after := by
  cases result <;> nofun

/-- Bytes that are only taken are not objected to. -/
def Accepts (reader : Reader ε α) : Prop :=
  ∀ cursor fault after, reader.run cursor ≠ .failed fault after

theorem Accepts.byte : (Reader.byte : Reader ε UInt8).Accepts := by
  rintro ⟨offset, _ | ⟨found, rest⟩⟩ fault after h <;> cases h

theorem Accepts.take (count : Nat) : (Reader.take count : Reader ε Bytes).Accepts := by
  intro cursor fault after h
  simp only [Reader.take] at h
  split at h <;> cases h

theorem Accepts.map {reader : Reader ε α} (f : α → β) (h : reader.Accepts) :
    (f <$> reader).Accepts := by
  intro cursor fault after hrun
  rcases failed_of_bind hrun with hfirst | ⟨_, _, _, hpure⟩
  · exact h _ _ _ hfirst
  · cases hpure

end NotDone

/-! ### Rows -/

variable {form : α → Bytes → Prop}

/-- Steps that put one value each in front of those before it have taken a row of them. -/
theorem done_of_iterate {step : List α → Reader ε (List α)}
    (hstep : ∀ {found result cursor after}, (step found).run cursor = .done result after →
      ∃ value bytes, result = value :: found ∧ form value bytes ∧ cursor.rest = bytes ++ after.rest)
    {count : Nat} {found result : List α}
    (h : (iterate step count found).run cursor = .done result after) :
    ∃ values body, result = values.reverse ++ found ∧ values.length = count ∧
      Row form values body ∧ cursor.rest = body ++ after.rest := by
  induction count generalizing found cursor with
  | zero =>
      cases h
      exact ⟨[], [], rfl, rfl, .nil, rfl⟩
  | succ count ih =>
      have hbind : (step found >>= iterate step count).run cursor = .done result after := h
      obtain ⟨first, middle, hfirst, hlater⟩ := done_of_bind hbind
      obtain ⟨value, front, rfl, hvalue, hfront⟩ := hstep hfirst
      obtain ⟨values, body, rfl, rfl, hrow, hbody⟩ := ih hlater
      refine ⟨value :: values, front ++ body, ?_, rfl, .cons hvalue hrow, ?_⟩
      · rw [List.reverse_cons, List.append_assoc, List.singleton_append]
      · rw [hfront, hbody, List.append_assoc]

theorem done_of_times {reader : Reader ε α} {count : Nat} {values : List α}
    (hreader : ∀ {value cursor after}, reader.run cursor = .done value after →
      ∃ bytes, form value bytes ∧ cursor.rest = bytes ++ after.rest)
    (h : (times count reader).run cursor = .done values after) :
    values.length = count ∧ ∃ body, Row form values body ∧ cursor.rest = body ++ after.rest := by
  obtain ⟨reversed, middle, hreversed, hvalues⟩ := done_of_bind h
  cases hvalues
  have hstep : ∀ {found result : List α} {cursor after : Cursor},
      ((· :: found) <$> reader).run cursor = .done result after →
        ∃ value bytes, result = value :: found ∧ form value bytes ∧
          cursor.rest = bytes ++ after.rest := by
    intro found result cursor after hrun
    obtain ⟨value, middle, hvalue, hresult⟩ := done_of_bind hrun
    cases hresult
    obtain ⟨bytes, hform, hrest⟩ := hreader hvalue
    exact ⟨value, bytes, rfl, hform, hrest⟩
  obtain ⟨values, body, rfl, hlength, hrow, hrest⟩ := done_of_iterate hstep hreversed
  rw [List.append_nil, List.reverse_reverse]
  exact ⟨hlength, body, hrow, hrest⟩

theorem done_of_collectStep {next? : Reader ε (Option α)} {found : List α} {result : List α × Bool}
    (h : (collectStep next? found).run cursor = .done result after) :
    (∃ value, next?.run cursor = .done (some value) after ∧ result = (value :: found, true)) ∨
      next?.run cursor = .done none after ∧ result = (found, false) := by
  obtain ⟨next, middle, hnext, hresult⟩ := done_of_bind h
  cases next with
  | some value =>
      cases hresult
      exact .inl ⟨value, hnext, rfl⟩
  | none =>
      cases hresult
      exact .inr ⟨hnext, rfl⟩

/-- A run that has collected values has taken a row of them and the ending behind it. -/
theorem done_of_collect {next? : Reader ε (Option α)} {ending : Bytes}
    (hsome : ∀ {value cursor after}, next?.run cursor = .done (some value) after →
      ∃ bytes, bytes ≠ [] ∧ form value bytes ∧ cursor.rest = bytes ++ after.rest)
    (hnone : ∀ {cursor after}, next?.run cursor = .done none after →
      cursor.rest = ending ++ after.rest)
    {values : List α} (h : (collect next?).run cursor = .done values after) :
    ∃ body, Row form values body ∧ cursor.rest = body ++ (ending ++ after.rest) := by
  have hrun : ∀ (found : List α) (cursor : Cursor) (result : List α),
      untilDoneRun (collectStep next?) found cursor = .done result after →
        ∃ values body, result = values.reverse ++ found ∧ Row form values body ∧
          cursor.rest = body ++ (ending ++ after.rest) := by
    intro found cursor result hdone
    fun_induction untilDoneRun (collectStep next?) found cursor with
    | case1 found cursor later middle hstep hlt ih =>
        rcases done_of_collectStep hstep with ⟨value, hnext, heq⟩ | ⟨_, heq⟩ <;> cases heq
        obtain ⟨front, _, hvalue, hfront⟩ := hsome hnext
        obtain ⟨values, body, rfl, hrow, hbody⟩ := ih hdone
        refine ⟨value :: values, front ++ body, ?_, .cons hvalue hrow, ?_⟩
        · rw [List.reverse_cons, List.append_assoc, List.singleton_append]
        · rw [hfront, hbody, List.append_assoc]
    | case2 found cursor later middle hstep hlt =>
        -- No value is found in no bytes, so the reader cannot have stayed where it was.
        rcases done_of_collectStep hstep with ⟨value, hnext, heq⟩ | ⟨_, heq⟩ <;> cases heq
        obtain ⟨front, hfront, _, hrest⟩ := hsome hnext
        have hreaches := next?.reaches cursor
        rw [hnext] at hreaches
        have htotal : middle.offset + middle.rest.length = cursor.offset + cursor.rest.length :=
          hreaches.total_eq
        rw [hrest, List.length_append] at htotal
        have hpos := List.length_pos_iff.2 hfront
        omega
    | case3 found cursor later middle hstep =>
        rcases done_of_collectStep hstep with ⟨_, _, heq⟩ | ⟨hnext, heq⟩ <;> cases heq
        cases hdone
        exact ⟨[], [], rfl, .nil, hnone hnext⟩
    | case4 | case5 => cases hdone
  obtain ⟨reversed, middle, hreversed, hvalues⟩ := done_of_bind h
  cases hvalues
  obtain ⟨values, body, rfl, hrow, hrest⟩ := hrun [] cursor reversed hreversed
  rw [List.append_nil, List.reverse_reverse]
  exact ⟨body, hrow, hrest⟩

/-! ### What is found whatever the bytes are -/

section Ensures

variable {property : β → Prop}

/-- Whatever the reader yields has the property. -/
def Ensures (reader : Reader ε β) (property : β → Prop) : Prop :=
  ∀ cursor value after, reader.run cursor = .done value after → property value

theorem Ensures.pure {value : β} (h : property value) :
    (Pure.pure value : Reader ε β).Ensures property := by
  intro _ _ _ hrun
  cases hrun
  exact h

theorem Ensures.fail (fault : ε) : (Reader.fail fault : Reader ε β).Ensures property := by
  intro _ _ _ hrun
  cases hrun

theorem Ensures.bind {reader : Reader ε α} {next : α → Reader ε β}
    (h : ∀ value, (next value).Ensures property) : (reader >>= next).Ensures property := by
  intro cursor value after hrun
  obtain ⟨first, middle, _, hnext⟩ := done_of_bind hrun
  exact h first _ _ _ hnext

/-- What comes later may rest on what is found first. -/
theorem Ensures.bind_of {earlier : α → Prop} {reader : Reader ε α} {next : α → Reader ε β}
    (h : reader.Ensures earlier) (hnext : ∀ value, earlier value → (next value).Ensures property) :
    (reader >>= next).Ensures property := by
  intro cursor value after hrun
  obtain ⟨first, middle, hfirst, hlater⟩ := done_of_bind hrun
  exact hnext first (h _ _ _ hfirst) _ _ _ hlater

theorem Ensures.times {reader : Reader ε β} (h : reader.Ensures property) (count : Nat) :
    (Reader.times count reader).Ensures fun values => ∀ value ∈ values, property value := by
  intro cursor values after hrun value hmem
  have hreader : ∀ {value : β} {cursor after : Cursor}, reader.run cursor = .done value after →
      ∃ bytes, (fun (value : β) (_ : Bytes) => property value) value bytes ∧
        cursor.rest = bytes ++ after.rest := by
    intro value cursor after hvalue
    have hreaches := reader.reaches cursor
    rw [hvalue] at hreaches
    obtain ⟨used, hused, _⟩ := hreaches
    exact ⟨used, h _ _ _ hvalue, hused⟩
  obtain ⟨_, body, hrow, _⟩ := done_of_times hreader hrun
  obtain ⟨_, hvalue⟩ := hrow.exists_form hmem
  exact hvalue

end Ensures

end Reader

namespace Decoder

open Reader

/-- The bytes of what a field announces. -/
inductive Announces : Announced → Bytes → Prop where
  | length {count : Nat} {form : Bytes} (h : LengthForm count form) :
      Announces (.length count) form
  | literal {kind : Nat} (h : kind < 64) : Announces (.literal kind) [UInt8.ofNat (192 + kind)]

theorem announces_of_done {cursor after : Cursor} {found : Announced}
    (h : announced.run cursor = .done found after) :
    ∃ form, Announces found form ∧ cursor.rest = form ++ after.rest := by
  obtain ⟨first, middle, hfirst, hrun⟩ := done_of_bind h
  have hlt := first.toNat_lt
  have hlow : first.toNat % 64 < 64 := Nat.mod_lt _ (by decide)
  rw [done_of_byte hfirst]
  dsimp only at hrun
  split at hrun
  · rename_i hform
    cases hrun
    have hbyte : first = UInt8.ofNat (first.toNat % 64) := Word.byte_eq (by omega)
    have hlength := LengthForm.six hlow
    rw [← hbyte] at hlength
    exact ⟨[first], .length hlength, rfl⟩
  · rename_i hform
    obtain ⟨second, last, hsecond, hvalue⟩ := done_of_bind hrun
    cases hvalue
    have hsmall := second.toNat_lt
    have hcount : 256 * (first.toNat % 64) + second.toNat < 16384 := by omega
    have hbyte : first =
        UInt8.ofNat (64 + (256 * (first.toNat % 64) + second.toNat) / 256) :=
      Word.byte_eq (by omega)
    have hlast : second = UInt8.ofNat (256 * (first.toNat % 64) + second.toNat) :=
      Word.byte_eq (by omega)
    have hlength := LengthForm.fourteen hcount
    rw [← hbyte, ← hlast] at hlength
    exact ⟨[first, second], .length hlength, by rw [done_of_byte hsecond]; rfl⟩
  · split at hrun
    · rename_i hword
      obtain ⟨count, last, hcount, hvalue⟩ := done_of_bind hrun
      cases hvalue
      obtain ⟨hsmall, hrest⟩ := done_of_big hcount
      rw [hrest, hword]
      exact ⟨_, .length (.word hsmall), rfl⟩
    · split at hrun
      · rename_i hlong
        obtain ⟨count, last, hcount, hvalue⟩ := done_of_bind hrun
        cases hvalue
        obtain ⟨hsmall, hrest⟩ := done_of_big hcount
        rw [hrest, hlong]
        exact ⟨_, .length (.long hsmall), rfl⟩
      · cases hrun
  · rename_i hsix hfourteen hwide
    cases hrun
    have hform : first.toNat / 64 = 3 := by
      rw [imp_false] at hsix hfourteen hwide
      omega
    have hbyte : first = UInt8.ofNat (192 + first.toNat % 64) := Word.byte_eq (by omega)
    have hliteral := Announces.literal hlow
    rw [← hbyte] at hliteral
    exact ⟨[first], hliteral, rfl⟩

theorem lengthForm_of_done {cursor after : Cursor} {count : Nat}
    (h : length.run cursor = .done count after) :
    ∃ form, LengthForm count form ∧ cursor.rest = form ++ after.rest := by
  obtain ⟨found, middle, hfound, hrun⟩ := done_of_bind h
  obtain ⟨form, hform, hrest⟩ := announces_of_done hfound
  cases hform with
  | length hform => cases hrun; exact ⟨form, hform, hrest⟩
  | literal => cases hrun

/-- A container is decoded by a run of its decoder from its first byte on. -/
theorem done_of_readBlob {α : Type} {decoder : Decoder α} {blob : Bytes} {value : α}
    (h : readBlob decoder blob = .ok value) :
    ∃ after, decoder.run (.start blob) = .done value after := by
  unfold readBlob decodeBlob at h
  split at h
  · rename_i after hrun
    cases h
    exact ⟨after, hrun⟩
  · cases h
  · cases h
  · cases h

end Decoder

end RedisSnapshot
