import RedisSnapshot.Proofs.Scan.Recorded

/-!
# Scans of cut and of continued bytes

A scan that has come to an end of its own looks at nothing behind it, so it ends the same way
whatever follows. It is therefore not to be had from fewer bytes than it consumed: what is cut off
before its end is found to be cut off, and has told a part of the same and nothing else.
-/

namespace RedisSnapshot.Scan

/-- The scan ended because its bytes did. -/
def EndsEarly (scan : Scan) : Prop :=
  ∃ failure : IoFailure, scan.result = .error (.io failure) ∧ failure.kind = .unexpectedEnd

theorem endsEarly_of_shortage {source : Source} (hsource : source.failure = none) {scan : Scan}
    {offset : Nat} (h : scan.result = .error (source.shortage offset)) : scan.EndsEarly := by
  refine ⟨.streamEnded offset, ?_, rfl⟩
  rw [h, Source.shortage, hsource]

theorem not_endsEarly_of_fault {scan : Scan} {fault : Fault} (h : scan.result = .error fault.error) :
    ¬ scan.EndsEarly := by
  rintro ⟨failure, hresult, _⟩
  rw [h] at hresult
  cases fault <;> cases hresult

theorem not_endsEarly_of_ok {scan : Scan} (h : scan.result = .ok ()) : ¬ scan.EndsEarly := by
  rintro ⟨failure, hresult, _⟩
  rw [h] at hresult
  cases hresult

section Items

variable {withAux : Bool} {first second : Source} {banner : String}

/-- Induction over the items of a scan, which come to an end because every item takes a byte. -/
theorem items_induction {motive : Cursor → Prop}
    (hstep : ∀ cursor, (∀ item after, Item.decoder.run cursor = .done item after → motive after) →
      motive cursor) (cursor : Cursor) : motive cursor := by
  induction hlength : cursor.rest.length using Nat.strongRecOn generalizing cursor with
  | ind length ih =>
      apply hstep
      intro item after hrun
      have hlt := Item.length_lt_of_run hrun
      exact ih _ (by omega) after rfl

theorem recordedItems_extend (hfirst : first.failure = none) (cursor : Cursor) (more : Bytes) :
    ∀ (progress : Progress) (told : List Event),
      ¬ (recordedItems withAux first banner progress cursor told).1.EndsEarly →
        recordedItems withAux second banner progress (cursor.extend more) told =
          recordedItems withAux first banner progress cursor told := by
  induction cursor using items_induction with
  | hstep cursor ih =>
      intro progress told hends
      have hsettles := Item.decoder.settles cursor more
      cases hrun : Item.decoder.run cursor with
      | short need after =>
          rw [recordedItems_of_short hrun] at hends
          exact absurd (endsEarly_of_shortage hfirst rfl) hends
      | failed fault after =>
          rw [hrun] at hsettles
          rw [recordedItems_of_failed hrun, recordedItems_of_failed (hsettles rfl)]
          rfl
      | done item after =>
          rw [hrun] at hsettles
          have hextended := hsettles rfl
          by_cases hitem : item = .ending
          · subst hitem
            rw [recordedItems_of_ending hrun, recordedItems_of_ending hextended]
            rfl
          · rw [recordedItems_of_item hrun hitem] at hends ⊢
            rw [recordedItems_of_item hextended hitem]
            exact ih item after hrun _ _ hends

theorem told_prefix_recordedItems (cursor : Cursor) :
    ∀ (progress : Progress) (told : List Event),
      told <+: (recordedItems withAux first banner progress cursor told).2 := by
  induction cursor using items_induction with
  | hstep cursor ih =>
      intro progress told
      cases hrun : Item.decoder.run cursor with
      | short need after =>
          simp only [recordedItems_of_short hrun, List.prefix_refl]
      | failed fault after =>
          simp only [recordedItems_of_failed hrun, List.prefix_refl]
      | done item after =>
          by_cases hitem : item = .ending
          · subst hitem
            rw [recordedItems_of_ending hrun]
            exact List.prefix_append _ _
          · rw [recordedItems_of_item hrun hitem]
            exact (List.prefix_append _ _).trans (ih item after hrun _ _)

theorem recordedItems_cut (cursor : Cursor) (more : Bytes) :
    ∀ (progress : Progress) (told : List Event), .finished ∉ told →
      (recordedItems withAux first banner progress cursor told).1.EndsEarly →
        .finished ∉ (recordedItems withAux first banner progress cursor told).2 ∧
          (recordedItems withAux first banner progress cursor told).2 <+:
            (recordedItems withAux second banner progress (cursor.extend more) told).2 := by
  induction cursor using items_induction with
  | hstep cursor ih =>
      intro progress told htold hends
      have hsettles := Item.decoder.settles cursor more
      cases hrun : Item.decoder.run cursor with
      | short need after =>
          rw [recordedItems_of_short hrun]
          exact ⟨htold, told_prefix_recordedItems _ _ _⟩
      | failed fault after =>
          rw [recordedItems_of_failed hrun] at hends
          exact absurd hends (not_endsEarly_of_fault rfl)
      | done item after =>
          rw [hrun] at hsettles
          have hextended := hsettles rfl
          by_cases hitem : item = .ending
          · subst hitem
            rw [recordedItems_of_ending hrun] at hends
            exact absurd hends (not_endsEarly_of_ok rfl)
          · rw [recordedItems_of_item hrun hitem] at hends ⊢
            rw [recordedItems_of_item hextended hitem]
            refine ih item after hrun _ _ ?_ hends
            rw [List.mem_append, not_or]
            exact ⟨htold, by simp⟩

theorem offset_recordedItems_le (cursor : Cursor) :
    ∀ (progress : Progress) (told : List Event),
      (recordedItems withAux first banner progress cursor told).1.offset ≤
        cursor.offset + cursor.rest.length := by
  induction cursor using items_induction with
  | hstep cursor ih =>
      intro progress told
      have hreaches := Item.decoder.reaches cursor
      cases hrun : Item.decoder.run cursor with
      | short need after =>
          rw [hrun] at hreaches
          rw [recordedItems_of_short hrun, ← hreaches.total_eq]
          exact Nat.le_add_right ..
      | failed fault after =>
          rw [hrun] at hreaches
          rw [recordedItems_of_failed hrun, ← hreaches.total_eq]
          exact Nat.le_add_right ..
      | done item after =>
          rw [hrun] at hreaches
          by_cases hitem : item = .ending
          · subst hitem
            rw [recordedItems_of_ending hrun, ← hreaches.total_eq]
            exact Nat.le_add_right ..
          · rw [recordedItems_of_item hrun hitem, ← hreaches.total_eq]
            exact ih item after hrun _ _

end Items

section Whole

variable {withAux : Bool} {first second : Source} {more : Bytes}

theorem recorded_extend (hfirst : first.failure = none) (hinput : second.input = first.input ++ more)
    (hends : ¬ (recorded withAux first).1.EndsEarly) :
    recorded withAux second = recorded withAux first := by
  have hstart : second.start = first.start.extend more := congrArg Cursor.start hinput
  have hsettles := Decoder.header.settles first.start more
  rw [← hstart] at hsettles
  cases hrun : Decoder.header.run first.start with
  | short need after =>
      rw [recorded_of_short hrun] at hends
      exact absurd (endsEarly_of_shortage hfirst rfl) hends
  | failed fault after =>
      rw [hrun] at hsettles
      rw [recorded_of_failed hrun, recorded_of_failed (hsettles rfl)]
      rfl
  | done header after =>
      rw [hrun] at hsettles
      rw [recorded_of_header hrun] at hends ⊢
      rw [recorded_of_header (hsettles rfl)]
      exact recordedItems_extend hfirst after more .start [] hends

theorem recorded_cut (hinput : second.input = first.input ++ more)
    (hends : (recorded withAux first).1.EndsEarly) :
    .finished ∉ (recorded withAux first).2 ∧
      (recorded withAux first).2 <+: (recorded withAux second).2 := by
  have hstart : second.start = first.start.extend more := congrArg Cursor.start hinput
  have hsettles := Decoder.header.settles first.start more
  rw [← hstart] at hsettles
  cases hrun : Decoder.header.run first.start with
  | short need after =>
      rw [recorded_of_short hrun]
      exact ⟨List.not_mem_nil, List.nil_prefix⟩
  | failed fault after =>
      rw [recorded_of_failed hrun] at hends
      exact absurd hends (not_endsEarly_of_fault rfl)
  | done header after =>
      rw [hrun] at hsettles
      rw [recorded_of_header hrun] at hends ⊢
      rw [recorded_of_header (hsettles rfl)]
      exact recordedItems_cut after more .start [] List.not_mem_nil hends

theorem offset_recorded_le (withAux : Bool) (source : Source) :
    (recorded withAux source).1.offset ≤ source.input.length := by
  have hreaches := Decoder.header.reaches source.start
  have htotal : source.start.offset + source.start.rest.length = source.input.length :=
    Nat.zero_add _
  rw [← htotal]
  cases hrun : Decoder.header.run source.start with
  | short need after =>
      rw [hrun] at hreaches
      rw [recorded_of_short hrun, ← hreaches.total_eq]
      exact Nat.le_add_right ..
  | failed fault after =>
      rw [hrun] at hreaches
      rw [recorded_of_failed hrun, ← hreaches.total_eq]
      exact Nat.le_add_right ..
  | done header after =>
      rw [hrun] at hreaches
      rw [recorded_of_header hrun, ← hreaches.total_eq]
      exact offset_recordedItems_le after .start []

/-- A scan cannot come to the end it comes to with fewer bytes than it consumes. -/
theorem endsEarly_of_lt (hinput : second.input = first.input ++ more)
    (hfirst : first.failure = none)
    (hlength : first.input.length < (recorded withAux second).1.offset) :
    (recorded withAux first).1.EndsEarly := by
  apply Classical.byContradiction
  intro hends
  have hsame := recorded_extend hfirst hinput hends
  have hwithin := offset_recorded_le withAux first
  rw [hsame] at hlength
  omega

/-- **Only consumed bytes count.** Bytes behind those that a scan consumes change nothing, and fewer
are found to end early, after a part of the same has been told. -/
theorem recorded_consumed (withAux : Bool) (input : Bytes) :
    (∀ (more : Bytes) (failure : Option IoFailure) (portion : Option Nat),
        ¬ (recorded withAux (.ofBytes input)).1.EndsEarly →
          recorded withAux ⟨input ++ more, failure, portion⟩ = recorded withAux (.ofBytes input)) ∧
      ∀ count < (recorded withAux (.ofBytes input)).1.offset,
        (recorded withAux (.ofBytes (input.take count))).1.EndsEarly ∧
          .finished ∉ (recorded withAux (.ofBytes (input.take count))).2 ∧
            (recorded withAux (.ofBytes (input.take count))).2 <+:
              (recorded withAux (.ofBytes input)).2 := by
  constructor
  · intro more failure portion hends
    exact recorded_extend rfl rfl hends
  · intro count hcount
    have hinput : (Source.ofBytes input).input =
        (Source.ofBytes (input.take count)).input ++ input.drop count :=
      (List.take_append_drop count input).symm
    have hlength : (Source.ofBytes (input.take count)).input.length <
        (recorded withAux (.ofBytes input)).1.offset :=
      Nat.lt_of_le_of_lt (List.length_take_le count input) hcount
    have hends := endsEarly_of_lt hinput rfl hlength
    exact ⟨hends, recorded_cut hinput hends⟩

/-- Two bytes behind the end change nothing, and without the last byte in front of them the scan is
told that its bytes end early. -/
theorem recorded_consumed_selector :
    recorded false ⟨magic ++ [48, 48, 48, 57, 0xFE, 3, 0xFF] ++ [7, 7], none, none⟩ =
        (⟨.ok (), Text.lossy (magic ++ [48, 48, 48, 57]), 0, 12⟩,
          [.record (.selectDb 3), .finished]) ∧
      (recorded false (.ofBytes (magic ++ [48, 48, 48, 57, 0xFE, 3]))).1.EndsEarly := by
  have hwhole : recorded false (.ofBytes (magic ++ [48, 48, 48, 57, 0xFE, 3, 0xFF])) =
      (⟨.ok (), Text.lossy (magic ++ [48, 48, 48, 57]), 0, 12⟩,
        [.record (.selectDb 3), .finished]) := by
    have hheader : Decoder.header.run
        (Source.ofBytes (magic ++ [48, 48, 48, 57, 0xFE, 3, 0xFF])).start =
          .done (magic ++ [48, 48, 48, 57]) ⟨9, [0xFE, 3, 0xFF]⟩ := rfl
    have hselect : Item.decoder.run ⟨9, [0xFE, 3, 0xFF]⟩ = .done (.selectDb 3) ⟨11, [0xFF]⟩ := rfl
    have hending : Item.decoder.run ⟨11, [0xFF]⟩ = .done .ending ⟨12, []⟩ := rfl
    rw [recorded_of_header hheader, recordedItems_of_item hselect nofun,
      recordedItems_of_ending hending]
    rfl
  obtain ⟨hsame, hcut⟩ := recorded_consumed false (magic ++ [48, 48, 48, 57, 0xFE, 3, 0xFF])
  constructor
  · have hends : ¬ (recorded false
        (.ofBytes (magic ++ [48, 48, 48, 57, 0xFE, 3, 0xFF]))).1.EndsEarly := by
      rw [hwhole]
      exact not_endsEarly_of_ok rfl
    rw [hsame [7, 7] none none hends, hwhole]
  · have hlt : 11 < (recorded false
        (.ofBytes (magic ++ [48, 48, 48, 57, 0xFE, 3, 0xFF]))).1.offset := by
      rw [hwhole]
      decide
    exact (hcut 11 hlt).1

end Whole

end RedisSnapshot.Scan
