import RedisSnapshot.Source

/-!
# Reading up to a limit

Whatever is read up to a limit hands out its bytes in their order and loses none: what was delivered
and what is still to come make up the whole. As many bytes are still wanted as were not delivered,
so a failed read changes nothing, and nothing behind the limit is ever asked for. Only at the limit
does a read find nothing.
-/

namespace RedisSnapshot

/-- Anything that hands out bytes one read at a time: as many as are asked for, or fewer, or none,
or instead a failure that takes no byte away. -/
structure Supply (σ : Type) where
  read : Nat → σ → Except IoFailure Bytes × σ
  /-- The bytes that were not handed out yet. -/
  ahead : σ → Bytes
  found_append_ahead : ∀ {size source found after}, read size source = (.ok found, after) →
    found.length ≤ size ∧ found ++ ahead after = ahead source
  ahead_of_failed : ∀ {size source failure after}, read size source = (.error failure, after) →
    ahead after = ahead source

namespace Supply

variable {σ : Type} (supply : Supply σ)

/-- The bytes of one read. -/
def bytesOf (result : Except IoFailure Bytes) : Bytes :=
  result.toOption.getD []

/-- Reads into buffers of any positive sizes until nothing is found, or until a failure other than
an interruption. -/
inductive ToEnd : σ × Nat → Bytes → Option IoFailure → σ × Nat → Prop where
  | ended {size : Nat} {now after : σ × Nat} (hsize : 0 < size)
      (h : readWithin supply.read size now = (.ok [], after)) : ToEnd now [] none after
  | more {size : Nat} {now next after : σ × Nat} {found rest : Bytes} {ending : Option IoFailure}
      (hsize : 0 < size) (hfound : found ≠ [])
      (h : readWithin supply.read size now = (.ok found, next))
      (hrest : ToEnd next rest ending after) : ToEnd now (found ++ rest) ending after
  | again {size : Nat} {now next after : σ × Nat} {failure : IoFailure} {rest : Bytes}
      {ending : Option IoFailure} (hsize : 0 < size)
      (hfailure : failure.kind = .other "Interrupted")
      (h : readWithin supply.read size now = (.error failure, next))
      (hrest : ToEnd next rest ending after) : ToEnd now rest ending after
  | failed {size : Nat} {now after : σ × Nat} {failure : IoFailure} (hsize : 0 < size)
      (hfailure : failure.kind ≠ .other "Interrupted")
      (h : readWithin supply.read size now = (.error failure, after)) :
      ToEnd now [] (some failure) after

/-- Any reads from a start on, single ones and ones to the end, whatever came of them, with all the
bytes that were delivered. -/
inductive Run (start : σ × Nat) : Bytes → σ × Nat → Prop where
  | start : Run start [] start
  | read {delivered : Bytes} {now after : σ × Nat} {result : Except IoFailure Bytes} (size : Nat)
      (hrun : Run start delivered now)
      (h : readWithin supply.read size now = (result, after)) :
      Run start (delivered ++ bytesOf result) after
  | toEnd {delivered found : Bytes} {ending : Option IoFailure} {now after : σ × Nat}
      (hrun : Run start delivered now) (h : supply.ToEnd now found ending after) :
      Run start (delivered ++ found) after

/-- What a limit on a source means, at every moment and for the next read. -/
structure Bounded (source : σ) (limit : Nat) : Prop where
  /-- The bytes that were delivered are the first ones of the source, and the source has handed out
  these and no more. -/
  delivered : ∀ {delivered now}, supply.Run (source, limit) delivered now →
    delivered ++ supply.ahead now.1 = supply.ahead source ∧ delivered.length + now.2 = limit
  /-- A read finds nothing only when everything was delivered. -/
  silent : ∀ {delivered now size after}, supply.Run (source, limit) delivered now → 0 < size →
    readWithin supply.read size now = (.ok [], after) → delivered.length = limit ∧ after = now
  /-- The source ends before the limit. -/
  short : ∀ {delivered now size after}, supply.Run (source, limit) delivered now → 0 < size →
    delivered.length < limit → supply.read (min size now.2) now.1 = (.ok [], after) →
    ∃ failure, failure.kind = .unexpectedEnd ∧
      readWithin supply.read size now = (.error failure, (after, now.2))
  /-- The source fails before the limit. -/
  broken : ∀ {delivered now size failure after}, supply.Run (source, limit) delivered now →
    0 < size → delivered.length < limit →
    supply.read (min size now.2) now.1 = (.error failure, after) →
    readWithin supply.read size now = (.error failure, (after, now.2))
  /-- Failures leave as many bytes to be delivered as there were. -/
  failed : ∀ {now size failure after}, readWithin supply.read size now = (.error failure, after) →
    after.2 = now.2
  /-- Reading to the end without a failure. -/
  whole : ∀ {delivered now found after}, supply.Run (source, limit) delivered now →
    supply.ToEnd now found none after → (delivered ++ found).length = limit

/-! ### One read -/

variable {supply}

/-- What a read does: it finds nothing, since nothing is wanted; it finds something; or it fails. -/
theorem readWithin_cases {size : Nat} {now after : σ × Nat} {result : Except IoFailure Bytes}
    (h : readWithin supply.read size now = (result, after)) :
    (result = .ok [] ∧ after = now ∧ (now.2 = 0 ∨ size = 0)) ∨
      (∃ found, result = .ok found ∧ found ≠ [] ∧ found ++ supply.ahead after.1 =
        supply.ahead now.1 ∧ found.length + after.2 = now.2) ∨
      ∃ failure, result = .error failure ∧ supply.ahead after.1 = supply.ahead now.1 ∧
        after.2 = now.2 := by
  obtain ⟨source, remaining⟩ := now
  by_cases hidle : remaining = 0 ∨ size = 0
  · rw [readWithin, if_pos hidle] at h
    cases h
    exact .inl ⟨rfl, rfl, hidle⟩
  · rw [readWithin, if_neg hidle] at h
    right
    cases hread : supply.read (min size remaining) source with
    | mk found next =>
        rw [hread] at h
        match found with
        | .ok [] =>
            cases h
            exact .inr ⟨_, rfl, (supply.found_append_ahead hread).2, rfl⟩
        | .ok (byte :: found) =>
            cases h
            obtain ⟨hlength, hahead⟩ := supply.found_append_ahead hread
            refine .inl ⟨byte :: found, rfl, List.cons_ne_nil _ _, hahead, ?_⟩
            dsimp only
            omega
        | .error failure =>
            cases h
            exact .inr ⟨failure, rfl, supply.ahead_of_failed hread, rfl⟩

/-- The invariant of all reads. -/
def Keeps (supply : Supply σ) (before : σ × Nat) (delivered : Bytes) (after : σ × Nat) : Prop :=
  delivered ++ supply.ahead after.1 = supply.ahead before.1 ∧ delivered.length + after.2 = before.2

theorem Keeps.trans {before now after : σ × Nat} {delivered found : Bytes}
    (h : supply.Keeps before delivered now) (hnext : supply.Keeps now found after) :
    supply.Keeps before (delivered ++ found) after := by
  obtain ⟨hahead, hlength⟩ := h
  obtain ⟨hfound, hleft⟩ := hnext
  constructor
  · rw [List.append_assoc, hfound, hahead]
  · rw [List.length_append]
    omega

theorem keeps_read {size : Nat} {now after : σ × Nat} {result : Except IoFailure Bytes}
    (h : readWithin supply.read size now = (result, after)) :
    supply.Keeps now (bytesOf result) after := by
  rcases readWithin_cases h with ⟨rfl, rfl, _⟩ | ⟨found, rfl, _, hahead, hlength⟩ |
    ⟨failure, rfl, hahead, hremaining⟩
  · exact ⟨rfl, Nat.zero_add _⟩
  · exact ⟨hahead, hlength⟩
  · exact ⟨hahead, by simp [bytesOf, Except.toOption, hremaining]⟩

theorem remaining_of_silent {size : Nat} {now after : σ × Nat} (hsize : 0 < size)
    (h : readWithin supply.read size now = (.ok [], after)) : now.2 = 0 ∧ after = now := by
  rcases readWithin_cases h with ⟨_, hafter, hidle⟩ | ⟨found, hfound, hne, _, _⟩ |
    ⟨failure, hfailure, _, _⟩
  · exact ⟨by omega, hafter⟩
  · exact absurd (Except.ok.inj hfound).symm hne
  · cases hfailure

/-! ### Any number of reads -/

theorem keeps_toEnd {now after : σ × Nat} {found : Bytes} {ending : Option IoFailure}
    (h : supply.ToEnd now found ending after) : supply.Keeps now found after := by
  induction h with
  | ended hsize h => exact keeps_read h
  | more hsize hfound h _ ih => exact (keeps_read h).trans ih
  | again hsize hfailure h _ ih => exact (keeps_read h).trans ih
  | failed hsize hfailure h => exact keeps_read h

theorem remaining_of_toEnd {now after : σ × Nat} {found : Bytes}
    (h : supply.ToEnd now found none after) : after.2 = 0 := by
  generalize hending : none = ending at h
  induction h with
  | ended hsize h =>
      obtain ⟨hremaining, rfl⟩ := remaining_of_silent hsize h
      exact hremaining
  | more _ _ _ _ ih => exact ih hending
  | again _ _ _ _ ih => exact ih hending
  | failed => cases hending

theorem keeps_run {start now : σ × Nat} {delivered : Bytes} (h : supply.Run start delivered now) :
    supply.Keeps start delivered now := by
  induction h with
  | start => exact ⟨rfl, Nat.zero_add _⟩
  | read size _ h ih => exact ih.trans (keeps_read h)
  | toEnd _ h ih => exact ih.trans (keeps_toEnd h)

theorem bounded (supply : Supply σ) (source : σ) (limit : Nat) : supply.Bounded source limit where
  delivered hrun := keeps_run hrun
  silent hrun hsize h := by
    obtain ⟨hremaining, hafter⟩ := remaining_of_silent hsize h
    have hlength := (keeps_run hrun).2
    exact ⟨by omega, hafter⟩
  short := by
    intro delivered now size after hrun hsize hless h
    have hlength := (keeps_run hrun).2
    refine ⟨.payloadEnded now.2, rfl, ?_⟩
    rw [readWithin, if_neg (by dsimp only at hlength; omega), h]
  broken := by
    intro delivered now size failure after hrun hsize hless h
    have hlength := (keeps_run hrun).2
    rw [readWithin, if_neg (by dsimp only at hlength; omega), h]
  failed := by
    intro now size failure after h
    rcases readWithin_cases h with ⟨hresult, _⟩ | ⟨found, hresult, _⟩ | ⟨_, _, _, hremaining⟩
    · cases hresult
    · cases hresult
    · exact hremaining
  whole := by
    intro delivered now found after hrun htoEnd
    have hlength := (keeps_run (hrun.toEnd htoEnd)).2
    rw [remaining_of_toEnd htoEnd] at hlength
    exact hlength

end Supply

/-! ### Payloads -/

namespace Source

theorem read_of_nil {source : Source} (h : source.input = []) {size : Nat} (hsize : 0 < size) :
    source.read size =
      match source.failure with
      | none => (.ok [], source)
      | some failure => (.error failure, source) := by
  have hempty : (source.input.isEmpty && size != 0) = true := by
    rw [h, List.isEmpty_nil, Bool.true_and, bne_iff_ne]
    omega
  exact if_pos hempty

theorem read_of_cons {source : Source} (h : source.input ≠ []) (size : Nat) :
    source.read size = (.ok (source.input.take (min size (source.portion.getD size))),
      { source with input := source.input.drop (min size (source.portion.getD size)) }) := by
  rw [read, if_neg (by simp [h])]

/-- A stream as something to read from. -/
def supply : Supply Source where
  read size source := source.read size
  ahead := input
  found_append_ahead := by
    intro size source found after h
    simp only [read] at h
    split at h
    · rename_i hempty
      cases hfailure : source.failure with
      | none =>
          rw [hfailure] at h
          cases h
          exact ⟨Nat.zero_le _, rfl⟩
      | some failure =>
          rw [hfailure] at h
          cases h
    · cases h
      refine ⟨?_, List.take_append_drop _ _⟩
      rw [List.length_take]
      omega
  ahead_of_failed := by
    intro size source failure after h
    simp only [read] at h
    split at h
    · cases hfailure : source.failure with
      | none =>
          rw [hfailure] at h
          cases h
      | some failure =>
          rw [hfailure] at h
          cases h
          rfl
    · cases h

/-- Every read brings a byte as long as there are any, and no failure is an interruption. -/
structure IsSteady (source : Source) : Prop where
  portion : source.portion ≠ some 0
  failure : ∀ failure, source.failure = some failure → failure.kind ≠ .other "Interrupted"

theorem IsSteady.kind_ne {source : Source} (h : source.IsSteady) (remaining : Nat) :
    (source.failure.getD (.payloadEnded remaining)).kind ≠ .other "Interrupted" := by
  cases hfailure : source.failure with
  | none =>
      intro hkind
      cases hkind
  | some failure => exact h.failure failure hfailure

end Source

namespace Payload

open Source Supply

variable {source : Source} {remaining size : Nat}

/-- What a read of a steady stream does: it finds nothing at the limit, it fails at the end of the
stream, and otherwise it finds something. -/
theorem readWithin_steady (hsteady : source.IsSteady) (hsize : 0 < size) :
    (remaining = 0 ∧ readWithin Source.supply.read size (source, remaining) =
        (.ok [], (source, remaining))) ∨
      (0 < remaining ∧ source.input = [] ∧ readWithin Source.supply.read size (source, remaining) =
        (.error (source.failure.getD (.payloadEnded remaining)), (source, remaining))) ∨
      ∃ count, 0 < count ∧ count ≤ remaining ∧ source.input ≠ [] ∧
        readWithin Source.supply.read size (source, remaining) =
          (.ok (source.input.take count), ({ source with input := source.input.drop count },
            remaining - (source.input.take count).length)) := by
  rcases Nat.eq_zero_or_pos remaining with rfl | hremaining
  · exact .inl ⟨rfl, by rw [readWithin, if_pos (.inl rfl)]⟩
  right
  have hidle : ¬ (remaining = 0 ∨ size = 0) := by omega
  by_cases h : source.input = []
  · have hread : Source.supply.read (min size remaining) source = _ :=
      Source.read_of_nil h (by omega)
    refine .inl ⟨hremaining, h, ?_⟩
    rw [readWithin, if_neg hidle, hread]
    cases source.failure <;> rfl
  · have hread : Source.supply.read (min size remaining) source = _ := Source.read_of_cons h _
    generalize hcount : min (min size remaining) (source.portion.getD (min size remaining)) = count
      at hread
    have hpos : 0 < count := by
      cases hportion : source.portion with
      | none =>
          rw [hportion, Option.getD_none] at hcount
          omega
      | some portion =>
          have hne : portion ≠ 0 := by
            rintro rfl
            exact hsteady.portion hportion
          rw [hportion, Option.getD_some] at hcount
          omega
    refine .inr ⟨count, hpos, by omega, h, ?_⟩
    rw [readWithin, if_neg hidle, hread]
    obtain ⟨byte, rest, hinput⟩ := List.exists_cons_of_ne_nil h
    obtain ⟨more, rfl⟩ := Nat.exists_eq_succ_of_ne_zero (Nat.pos_iff_ne_zero.1 hpos)
    rw [hinput]
    rfl

/-- Behind a first read as many bytes are read as without it. -/
theorem readToEnd_more {count : Nat} (hcount : count ≤ remaining) {rest : Bytes}
    {ending : Option IoFailure} {after : Payload}
    (h : readToEnd ⟨{ source with input := source.input.drop count },
      remaining - (source.input.take count).length⟩ = (rest, ending, after)) :
    readToEnd ⟨source, remaining⟩ = (source.input.take count ++ rest, ending, after) := by
  obtain ⟨more, rfl⟩ := Nat.exists_eq_add_of_le hcount
  rcases Nat.le_total count source.input.length with hlength | hlength
  · have htake : (source.input.take count).length = count := List.length_take_of_le hlength
    rw [htake, Nat.add_sub_cancel_left] at h
    simp only [readToEnd, List.drop_drop] at h ⊢
    rw [List.take_add, List.length_append, htake, Nat.add_sub_add_left]
    cases h
    rfl
  · rw [List.drop_of_length_le hlength, List.take_of_length_le hlength] at h
    simp only [readToEnd, List.take_nil, List.drop_nil, List.length_nil, Nat.sub_zero] at h ⊢
    rw [List.take_of_length_le (by omega), List.drop_of_length_le (by omega),
      List.take_of_length_le hlength]
    cases h
    rw [List.append_nil]

/-- Whatever buffers are read into, reading to the end comes to the same. -/
theorem readToEnd_of_toEnd (hsteady : source.IsSteady) {found : Bytes} {ending : Option IoFailure}
    {after : Source × Nat} (h : Source.supply.ToEnd (source, remaining) found ending after) :
    readToEnd ⟨source, remaining⟩ = (found, ending, ⟨after.1, after.2⟩) := by
  generalize hnow : (source, remaining) = now at h
  induction h generalizing source remaining with
  | ended hsize h =>
      subst hnow
      obtain ⟨hremaining, rfl⟩ := remaining_of_silent hsize h
      dsimp only at hremaining
      subst hremaining
      rfl
  | more hsize hfound h _ ih =>
      subst hnow
      rcases readWithin_steady hsteady hsize with ⟨_, hread⟩ | ⟨_, _, hread⟩ |
        ⟨count, _, hcount, _, hread⟩
      · rw [hread] at h
        cases h
        exact absurd rfl hfound
      · rw [hread] at h
        cases h
      · rw [hread] at h
        cases h
        exact readToEnd_more hcount (ih ⟨hsteady.portion, hsteady.failure⟩ rfl)
  | again hsize hfailure h _ _ =>
      subst hnow
      rcases readWithin_steady hsteady hsize with ⟨_, hread⟩ | ⟨_, _, hread⟩ |
        ⟨count, _, hcount, _, hread⟩
      · rw [hread] at h
        cases h
      · rw [hread] at h
        cases h
        exact absurd hfailure (hsteady.kind_ne remaining)
      · rw [hread] at h
        cases h
  | failed hsize hfailure h =>
      subst hnow
      rcases readWithin_steady hsteady hsize with ⟨_, hread⟩ | ⟨hremaining, hinput, hread⟩ |
        ⟨count, _, hcount, _, hread⟩
      · rw [hread] at h
        cases h
      · rw [hread] at h
        cases h
        simp only [readToEnd, hinput, List.take_nil, List.drop_nil, List.length_nil, Nat.sub_zero]
        rw [if_neg (by omega), ← hinput]
      · rw [hread] at h
        cases h

theorem exists_toEnd (hsteady : source.IsSteady) :
    ∃ found ending after, Source.supply.ToEnd (source, remaining) found ending after := by
  induction remaining using Nat.strongRecOn generalizing source with
  | _ remaining ih =>
      rcases @readWithin_steady source remaining 1 hsteady Nat.one_pos with
        ⟨_, hread⟩ | ⟨_, _, hread⟩ | ⟨count, hpos, _, hinput, hread⟩
      · exact ⟨_, _, _, .ended Nat.one_pos hread⟩
      · exact ⟨_, _, _, .failed Nat.one_pos (hsteady.kind_ne remaining) hread⟩
      · have hne := List.length_pos_iff.2 hinput
        have hlength : 0 < (source.input.take count).length := by
          rw [List.length_take]
          omega
        have hnext : IsSteady { source with input := source.input.drop count } :=
          ⟨hsteady.portion, hsteady.failure⟩
        obtain ⟨rest, ending, after, hrest⟩ :=
          ih (remaining - (source.input.take count).length) (by omega) hnext
        exact ⟨_, ending, after, .more Nat.one_pos (List.length_pos_iff.1 hlength) hread hrest⟩

/-- Reading a payload to its end is reading until nothing is found, into any buffers. -/
theorem toEnd_iff (payload : Payload) (hsteady : payload.source.IsSteady) {found : Bytes}
    {ending : Option IoFailure} {after : Payload} :
    Source.supply.ToEnd (payload.source, payload.remaining) found ending
        (after.source, after.remaining) ↔
      payload.readToEnd = (found, ending, after) := by
  refine ⟨fun h => readToEnd_of_toEnd hsteady h, fun h => ?_⟩
  obtain ⟨found', ending', after', htoEnd⟩ := @exists_toEnd _ payload.remaining hsteady
  have hsame := readToEnd_of_toEnd hsteady htoEnd
  rw [h] at hsame
  cases hsame
  exact htoEnd

end Payload

/-- **A limit is kept.** Of anything that is read up to a limit, the bytes that were delivered are
at every moment the first ones, as many of them as the limit does not want any more, and nothing
else was taken off it. A read finds nothing only at the limit, and it fails where the source ends or
fails before that, which changes nothing. So a payload that was read to its end without a failure
is as long as its limit. -/
theorem limit_kept :
    (∀ {σ : Type} (supply : Supply σ) (source : σ) (limit : Nat), supply.Bounded source limit) ∧
      ∀ payload : Payload, payload.source.IsSteady → ∀ {found ending after},
        Source.supply.ToEnd (payload.source, payload.remaining) found ending
            (after.source, after.remaining) ↔
          payload.readToEnd = (found, ending, after) :=
  ⟨fun supply => supply.bounded, fun payload hsteady => payload.toEnd_iff hsteady⟩

end RedisSnapshot
