import RedisSnapshot.Proofs.Scan.Prefix

/-!
# Scans and their receivers

A scan does nothing to its receiver but ask it, so whatever the receiver keeps is kept by the scan,
and where the receiver answers the scan comes to an end. If it fails, then the receiver has refused
something or was cancelled, or else what was read is to blame: the stream has ended too early, or an
item in it is malformed.
-/

namespace RedisSnapshot.Scan

/-- The receiver keeps to an invariant, and what a scan ends with because it refuses something, or
says that it is cancelled, is one of these errors. -/
structure Keeps {σ : Type} (receiver : Receiver (StateT σ Option)) (holds : σ → Prop)
    (refuses : Error → Prop) : Prop where
  take : ∀ {record state result after}, holds state →
    receiver.take record state = some (result, after) →
      holds after ∧ ∀ error, result = .error error → refuses error
  finish : ∀ {state result after}, holds state → receiver.finish state = some (result, after) →
    holds after ∧ ∀ error, result = .error error → refuses error
  isCancelled : ∀ {state answer after}, holds state →
    receiver.isCancelled state = some (answer, after) →
      holds after ∧ (answer = true → refuses .cancelled)

/-- The receiver leaves no question without an answer. -/
structure Answers {σ : Type} (receiver : Receiver (StateT σ Option)) : Prop where
  take : ∀ record state, ∃ result after, receiver.take record state = some (result, after)
  finish : ∀ state, ∃ result after, receiver.finish state = some (result, after)
  isCancelled : ∀ state, ∃ answer after, receiver.isCancelled state = some (answer, after)

/-- A scan comes to read an item at these places. -/
inductive Visits (source : Source) : Cursor → Prop where
  | header {header : Bytes} {cursor : Cursor}
      (h : Decoder.header.run source.start = .done header cursor) : Visits source cursor
  | item {item : Item} {cursor after : Cursor} (h : Visits source cursor)
      (hrun : Item.decoder.run cursor = .done item after) (hitem : item ≠ .ending) :
      Visits source after

/-- What a scan of a stream can fail with. -/
inductive Cause (source : Source) (refuses : Error → Prop) : Error → Prop where
  | refused {error : Error} (h : refuses error) : Cause source refuses error
  | ended (offset : Nat) : Cause source refuses (source.shortage offset)
  | header {fault : Fault} {after : Cursor}
      (h : Decoder.header.run source.start = .failed fault after) : Cause source refuses fault.error
  | item {cursor after : Cursor} {fault : Fault} (hvisits : Visits source cursor)
      (h : Item.decoder.run cursor = .failed fault after) : Cause source refuses fault.error

section Items

variable {m : Type → Type} [Monad m] {receiver : Receiver m} {withAux : Bool} {source : Source}
  {banner : String} {progress : Progress} {cursor behind : Cursor}

theorem items_of_short {need : Need} (h : Item.decoder.run cursor = .short need behind) :
    items receiver withAux source banner progress cursor = do
      if ← receiver.isCancelled then
        return ⟨.error .cancelled, banner, progress.keys, cursor.offset⟩
      else
        return ⟨.error (source.shortage behind.offset), banner, progress.keys, behind.offset⟩ := by
  rw [items]
  refine congrArg (_ >>= ·) (funext fun isCancelled => ?_)
  cases isCancelled with
  | true => rfl
  | false =>
      rw [if_neg Bool.false_ne_true, if_neg Bool.false_ne_true]
      split <;> rename_i heq <;> rw [h] at heq <;> cases heq
      rfl

theorem items_of_failed {fault : Fault} (h : Item.decoder.run cursor = .failed fault behind) :
    items receiver withAux source banner progress cursor = do
      if ← receiver.isCancelled then
        return ⟨.error .cancelled, banner, progress.keys, cursor.offset⟩
      else
        return ⟨.error fault.error, banner, progress.keys, behind.offset⟩ := by
  rw [items]
  refine congrArg (_ >>= ·) (funext fun isCancelled => ?_)
  cases isCancelled with
  | true => rfl
  | false =>
      rw [if_neg Bool.false_ne_true, if_neg Bool.false_ne_true]
      split <;> rename_i heq <;> rw [h] at heq <;> cases heq
      rfl

theorem items_of_ending (h : Item.decoder.run cursor = .done .ending behind) :
    items receiver withAux source banner progress cursor = do
      if ← receiver.isCancelled then
        return ⟨.error .cancelled, banner, progress.keys, cursor.offset⟩
      else
        return ⟨← receiver.finish, banner, progress.keys, behind.offset⟩ := by
  rw [items]
  refine congrArg (_ >>= ·) (funext fun isCancelled => ?_)
  cases isCancelled with
  | true => rfl
  | false =>
      rw [if_neg Bool.false_ne_true, if_neg Bool.false_ne_true]
      split <;> rename_i heq <;> rw [h] at heq <;> cases heq
      · rfl
      · rename_i hitem
        exact absurd rfl hitem

theorem items_of_item {item : Item} (h : Item.decoder.run cursor = .done item behind)
    (hitem : item ≠ .ending) :
    items receiver withAux source banner progress cursor = do
      if ← receiver.isCancelled then
        return ⟨.error .cancelled, banner, progress.keys, cursor.offset⟩
      else
        match ← deliver receiver (progress.advance withAux item).2 with
        | .ok () =>
            items receiver withAux source banner (progress.advance withAux item).1 behind
        | .error error =>
            return ⟨.error error, banner, (progress.advance withAux item).1.keys,
              behind.offset⟩ := by
  rw [items]
  refine congrArg (_ >>= ·) (funext fun isCancelled => ?_)
  cases isCancelled with
  | true => rfl
  | false =>
      rw [if_neg Bool.false_ne_true, if_neg Bool.false_ne_true]
      split <;> rename_i heq <;> rw [h] at heq <;> cases heq
      · exact absurd rfl hitem
      · rfl

/-- What is refused among the first records keeps the others from being handed over. -/
theorem deliver_append [LawfulMonad m] (receiver : Receiver m) (front back : List Record) :
    deliver receiver (front ++ back) = do
      match ← deliver receiver front with
      | .ok () => deliver receiver back
      | .error error => return .error error := by
  induction front with
  | nil => rw [List.nil_append, deliver, pure_bind]
  | cons record front ih =>
      rw [List.cons_append, deliver, deliver, bind_assoc, ih]
      refine congrArg (_ >>= ·) (funext fun answer => ?_)
      cases answer with
      | ok => rfl
      | error error =>
          dsimp only
          rw [pure_bind]

end Items

section Partial

variable {σ α β : Type}

theorem bind_eq_some {first : StateT σ Option α} {next : α → StateT σ Option β} {state : σ}
    {result : β × σ} (h : (first >>= next) state = some result) :
    ∃ value middle, first state = some (value, middle) ∧ next value middle = some result := by
  cases hfirst : first state with
  | none =>
      change (first state).bind _ = _ at h
      rw [hfirst] at h
      cases h
  | some found =>
      change (first state).bind _ = _ at h
      rw [hfirst] at h
      exact ⟨found.1, found.2, rfl, h⟩

theorem bind_of_some {first : StateT σ Option α} {next : α → StateT σ Option β} {state middle : σ}
    {value : α} (h : first state = some (value, middle)) :
    (first >>= next) state = next value middle := by
  change (first state).bind _ = _
  rw [h]
  rfl

theorem pure_eq_some {value : α} {state : σ} {result : α × σ}
    (h : (pure value : StateT σ Option α) state = some result) : result = (value, state) :=
  (Option.some.inj h).symm

end Partial

namespace Keeps

variable {σ : Type} {receiver : Receiver (StateT σ Option)} {holds : σ → Prop}
  {refuses : Error → Prop} {source : Source} {withAux : Bool} {state after : σ} {scan : Scan}

theorem deliver (h : Keeps receiver holds refuses) {records : List Record}
    {result : Except Error Unit} (hstate : holds state)
    (hrun : Scan.deliver receiver records state = some (result, after)) :
    holds after ∧ ∀ error, result = .error error → refuses error := by
  induction records generalizing state with
  | nil =>
      cases pure_eq_some hrun
      exact ⟨hstate, nofun⟩
  | cons record records ih =>
      rw [Scan.deliver] at hrun
      obtain ⟨taken, middle, htaken, hrest⟩ := bind_eq_some hrun
      obtain ⟨hmiddle, hrefused⟩ := h.take hstate htaken
      cases taken with
      | ok => exact ih hmiddle hrest
      | error error =>
          cases pure_eq_some hrest
          exact ⟨hmiddle, hrefused⟩

theorem items (h : Keeps receiver holds refuses) {banner : String} (cursor : Cursor) :
    ∀ {progress : Progress} {state : σ}, Visits source cursor → holds state →
      Scan.items receiver withAux source banner progress cursor state = some (scan, after) →
        holds after ∧ ∀ error, scan.result = .error error → Cause source refuses error := by
  induction cursor using items_induction with
  | hstep cursor ih =>
      intro progress state hvisits hstate hrun
      have hstopped : ∀ {next : StateT σ Option Scan}, (∀ {middle}, holds middle →
          next middle = some (scan, after) →
            holds after ∧ ∀ error, scan.result = .error error → Cause source refuses error) →
          (do
            if ← receiver.isCancelled then
              return ⟨.error .cancelled, banner, progress.keys, cursor.offset⟩
            else next : StateT σ Option Scan) state = some (scan, after) →
          holds after ∧ ∀ error, scan.result = .error error → Cause source refuses error := by
        intro next hnext hasked
        obtain ⟨isCancelled, middle, hanswer, hrest⟩ := bind_eq_some hasked
        obtain ⟨hmiddle, hcancelled⟩ := h.isCancelled hstate hanswer
        cases isCancelled with
        | true =>
            cases pure_eq_some hrest
            exact ⟨hmiddle, fun error herror => by cases herror; exact .refused (hcancelled rfl)⟩
        | false => exact hnext hmiddle hrest
      cases hitem : Item.decoder.run cursor with
      | short need behind =>
          rw [items_of_short hitem] at hrun
          refine hstopped (fun hmiddle hrest => ?_) hrun
          cases pure_eq_some hrest
          exact ⟨hmiddle, fun error herror => by cases herror; exact .ended _⟩
      | failed fault behind =>
          rw [items_of_failed hitem] at hrun
          refine hstopped (fun hmiddle hrest => ?_) hrun
          cases pure_eq_some hrest
          exact ⟨hmiddle, fun error herror => by cases herror; exact .item hvisits hitem⟩
      | done item behind =>
          by_cases hending : item = .ending
          · subst hending
            rw [items_of_ending hitem] at hrun
            refine hstopped (fun hmiddle hrest => ?_) hrun
            obtain ⟨result, last, hfinished, hlast⟩ := bind_eq_some hrest
            obtain ⟨hlater, hrefused⟩ := h.finish hmiddle hfinished
            cases pure_eq_some hlast
            exact ⟨hlater, fun error herror => .refused (hrefused error herror)⟩
          · rw [items_of_item hitem hending] at hrun
            refine hstopped (fun hmiddle hrest => ?_) hrun
            obtain ⟨delivered, last, hdelivered, hlast⟩ := bind_eq_some hrest
            obtain ⟨hlater, hrefused⟩ := h.deliver hmiddle hdelivered
            cases delivered with
            | ok => exact ih item behind hitem (hvisits.item hitem hending) hlater hlast
            | error error =>
                cases pure_eq_some hlast
                exact ⟨hlater, fun error herror => .refused (hrefused error herror)⟩

/-- **What the receiver keeps is kept by the scan**, and every error of the scan has its cause. -/
theorem run (h : Keeps receiver holds refuses) (hstate : holds state)
    (hrun : Scan.run receiver withAux source state = some (scan, after)) :
    holds after ∧ ∀ error, scan.result = .error error → Cause source refuses error := by
  rw [Scan.run, Source.decode] at hrun
  cases hheader : Decoder.header.run source.start with
  | done header cursor =>
      rw [hheader] at hrun
      exact h.items cursor (.header hheader) hstate hrun
  | short need cursor =>
      rw [hheader] at hrun
      cases pure_eq_some hrun
      exact ⟨hstate, fun error herror => by cases herror; exact .ended _⟩
  | failed fault cursor =>
      rw [hheader] at hrun
      cases pure_eq_some hrun
      exact ⟨hstate, fun error herror => by cases herror; exact .header hheader⟩

end Keeps

namespace Answers

variable {σ : Type} {receiver : Receiver (StateT σ Option)} {source : Source} {withAux : Bool}

theorem deliver (h : Answers receiver) (records : List Record) (state : σ) :
    ∃ result after, Scan.deliver receiver records state = some (result, after) := by
  induction records generalizing state with
  | nil => exact ⟨.ok (), state, rfl⟩
  | cons record records ih =>
      obtain ⟨result, middle, htaken⟩ := h.take record state
      rw [Scan.deliver, bind_of_some htaken]
      cases result with
      | ok => exact ih middle
      | error error => exact ⟨.error error, middle, rfl⟩

theorem items (h : Answers receiver) {banner : String} (cursor : Cursor) :
    ∀ (progress : Progress) (state : σ), ∃ scan after,
      Scan.items receiver withAux source banner progress cursor state = some (scan, after) := by
  induction cursor using items_induction with
  | hstep cursor ih =>
      intro progress state
      obtain ⟨isCancelled, middle, hasked⟩ := h.isCancelled state
      cases hitem : Item.decoder.run cursor with
      | short need behind =>
          rw [items_of_short hitem, bind_of_some hasked]
          cases isCancelled <;> exact ⟨_, _, rfl⟩
      | failed fault behind =>
          rw [items_of_failed hitem, bind_of_some hasked]
          cases isCancelled <;> exact ⟨_, _, rfl⟩
      | done item behind =>
          by_cases hending : item = .ending
          · subst hending
            rw [items_of_ending hitem, bind_of_some hasked]
            cases isCancelled with
            | true => exact ⟨_, _, rfl⟩
            | false =>
                obtain ⟨result, last, hfinished⟩ := h.finish middle
                rw [if_neg Bool.false_ne_true, bind_of_some hfinished]
                exact ⟨_, _, rfl⟩
          · rw [items_of_item hitem hending, bind_of_some hasked]
            cases isCancelled with
            | true => exact ⟨_, _, rfl⟩
            | false =>
                obtain ⟨result, last, hdelivered⟩ := h.deliver _ middle
                rw [if_neg Bool.false_ne_true, bind_of_some hdelivered]
                cases result with
                | ok => exact ih item behind hitem _ last
                | error error => exact ⟨_, _, rfl⟩

/-- **A scan of a receiver that answers comes to an end**, whatever the stream. -/
theorem run (h : Answers receiver) (state : σ) :
    ∃ scan after, Scan.run receiver withAux source state = some (scan, after) := by
  rw [Scan.run, Source.decode]
  cases hheader : Decoder.header.run source.start with
  | done header cursor => exact h.items cursor .start state
  | short need cursor => exact ⟨_, _, rfl⟩
  | failed fault cursor => exact ⟨_, _, rfl⟩

end Answers

end RedisSnapshot.Scan
