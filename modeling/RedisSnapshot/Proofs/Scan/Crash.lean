import RedisSnapshot.Proofs.Memory
import RedisSnapshot.Proofs.Scan.Received

/-!
# What reading a snapshot can come to

Whatever the bytes are, reading them yields records or tells what is wrong: they are malformed, or
the stream has ended or failed. The program ends in between only over a string whose length it has
believed, wherever in a value that string may stand. A number of elements ends nothing, however
large it is.
-/

namespace RedisSnapshot

/-- The errors of a reading: its own, those that others answer with, and the end of the program
over one of certain lengths. -/
inductive Verdict (others : Error → Prop) (ends : Nat → Prop) : Error → Prop where
  | malformed (cause : Malformed) : Verdict others ends (.format cause)
  | cut (failure : IoFailure) : Verdict others ends (.io failure)
  | other {error : Error} (h : others error) : Verdict others ends error
  | crash {length : Nat} (h : ends length) : Verdict others ends (.beyondMemory length)

theorem Verdict.shortage {others : Error → Prop} {ends : Nat → Prop} (source : Source)
    (offset : Nat) : Verdict others ends (source.shortage offset) := by
  unfold Source.shortage
  split
  · exact .cut _
  · split
    · exact .cut _
    · exact .cut _

theorem Verdict.fault {others : Error → Prop} {ends : Nat → Prop} {fault : Fault}
    (h : ∀ length, fault = .beyondMemory length → ends length) :
    Verdict others ends fault.error := by
  cases fault with
  | malformed cause => exact .malformed cause
  | beyondMemory length => exact .crash (h length rfl)

namespace Source

variable {α : Type} {source : Source} {decoder : Decoder α} {cursor : Cursor}

theorem verdict_decode (h : decoder.Composed) {error : Error}
    (herror : (source.decode decoder cursor).1 = .error error) :
    Verdict (fun _ => False) (decoder.MeetsUnholdable cursor) error := by
  unfold Source.decode at herror
  split at herror
  · cases herror
  · cases herror
    exact .shortage source _
  · rename_i fault after hrun
    cases herror
    refine .fault fun length hfault => ?_
    subst hfault
    exact h.crashes_iff.1 ⟨after, hrun⟩

theorem decode_of_meetsUnholdable (h : decoder.Composed) {length : Nat}
    (hmeets : decoder.MeetsUnholdable cursor length) :
    (source.decode decoder cursor).1 = .error (.beyondMemory length) := by
  obtain ⟨after, hrun⟩ := h.crashes_iff.2 hmeets
  rw [Source.decode, hrun]
  rfl

end Source

theorem Decoder.isModest_header : Decoder.header.IsModest := by
  refine .bind (.take 9) fun header => ?_
  split
  · exact .malformed _
  · split
    · exact .malformed _
    · split
      · exact .pure _
      · exact .malformed _

namespace Scan

/-- What a receiver answers when it does not want to go on. -/
inductive Objects {σ : Type} (receiver : Receiver (StateT σ Option)) : Error → Prop where
  | refused {record : Record} {state after : σ} {error : Error}
      (h : receiver.take record state = some (.error error, after)) : Objects receiver error
  | unfinished {state after : σ} {error : Error}
      (h : receiver.finish state = some (.error error, after)) : Objects receiver error
  | cancelled {state after : σ} (h : receiver.isCancelled state = some (true, after)) :
      Objects receiver .cancelled

/-- The lengths over which a scan ends the program: those of the strings in its items. -/
def MeetsUnholdable (source : Source) (length : Nat) : Prop :=
  ∃ cursor, Visits source cursor ∧ Item.decoder.MeetsUnholdable cursor length

theorem keeps_objects {σ : Type} (receiver : Receiver (StateT σ Option)) :
    Keeps receiver (fun _ => True) (Objects receiver) where
  take := by
    intro record state result after _ htaken
    refine ⟨trivial, fun error herror => ?_⟩
    subst herror
    exact .refused htaken
  finish := by
    intro state result after _ hfinished
    refine ⟨trivial, fun error herror => ?_⟩
    subst herror
    exact .unfinished hfinished
  isCancelled := by
    intro state answer after _ hasked
    refine ⟨trivial, fun hanswer => ?_⟩
    subst hanswer
    exact .cancelled hasked

theorem Cause.verdict {source : Source} {refuses : Error → Prop} {error : Error}
    (h : Cause source refuses error) : Verdict refuses (MeetsUnholdable source) error := by
  cases h with
  | refused h => exact .other h
  | ended offset => exact .shortage source offset
  | @header fault after hrun =>
      refine .fault fun length hfault => ?_
      subst hfault
      exact absurd ⟨after, hrun⟩ Decoder.isModest_header.not_crashes
  | @item cursor after fault hvisits hrun =>
      refine .fault fun length hfault => ?_
      subst hfault
      exact ⟨cursor, hvisits, Item.composed_decoder.crashes_iff.1 ⟨after, hrun⟩⟩

/-- Whatever a scan has come to, it goes on from there. -/
theorem Visits.recorded {source : Source} {withAux : Bool} {cursor : Cursor}
    (h : Visits source cursor) : ∃ banner progress told,
      Scan.recorded withAux source =
        recordedItems withAux source banner progress cursor told := by
  induction h with
  | header h => exact ⟨_, _, _, recorded_of_header h⟩
  | item _ hrun hitem ih =>
      obtain ⟨banner, progress, told, heq⟩ := ih
      rw [recordedItems_of_item hrun hitem] at heq
      exact ⟨_, _, _, heq⟩

theorem recorded_of_meetsUnholdable {source : Source} {withAux : Bool} {length : Nat}
    (h : MeetsUnholdable source length) :
    (recorded withAux source).1.result = .error (.beyondMemory length) := by
  obtain ⟨cursor, hvisits, hmeets⟩ := h
  obtain ⟨after, hrun⟩ := Item.composed_decoder.crashes_iff.2 hmeets
  obtain ⟨banner, progress, told, heq⟩ := @Visits.recorded source withAux cursor hvisits
  rw [heq, recordedItems_of_failed hrun]
  rfl

/-- Reading never ends the program but over a string of which nothing can hold what it declares. -/
structure EndsOnlyOverStrings (source : Source) : Prop where
  /-- The records behind a tag are read, or an error tells that they are malformed or that the
  stream has ended or failed, unless reading them comes to such a string. -/
  decoded : ∀ (tag : UInt8) (key : Key) (cursor : Cursor) (error : Error),
    (source.decode (Decoder.records tag key) cursor).1 = .error error →
      Verdict (fun _ => False) ((Decoder.records tag key).MeetsUnholdable cursor) error
  /-- If it does come to one, the program ends. -/
  undecoded : ∀ (tag : UInt8) (key : Key) (cursor : Cursor) (length : Nat),
    (Decoder.records tag key).MeetsUnholdable cursor length →
      (source.decode (Decoder.records tag key) cursor).1 = .error (.beyondMemory length)
  /-- A scan ends well, or in one of these ways, or with what its receiver says. -/
  scanned : ∀ {σ : Type} (receiver : Receiver (StateT σ Option)) (withAux : Bool) (state after : σ)
    (scan : Scan) (error : Error), run receiver withAux source state = some (scan, after) →
      scan.result = .error error → Verdict (Objects receiver) (MeetsUnholdable source) error
  /-- It does end, if its receiver always answers. -/
  ended : ∀ {σ : Type} (receiver : Receiver (StateT σ Option)) (withAux : Bool) (state : σ),
    Answers receiver → ∃ scan after, run receiver withAux source state = some (scan, after)
  /-- Where nobody refuses anything, such a string in an item ends the program. -/
  unscanned : ∀ (withAux : Bool) (length : Nat), MeetsUnholdable source length →
    (recorded withAux source).1.result = .error (.beyondMemory length)

/-- **What reading can come to.** Whatever the stream, every error is told as one, except that the
program ends exactly over strings that nothing can hold. -/
theorem ends_only_over_strings (source : Source) : EndsOnlyOverStrings source where
  decoded tag key _ _ herror := Source.verdict_decode (Decoder.composed_records tag key) herror
  undecoded tag key _ _ hmeets :=
    Source.decode_of_meetsUnholdable (Decoder.composed_records tag key) hmeets
  scanned receiver _ _ _ _ error hrun herror :=
    (((keeps_objects receiver).run trivial hrun).2 error herror).verdict
  ended _ _ state hanswers := hanswers.run state
  unscanned _ _ hmeets := recorded_of_meetsUnholdable hmeets

/-- A string value of `2 ^ 63` bytes, of which not one is there, and a list of as many elements. -/
example :
    ((Source.ofBytes [0x81, 0x80, 0, 0, 0, 0, 0, 0, 0]).decode (Decoder.records 0 ⟨[107], 0⟩)
      (.start [0x81, 0x80, 0, 0, 0, 0, 0, 0, 0])).1 = .error (.beyondMemory (2 ^ 63)) ∧
    ((Source.ofBytes [0x81, 0x80, 0, 0, 0, 0, 0, 0, 0]).decode (Decoder.records 1 ⟨[107], 0⟩)
      (.start [0x81, 0x80, 0, 0, 0, 0, 0, 0, 0])).1 = .error (.io (.streamEnded 9)) :=
  ⟨rfl, rfl⟩

end Scan

end RedisSnapshot
