import RedisSnapshot.Proofs.Modest
import RedisSnapshot.Snapshot

/-!
# What decoders are composed of

All that the decoders of values and items do themselves to a stream they do through few others,
lengths and strings above all. A law of these that is kept by composing them is a law of every
decoder, and needs no second look at any of them.
-/

namespace RedisSnapshot

namespace Decoder

open Reader

/-- Lengths, strings, bytes that are taken or given up over, and what can be made of these. -/
inductive Composed : {α : Type} → Decoder α → Prop where
  | length : Composed length
  | string : Composed string
  | byte : Composed Reader.byte
  | take (count : Nat) : Composed (Reader.take count)
  | malformed {α : Type} (cause : Malformed) : Composed (malformed cause : Decoder α)
  | malformed_at {α : Type} (cause : Nat → Malformed) :
      Composed (offset >>= fun offset => malformed (cause offset) : Decoder α)
  | ofExcept {α : Type} {result : Except Fault α} (h : Held result) :
      Composed (Reader.ofExcept result)
  | pure {α : Type} (value : α) : Composed (Pure.pure value : Decoder α)
  | bind {α β : Type} {decoder : Decoder α} {next : α → Decoder β} (h : Composed decoder)
      (hnext : ∀ value, Composed (next value)) : Composed (decoder >>= next)
  | iterate {σ : Type} {step : σ → Decoder σ} (h : ∀ state, Composed (step state)) (count : Nat)
      (state : σ) : Composed (Reader.iterate step count state)

namespace Composed

variable {α β : Type} {decoder : Decoder α}

theorem map (f : α → β) (h : Composed decoder) : Composed (f <$> decoder) :=
  h.bind fun value => .pure (f value)

theorem times (h : Composed decoder) (count : Nat) : Composed (Reader.times count decoder) :=
  (iterate (fun found => h.map (· :: found)) count []).map _

/-- A number of values behind it. -/
theorem counted (h : Composed decoder) (next : List α → β) :
    Composed (Decoder.length >>= fun count => Reader.times count decoder >>= fun found =>
      Pure.pure (next found)) :=
  .bind .length fun count => .bind (.times h count) fun _ => .pure _

theorem pair {second : Decoder β} (h : Composed decoder) (hsecond : Composed second) :
    Composed (Decoder.pair decoder second) :=
  .bind h fun _ => .bind hsecond fun _ => .pure _

theorem whenSome (h : Composed decoder) (present : Bool) :
    Composed (Decoder.whenSome present decoder) := by
  unfold Decoder.whenSome
  split
  · exact .map _ h
  · exact .pure _

theorem packed {decode : Bytes → Except Fault α} (h : ∀ blob, Held (decode blob)) :
    Composed (Decoder.packed decode) :=
  .bind .string fun blob => .ofExcept (h blob)

end Composed

theorem composed_scoreText : Composed scoreText := by
  refine .bind .byte fun first => ?_
  split
  · exact .pure _
  · exact .pure _
  · exact .pure _
  · exact .bind (.take _) fun text => .ofExcept (Binary64.held_ofText text)

theorem composed_lengthId : Composed lengthId :=
  .bind .length fun _ => .bind .length fun _ => .pure _

theorem composed_rawId : Composed rawId :=
  .map _ (.take 16)

theorem composed_streamNode : Composed streamNode := by
  refine .bind .string fun master => ?_
  split
  · exact .bind .string fun blob => .bind (.ofExcept (Packed.Listpack.held_decode blob))
      fun entries => .ofExcept (Stream.held_decodeNode _ entries)
  · exact .malformed _

theorem composed_pendingEntry : Composed pendingEntry :=
  .bind composed_rawId fun _ => .bind (.map _ (.take 8)) fun _ => .bind .length fun _ => .pure _

theorem composed_consumerEntry (group : IdMap Stream.Pending) (name : Bytes) :
    Composed (consumerEntry group name) := by
  refine .bind composed_rawId fun id => ?_
  split
  · exact .pure _
  · exact .malformed _

theorem composed_streamConsumer (version : Nat) (group : IdMap Stream.Pending) :
    Composed (streamConsumer version group) := by
  refine .bind .string fun name => .bind (.map _ (.take 8)) fun _ => ?_
  refine .bind (.whenSome (.map _ (.take 8)) _) fun _ => .bind .length fun _ => ?_
  exact .bind (.times (composed_consumerEntry group name) _) fun _ => .pure _

theorem composed_streamGroup (version : Nat) : Composed (streamGroup version) := by
  refine .bind .string fun _ => .bind composed_lengthId fun _ => ?_
  refine .bind (.whenSome .length _) fun _ => .bind .length fun _ => ?_
  refine .bind (.map _ (.times composed_pendingEntry _)) fun pending => .bind .length fun _ => ?_
  exact .bind (.times (composed_streamConsumer version pending) _) fun _ => .pure _

theorem composed_stream (version : Nat) : Composed (stream version) := by
  refine .bind .length fun _ => .bind (.times composed_streamNode _) fun _ => ?_
  refine .bind .length fun _ => .bind composed_lengthId fun _ => ?_
  refine .bind (.whenSome composed_lengthId _) fun _ => ?_
  refine .bind (.whenSome composed_lengthId _) fun _ => ?_
  refine .bind (.whenSome .length _) fun _ => .bind .length fun _ => ?_
  exact .bind (.times (composed_streamGroup version) _) fun _ => .pure _

theorem composed_listNode : Composed listNode := by
  refine .bind .length fun container => .bind .string fun blob => ?_
  split
  · exact .pure _
  · exact .ofExcept (Packed.Listpack.held_decode blob)
  · exact .malformed _

theorem composed_values (tag : UInt8) : Composed (values tag) := by
  unfold values
  split
  · exact .bind .string fun _ => .pure _
  · exact .counted .string _
  · exact .counted .string _
  · exact .counted (.pair .string composed_scoreText) _
  · exact .counted (.pair .string .string) _
  · exact .counted (.pair .string (.map _ (.take 8))) _
  · exact .malformed _
  · exact .malformed _
  · exact .bind (.packed Packed.Zipmap.held_decode) fun _ => .pure _
  · exact .bind (.packed Packed.Ziplist.held_decode) fun _ => .pure _
  · exact .bind (.packed Packed.Intset.held_decode) fun _ => .pure _
  · exact .bind (.packed Packed.Ziplist.held_decodePairs) fun pairs =>
      .bind (.ofExcept (held_scores pairs)) fun _ => .pure _
  · exact .bind (.packed Packed.Ziplist.held_decodePairs) fun _ => .pure _
  · exact .counted (.packed Packed.Ziplist.held_decode) _
  · exact .bind (composed_stream 1) fun _ => .pure _
  · exact .bind (.packed Packed.Listpack.held_decodePairs) fun _ => .pure _
  · exact .bind (.packed Packed.Listpack.held_decodePairs) fun pairs =>
      .bind (.ofExcept (held_scores pairs)) fun _ => .pure _
  · exact .counted composed_listNode _
  · exact .bind (composed_stream 2) fun _ => .pure _
  · exact .bind (.packed Packed.Listpack.held_decode) fun _ => .pure _
  · exact .bind (composed_stream 3) fun _ => .pure _
  · exact .malformed_at _

theorem composed_records (tag : UInt8) (key : Key) : Composed (records tag key) :=
  .bind (composed_values tag) fun _ => .pure _

theorem composed_header : Composed header := by
  refine .bind (.take 9) fun header => ?_
  split
  · exact .malformed _
  · split
    · exact .malformed _
    · split
      · exact .pure _
      · exact .malformed _

end Decoder

open Decoder in
theorem Item.composed_decoder : Composed Item.decoder := by
  refine .bind .byte fun opcode => ?_
  unfold rest
  split
  · exact .bind .string fun _ => .pure _
  · exact .malformed_at _
  · exact .bind .length fun _ => .pure _
  · exact .bind .byte fun _ => .pure _
  · exact .bind .string fun _ => .bind .string fun _ => .pure _
  · exact .bind .length fun _ => .bind .length fun _ => .pure _
  · exact .bind (.map _ (.take 8)) fun _ => .pure _
  · exact .bind (.map _ (.take 4)) fun _ => .pure _
  · exact .bind .length fun _ => .pure _
  · exact .pure _
  · exact .bind .string fun _ => .bind (composed_values _) fun _ => .pure _

end RedisSnapshot
