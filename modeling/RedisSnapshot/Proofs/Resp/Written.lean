import RedisSnapshot.Proofs.Decimal
import RedisSnapshot.Proofs.Resp.Arrival

/-!
# A reply that was written is read

Every reply that a server can write is read back from its bytes, whatever stands behind them. Before
the last of these bytes has come there is no reply, and nothing to find fault with either.
-/

namespace RedisSnapshot

/-- A reader that takes exactly some bytes is short of all that is less. -/
theorem Reader.Reads.short {ε α : Type} {reader : Reader ε α} {value : α} {encoded front : Bytes}
    (h : reader.Reads value encoded) (hfront : front <+: encoded) (hless : front ≠ encoded) :
    ∃ need cursor, reader.run (.start front) = .short need cursor := by
  obtain ⟨back, rfl⟩ := hfront
  have hsettles := reader.settles (.start front) back
  have hwhole : reader.run ((Cursor.start front).extend back) =
      .done value ⟨0 + (front ++ back).length, []⟩ := by
    rw [← h 0 [], List.append_nil]
    rfl
  rw [hwhole] at hsettles
  cases hrun : reader.run (.start front) with
  | short need cursor => exact ⟨need, cursor, rfl⟩
  | failed fault cursor =>
      rw [hrun] at hsettles
      cases hsettles rfl
  | done found cursor =>
      rw [hrun] at hsettles
      have hrest : cursor.rest ++ back = [] :=
        (congrArg (fun outcome => outcome.cursor.rest) (hsettles rfl)).symm
      rw [(List.append_eq_nil_iff.1 hrest).2, List.append_nil] at hless
      exact absurd rfl hless

theorem Reader.Reads.line {ε : Type} {content : Bytes} (h : ¬ Resp.lineEnd <:+: content) :
    (Reader.line : Reader ε Bytes).Reads content (content ++ Resp.lineEnd) := by
  have hsplit : ∀ (content read rest : Bytes), ¬ Resp.lineEnd <:+: content →
      splitLineOnto read (content ++ 13 :: 10 :: rest) = some (read.reverse ++ content, rest) := by
    intro content
    induction content with
    | nil =>
        intro read rest _
        rw [List.nil_append, splitLineOnto, List.append_nil]
    | cons byte content ih =>
        intro read rest hnone
        have hlater : ¬ Resp.lineEnd <:+: content :=
          fun hinside => hnone (hinside.trans (List.suffix_cons byte content).isInfix)
        rw [List.cons_append, splitLineOnto, ih _ _ hlater, List.reverse_cons, List.append_assoc]
        · rfl
        · rintro tail rfl htail
          cases content with
          | nil => cases htail
          | cons second content =>
              cases htail
              exact hnone ⟨[], content, rfl⟩
  intro offset rest
  have hfound : splitLineOnto [] (content ++ Resp.lineEnd ++ rest) = some (content, rest) := by
    rw [List.append_assoc]
    exact hsplit content [] rest h
  simp only [Reader.line, hfound]
  rw [List.length_append]
  rfl

namespace Reply

open Reader Resp

/-! ### Integers -/

theorem digits_run_cons {magnitude : Option Nat} {digit : Nat} (hdigit : digit < 10)
    (hnext : 10 * magnitude.getD 0 + digit < Word.count 63) (offset : Nat) (rest : Bytes) :
    (untilDone digitStep magnitude).run ⟨offset, UInt8.ofNat (48 + digit) :: rest⟩ =
      (untilDone digitStep (some (10 * magnitude.getD 0 + digit))).run ⟨offset + 1, rest⟩ := by
  have hstep : (digitStep magnitude).run ⟨offset, UInt8.ofNat (48 + digit) :: rest⟩ =
      .done (some (10 * magnitude.getD 0 + digit), true) ⟨offset + 1, rest⟩ := by
    have hpeek : (peek : Reader ProtocolFault UInt8).run
        ⟨offset, UInt8.ofNat (48 + digit) :: rest⟩ =
          .done (UInt8.ofNat (48 + digit)) ⟨offset, UInt8.ofNat (48 + digit) :: rest⟩ := rfl
    rw [digitStep, run_bind, hpeek]
    simp only [Decimal.digit_value hdigit]
    rw [if_neg (Nat.not_le_of_lt hnext)]
    rfl
  change untilDoneRun digitStep magnitude _ = untilDoneRun digitStep _ _
  rw [untilDoneRun, hstep]
  exact if_pos (Nat.lt_succ_self offset)

theorem digits_run_bytes {n : Nat} (h : n < Word.count 63) (offset : Nat) (rest : Bytes) :
    (untilDone digitStep none).run ⟨offset, Decimal.bytes n ++ rest⟩ =
      (untilDone digitStep (some n)).run ⟨offset + (Decimal.bytes n).length, rest⟩ := by
  induction n using Nat.strongRecOn generalizing offset rest with
  | _ n ih =>
      rw [Decimal.bytes_eq]
      split
      · rename_i hsmall
        have hnext : 10 * (none : Option Nat).getD 0 + n = n := Nat.zero_add n
        rw [List.singleton_append, digits_run_cons hsmall (hnext.symm ▸ h), hnext]
        rfl
      · rename_i hlarge
        have hnext : 10 * (some (n / 10)).getD 0 + n % 10 = n := Nat.div_add_mod n 10
        rw [List.append_assoc, ih (n / 10) (by omega) (by omega), List.singleton_append,
          digits_run_cons (Nat.mod_lt n (by decide)) (hnext.symm ▸ h), hnext, List.length_append]
        rfl

theorem digits_run_lineEnd (magnitude : Option Nat) (offset : Nat) (rest : Bytes) :
    (untilDone digitStep magnitude).run ⟨offset, lineEnd ++ rest⟩ =
      .done magnitude ⟨offset, lineEnd ++ rest⟩ := by
  change untilDoneRun digitStep magnitude _ = _
  rw [untilDoneRun]
  rfl

/-- What is left to read of an integer behind its sign. -/
def magnitudeLine (negative : Prop) [Decidable negative] : Reader ProtocolFault Int := do
  let magnitude ← untilDone digitStep none
  if (← take 2) = lineEnd then
    match magnitude with
    | none => fail .digits
    | some magnitude => return if negative then -magnitude else magnitude
  else
    fail .lineEnd

theorem reads_magnitudeLine (negative : Prop) [Decidable negative] {n : Nat}
    (h : n < Word.count 63) :
    (magnitudeLine negative).Reads (if negative then -n else n) (Decimal.bytes n ++ lineEnd) := by
  intro offset rest
  rw [magnitudeLine, run_bind, List.append_assoc, digits_run_bytes h, digits_run_lineEnd,
    List.length_append]
  rfl

theorem magnitudeLine_congr {first second : Prop} [Decidable first] [Decidable second]
    (h : first ↔ second) : magnitudeLine first = magnitudeLine second := by
  simp only [magnitudeLine, h]

/-- The magnitude stands behind the sign, if there is one. -/
theorem integerLine_run (value : Int) (offset : Nat) :
    ∃ behind, behind + (Decimal.bytes value.natAbs).length =
        offset + (Decimal.intBytes value).length ∧
      ∀ rest, integerLine.run ⟨offset, Decimal.intBytes value ++ rest⟩ =
        (magnitudeLine (value < 0)).run ⟨behind, Decimal.bytes value.natAbs ++ rest⟩ := by
  cases value with
  | ofNat n =>
      -- The first digit is not taken when it is found to be no sign.
      obtain ⟨first, back, hbytes, _, hminus⟩ := Decimal.bytes_cons n
      have hpeek : ∀ rest, integerLine.run ⟨offset, first :: back ++ rest⟩ =
          (if first = 45 then byte >>= fun _ => magnitudeLine (first = 45)
            else magnitudeLine (first = 45)).run ⟨offset, first :: back ++ rest⟩ := fun _ => rfl
      have hsign : first = 45 ↔ (Int.ofNat n) < 0 :=
        iff_of_false hminus (Int.not_lt.2 (Int.natCast_nonneg n))
      refine ⟨offset, rfl, fun rest => ?_⟩
      change integerLine.run ⟨offset, Decimal.bytes n ++ rest⟩ =
        (magnitudeLine _).run ⟨offset, Decimal.bytes n ++ rest⟩
      rw [hbytes, hpeek, if_neg hminus, magnitudeLine_congr hsign]
  | negSucc n =>
      have hsign : (45 : UInt8) = 45 ↔ Int.negSucc n < 0 :=
        iff_of_true rfl (Int.negSucc_lt_zero n)
      refine ⟨offset + 1, by rw [Decimal.intBytes, List.length_cons, Nat.add_right_comm]; rfl, ?_⟩
      intro rest
      rw [← magnitudeLine_congr hsign]
      rfl

theorem reads_integerLine {value : Int} (h : value.natAbs < Word.count 63) :
    integerLine.Reads value (Decimal.intBytes value ++ lineEnd) := by
  intro offset rest
  obtain ⟨behind, hbehind, hrun⟩ := integerLine_run value offset
  have hread := reads_magnitudeLine (value < 0) h behind rest
  have hvalue : (if value < 0 then -(value.natAbs : Int) else value.natAbs) = value := by
    split <;> omega
  rw [List.append_assoc, hrun, ← List.append_assoc, hread, hvalue, List.length_append,
    List.length_append, ← Nat.add_assoc, hbehind, Nat.add_assoc]

/-! ### Replies -/

/-- The replies that can be written: no line ends before its end, and every number, and every length
too, fits into 63 bits besides its sign. -/
inductive IsWritten : Reply → Prop where
  | simple {line : Bytes} (h : ¬ lineEnd <:+: line) : IsWritten (.simple line)
  | error {line : Bytes} (h : ¬ lineEnd <:+: line) : IsWritten (.error line)
  | integer {value : Int} (h : value.natAbs < Word.count 63) : IsWritten (.integer value)
  | bulk {payload : Bytes} (h : payload.length < Word.count 63) : IsWritten (.bulk payload)
  | array {items : List Reply} (hcount : items.length < Word.count 63)
      (hitems : ∀ item ∈ items, IsWritten item) : IsWritten (.array items)
  | nullBulk : IsWritten .nullBulk
  | nullArray : IsWritten .nullArray

theorem encodeEach_eq_flatMap (replies : List Reply) : encodeEach replies = replies.flatMap encode := by
  induction replies with
  | nil => rfl
  | cons reply replies ih => rw [encodeEach, ih, List.flatMap_cons]

theorem reads_bulkBody (payload : Bytes) :
    (bulkBody payload.length).Reads (.bulk payload) (payload ++ lineEnd) := by
  refine (Reads.take rfl).bind ?_
  have hend : (take 2 : Reader ProtocolFault Bytes).Reads lineEnd lineEnd := Reads.take rfl
  refine hend.bind_last ?_
  rw [if_pos rfl]
  exact Reads.pure _

theorem reads_within_of_body {reply : Reply} {mark : UInt8} {encoded bound : Bytes}
    (hbody : ∀ inner : Bytes, encoded.length ≤ inner.length →
      (body (readerWithin inner) mark).Reads reply encoded)
    (hbound : (mark :: encoded).length ≤ bound.length) :
    (readerWithin bound).Reads reply (mark :: encoded) := by
  cases bound with
  | nil => cases hbound
  | cons first bound => exact (hbody bound (Nat.le_of_succ_le_succ hbound)).byte_bind

theorem reads_length {n : Nat} (h : n < Word.count 63) :
    integerLine.Reads (n : Int) (Decimal.bytes n ++ lineEnd) :=
  @reads_integerLine n h

/-- The length of what is absent. -/
theorem reads_absent : integerLine.Reads (-1) ([45, 49] ++ lineEnd) := by
  have hdigits : Decimal.intBytes (-1) = [45, 49] := by
    change 45 :: Decimal.bytes 1 = _
    rw [Decimal.bytes_eq]
    rfl
  rw [← hdigits]
  exact reads_integerLine (by decide)

theorem row_encodeEach {item : Reader ProtocolFault Reply} {items : List Reply}
    (h : ∀ reply ∈ items, item.Reads reply reply.encode) :
    Row item.Reads items (encodeEach items) := by
  induction items with
  | nil => exact .nil
  | cons reply items ih =>
      exact .cons (h reply List.mem_cons_self)
        (ih fun other hmem => h other (List.mem_cons_of_mem _ hmem))

theorem length_encode_le {items : List Reply} {reply : Reply} (h : reply ∈ items) :
    reply.encode.length ≤ (encodeEach items).length := by
  obtain ⟨front, back, rfl⟩ := List.append_of_mem h
  rw [encodeEach_eq_flatMap, List.flatMap_append, List.flatMap_cons, List.length_append,
    List.length_append]
  exact Nat.le_add_left_of_le (Nat.le_add_right _ _)

/-- A bound on the depth that is as long as the reply suffices for the reply. -/
theorem reads_within {reply : Reply} (h : reply.IsWritten) (bound : Bytes)
    (hbound : reply.encode.length ≤ bound.length) :
    (readerWithin bound).Reads reply reply.encode := by
  induction h generalizing bound with
  | simple hline | error hline =>
      exact reads_within_of_body (fun _ _ => (Reads.line hline).map _) hbound
  | integer hvalue =>
      exact reads_within_of_body (fun _ _ => (reads_integerLine hvalue).map _) hbound
  | @bulk payload hlength =>
      have hencode : (bulk payload).encode =
          36 :: (Decimal.bytes payload.length ++ lineEnd ++ (payload ++ lineEnd)) :=
        List.append_assoc _ payload lineEnd
      rw [hencode] at hbound ⊢
      refine reads_within_of_body (fun _ _ => (reads_length hlength).bind ?_) hbound
      rw [if_neg (Int.not_lt.2 (Int.natCast_nonneg _))]
      exact reads_bulkBody payload
  | @array items hcount _ ih =>
      have hencode : (array items).encode =
          42 :: (Decimal.bytes items.length ++ lineEnd ++ encodeEach items) := rfl
      rw [hencode] at hbound ⊢
      refine reads_within_of_body (fun inner hinner => (reads_length hcount).bind ?_) hbound
      rw [if_neg (Int.not_lt.2 (Int.natCast_nonneg _))]
      refine (Reads.times (row_encodeEach fun reply hmem => ih reply hmem inner ?_) rfl).map _
      have hitems : (encodeEach items).length ≤ inner.length := by
        rw [List.length_append] at hinner
        exact Nat.le_of_add_left_le hinner
      exact Nat.le_trans (length_encode_le hmem) hitems
  | nullBulk | nullArray =>
      exact reads_within_of_body (fun _ _ => reads_absent.bind_last (Reads.pure _)) hbound

theorem reads_encode {reply : Reply} (h : reply.IsWritten) : reader.Reads reply reply.encode := by
  intro offset rest
  refine reads_within h (reply.encode ++ rest) ?_ offset rest
  rw [List.length_append]
  exact Nat.le_add_right _ _

/-- Of replies that have come so far, those that are complete are taken. -/
theorem parseAll_of_front {replies : List Reply} (h : ∀ reply ∈ replies, reply.IsWritten)
    {received : Bytes} (hreceived : received <+: replies.flatMap encode) :
    ∃ front back rest, replies = front ++ back ∧ received = front.flatMap encode ++ rest ∧
      parseAll received = ⟨front, rest, none⟩ := by
  induction replies generalizing received with
  | nil =>
      rw [List.prefix_nil.1 hreceived]
      exact ⟨[], [], [], rfl, rfl, isPending_nil⟩
  | cons reply replies ih =>
      have hreads : reader.Reads reply reply.encode := reads_encode (h reply List.mem_cons_self)
      rw [List.flatMap_cons] at hreceived
      -- Either the next reply is all there, or not even that has come.
      by_cases hmore : reply.encode <+: received
      · obtain ⟨more, rfl⟩ := hmore
        obtain ⟨front, back, rest, rfl, rfl, hparse⟩ :=
          ih (fun other hmem => h other (List.mem_cons_of_mem _ hmem))
            ((List.prefix_append_right_inj _).1 hreceived)
        refine ⟨reply :: front, back, rest, rfl, ?_, ?_⟩
        · rw [List.flatMap_cons, List.append_assoc]
        · rw [parseAll_of_done (hreads 0 _), hparse]
          rfl
      · have hless : received <+: reply.encode :=
          (List.prefix_or_prefix_of_prefix hreceived (List.prefix_append _ _)).resolve_right hmore
        have hne : received ≠ reply.encode := fun heq => hmore (heq ▸ List.prefix_rfl)
        obtain ⟨need, cursor, hrun⟩ := hreads.short hless hne
        exact ⟨[], reply :: replies, received, rfl, rfl, parseAll_of_short hrun⟩

end Reply

end RedisSnapshot
