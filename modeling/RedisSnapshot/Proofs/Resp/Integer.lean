import RedisSnapshot.Proofs.Resp.Written

/-!
# Integers at the ends of their range

The magnitude of an integer is read with 63 bits, before its sign is applied. An integer of 64 bits has
one value below zero whose magnitude needs all 64 of them. Every other integer that is written is read
back; this one is told to be too large for a reply.
-/

namespace RedisSnapshot.Reply

open Reader Resp

/-- A digit that makes the magnitude too large is not taken. -/
theorem digits_run_overflow {magnitude : Option Nat} {digit : Nat} (hdigit : digit < 10)
    (hnext : Word.count 63 ≤ 10 * magnitude.getD 0 + digit) (offset : Nat) (rest : Bytes) :
    (untilDone digitStep magnitude).run ⟨offset, UInt8.ofNat (48 + digit) :: rest⟩ =
      .failed .overflow ⟨offset, UInt8.ofNat (48 + digit) :: rest⟩ := by
  have hpeek : (peek : Reader ProtocolFault UInt8).run
      ⟨offset, UInt8.ofNat (48 + digit) :: rest⟩ =
        .done (UInt8.ofNat (48 + digit)) ⟨offset, UInt8.ofNat (48 + digit) :: rest⟩ := rfl
  have hstep : (digitStep magnitude).run ⟨offset, UInt8.ofNat (48 + digit) :: rest⟩ =
      .failed .overflow ⟨offset, UInt8.ofNat (48 + digit) :: rest⟩ := by
    rw [digitStep, run_bind, hpeek]
    simp only [Decimal.digit_value hdigit]
    rw [if_pos hnext]
    rfl
  change untilDoneRun digitStep magnitude _ = _
  rw [untilDoneRun, hstep]

theorem digits_overflow {n : Nat} (h : Word.count 63 ≤ n) (offset : Nat) (rest : Bytes) :
    ∃ after, (untilDone digitStep none).run ⟨offset, Decimal.bytes n ++ rest⟩ =
      .failed .overflow after := by
  induction n using Nat.strongRecOn generalizing rest with
  | _ n ih =>
      have hcount : 10 ≤ Word.count 63 := by decide
      rw [Decimal.bytes_eq, if_neg (by omega), List.append_assoc]
      -- Either the digits in front are too many already, or the last one is the first too many.
      by_cases hfront : Word.count 63 ≤ n / 10
      · exact ih (n / 10) (by omega) hfront _
      · have hnext : Word.count 63 ≤ 10 * (some (n / 10)).getD 0 + n % 10 := by
          rw [Option.getD_some, Nat.div_add_mod]
          exact h
        rw [digits_run_bytes (Nat.lt_of_not_le hfront), List.singleton_append,
          digits_run_overflow (Nat.mod_lt n (by decide)) hnext]
        exact ⟨_, rfl⟩

theorem integerLine_overflow {value : Int} (h : Word.count 63 ≤ value.natAbs) (offset : Nat)
    (rest : Bytes) :
    ∃ after, integerLine.run ⟨offset, Decimal.intBytes value ++ rest⟩ = .failed .overflow after := by
  obtain ⟨behind, _, hrun⟩ := integerLine_run value offset
  obtain ⟨after, hdigits⟩ := digits_overflow h behind rest
  exact ⟨after, by rw [hrun, magnitudeLine, run_bind, hdigits]⟩

/-- Whatever the range of an integer is, what tells whether it is read is the room for its
magnitude. -/
theorem parse_magnitude (value : Int) (rest : Bytes) :
    parse ((integer value).encode ++ rest) =
      if value.natAbs < Word.count 63 then .ok (some (.integer value, rest))
      else .error .overflow := by
  split
  · rename_i hfits
    have hread : reader.run (.start ((integer value).encode ++ rest)) = _ :=
      reads_encode (.integer hfits) 0 rest
    rw [parse, hread]
  · rename_i hlarge
    obtain ⟨after, hline⟩ := integerLine_overflow (Nat.le_of_not_lt hlarge) 1 (lineEnd ++ rest)
    have hencode : (integer value).encode ++ rest =
        58 :: (Decimal.intBytes value ++ (lineEnd ++ rest)) := by
      rw [← List.append_assoc]
      rfl
    have hrun : reader.run (.start ((integer value).encode ++ rest)) = .failed .overflow after := by
      rw [hencode]
      change (integerLine >>= fun value => pure (Reply.integer value)).run ⟨1, _⟩ = _
      rw [run_bind, hline]
    rw [parse, hrun]

/-- **Integers.** Of all words with a sign that are written in a reply, whatever follows it, the least
one is refused. All others are read back, and nothing behind the reply is touched. -/
theorem parse_integer {value : Int} (h : Word.Fits 64 value) (rest : Bytes) :
    parse ((integer value).encode ++ rest) =
      if value = -(Word.count 63 : Int) then .error .overflow
      else .ok (some (.integer value, rest)) := by
  obtain ⟨hlow, hhigh⟩ : -(Word.count 63 : Int) ≤ value ∧ value < Word.count 63 := h
  rw [parse_magnitude]
  split
  · rw [if_neg (by omega)]
  · rw [if_pos (by omega)]

/-- The two ends of the range, with the beginning of another reply behind them. -/
theorem parse_integer_ends :
    (Word.Fits 64 9223372036854775807 ∧
      parse ((integer 9223372036854775807).encode ++ [43]) =
        .ok (some (.integer 9223372036854775807, [43]))) ∧
    (Word.Fits 64 (-9223372036854775808) ∧
      parse ((integer (-9223372036854775808)).encode ++ [43]) = .error .overflow) := by
  have hgreatest : Word.Fits 64 9223372036854775807 := by decide
  have hleast : Word.Fits 64 (-9223372036854775808) := by decide
  refine ⟨⟨hgreatest, ?_⟩, hleast, ?_⟩
  · rw [parse_integer hgreatest, if_neg (by decide)]
  · rw [parse_integer hleast, if_pos (by decide)]

end RedisSnapshot.Reply
