import Mathlib.Algebra.GroupWithZero.Nat
import RedisSnapshot.Proofs.Accepted.Found
import RedisSnapshot.Value

/-!
# Readers that pay for what they find

A number that a snapshot declares is not believed but counted off. To bound what is found whatever
is declared, every byte that is taken is worth the same, and what is found has a price. A reader
that starts on a credit pays if the credit and what its bytes are worth together cover the price.
What is left over of both is the credit of the reader that comes next, so that the law is kept by
composing readers and by repeating them any number of times. The entries of a stream node are paid
for in the same way, by the elements of its listpack.
-/

namespace RedisSnapshot

namespace Reader

variable {ε α β σ : Type} {rate credit : Nat}

/-- Whatever the reader yields has a price that the credit covers together with the bytes that were
taken, each of them at this rate. -/
def Pays (reader : Reader ε α) (rate credit : Nat) (price : α → Nat) : Prop :=
  ∀ cursor value after, reader.run cursor = .done value after →
    price value + rate * cursor.offset ≤ credit + rate * after.offset

namespace Pays

variable {reader : Reader ε α} {price : α → Nat}

/-- A price that can be paid can be paid on any credit, which is then left over. -/
theorem frame (h : reader.Pays rate 0 price) (credit : Nat) :
    reader.Pays rate credit fun value => price value + credit := by
  intro cursor value after hrun
  have hpaid := h cursor value after hrun
  change price value + credit + rate * cursor.offset ≤ credit + rate * after.offset
  omega

theorem mono {other : α → Nat} (h : reader.Pays rate credit price)
    (hle : ∀ value, other value ≤ price value) : reader.Pays rate credit other := by
  intro cursor value after hrun
  have hpaid := h cursor value after hrun
  have hother := hle value
  omega

/-- No reader uses up a credit. -/
theorem spare (reader : Reader ε α) (rate credit : Nat) :
    reader.Pays rate credit fun _ => credit := by
  intro cursor value after hrun
  obtain ⟨used, _, hoffset⟩ := reader.reaches cursor
  rw [hrun] at hoffset
  change after.offset = cursor.offset + used.length at hoffset
  have hworth : rate * cursor.offset ≤ rate * after.offset := Nat.mul_le_mul_left rate (by omega)
  exact Nat.add_le_add_left hworth credit

theorem pure {value : α} (h : price value ≤ credit) :
    (Pure.pure value : Reader ε α).Pays rate credit price := by
  intro cursor found after hrun
  cases hrun
  omega

theorem fail (fault : ε) : (Reader.fail fault : Reader ε α).Pays rate credit price := by
  intro cursor value after hrun
  cases hrun

theorem ofExcept {result : Except ε α} (h : ∀ value, result = .ok value → price value ≤ credit) :
    (Reader.ofExcept result).Pays rate credit price := by
  cases result with
  | ok value => exact pure (h value rfl)
  | error fault => exact fail fault

theorem bind {next : α → Reader ε β} {later : β → Nat} (h : reader.Pays rate 0 price)
    (hnext : ∀ value, (next value).Pays rate (price value + credit) later) :
    (reader >>= next).Pays rate credit later := by
  intro cursor result after hrun
  obtain ⟨value, middle, hfirst, hlater⟩ := done_of_bind hrun
  have hpaid := h cursor value middle hfirst
  have hlaterPaid := hnext value middle result after hlater
  omega

/-- What is taken in front for nothing does no harm. -/
theorem bind_spare {next : α → Reader ε β} {later : β → Nat}
    (hnext : ∀ value, (next value).Pays rate credit later) :
    (reader >>= next).Pays rate credit later := by
  intro cursor result after hrun
  obtain ⟨value, middle, hfirst, hlater⟩ := done_of_bind hrun
  have hspare := spare reader rate 0 cursor value middle hfirst
  have hpaid := hnext value middle result after hlater
  omega

/-- What is computed from bytes already taken costs nothing, and its outcome is known. -/
theorem bind_ofExcept {result : Except ε α} {next : α → Reader ε β} {later : β → Nat}
    (hnext : ∀ value, result = .ok value → (next value).Pays rate credit later) :
    (Reader.ofExcept result >>= next).Pays rate credit later := by
  intro cursor found after hrun
  obtain ⟨value, middle, hfirst, hlater⟩ := done_of_bind hrun
  obtain ⟨hvalue, rfl⟩ := done_of_ofExcept hfirst
  exact hnext value hvalue middle found after hlater

theorem map {f : α → β} {later : β → Nat}
    (h : reader.Pays rate credit fun value => later (f value)) :
    (f <$> reader).Pays rate credit later := by
  intro cursor result after hrun
  obtain ⟨value, middle, hfirst, hresult⟩ := done_of_bind hrun
  cases hresult
  exact h cursor value after hfirst

theorem byte : (Reader.byte : Reader ε UInt8).Pays rate 0 fun _ => rate := by
  rintro ⟨offset, _ | ⟨first, rest⟩⟩ value after hrun
  · cases hrun
  · cases hrun
    change rate + rate * offset ≤ 0 + rate * (offset + 1)
    rw [Nat.mul_succ]
    omega

theorem take (count : Nat) :
    (Reader.take count : Reader ε Bytes).Pays rate 0 fun _ => rate * count := by
  intro cursor value after hrun
  simp only [Reader.take] at hrun
  split at hrun
  · cases hrun
    change rate * count + rate * cursor.offset ≤ 0 + rate * (cursor.offset + count)
    rw [Nat.mul_add]
    omega
  · cases hrun

/-- A loop pays for a state if every turn of it pays for what it adds to the state. -/
theorem iterate {step : σ → Reader ε σ} {worth : σ → Nat}
    (h : ∀ state, (step state).Pays rate (worth state) worth) (count : Nat) (state : σ) :
    (Reader.iterate step count state).Pays rate (worth state) worth := by
  -- The worth of the state is the credit: what one turn leaves over is what the next starts on.
  induction count generalizing state with
  | zero => exact pure (Nat.le_refl _)
  | succ count ih =>
      intro cursor result after hrun
      have hbind : (step state >>= Reader.iterate step count).run cursor =
          .done result after := hrun
      obtain ⟨next, middle, hfirst, hlater⟩ := done_of_bind hbind
      have hpaid := h state cursor next middle hfirst
      have hlaterPaid := ih next middle result after hlater
      omega

/-- However many values are declared, all that are found are paid for one by one. -/
theorem times (h : reader.Pays rate 0 price) (count : Nat) :
    (Reader.times count reader).Pays rate 0 fun values => (values.map price).sum := by
  have hstep : ∀ found : List α,
      ((· :: found) <$> reader).Pays rate (found.map price).sum
        fun values => (values.map price).sum := by
    intro found
    apply map
    simpa only [List.map_cons, List.sum_cons] using h.frame (found.map price).sum
  have hloop := iterate hstep count []
  apply map
  simpa only [List.map_reverse, List.sum_reverse, List.map_nil, List.sum_nil] using hloop

theorem times_length (h : reader.Pays rate 0 fun _ => 1) (count : Nat) :
    (Reader.times count reader).Pays rate 0 List.length := by
  simpa only [List.map_const', List.sum_replicate_nat, Nat.mul_one] using h.times count

end Pays

end Reader

/-! ### Elements of a listpack in place of bytes -/

namespace Stream.NodeReader

variable {α β : Type} {credit : Nat}

/-- The same of a reader of elements, each of which is worth one. -/
def Pays (reader : NodeReader α) (credit : Nat) (price : α → Nat) : Prop :=
  ∀ elements value rest, reader.run elements = .ok (value, rest) →
    price value + rest.length ≤ credit + elements.length

theorem run_of_bind {reader : NodeReader α} {next : α → NodeReader β} {elements rest : List Bytes}
    {result : β} (h : (reader >>= next).run elements = .ok (result, rest)) :
    ∃ value middle, reader.run elements = .ok (value, middle) ∧
      (next value).run middle = .ok (result, rest) := by
  rw [StateT.run_bind] at h
  cases hfirst : reader.run elements with
  | error cause => rw [hfirst] at h; cases h
  | ok found => rw [hfirst] at h; exact ⟨found.1, found.2, rfl, h⟩

namespace Pays

variable {reader : NodeReader α} {price : α → Nat}

theorem pure {value : α} (h : price value ≤ credit) :
    (Pure.pure value : NodeReader α).Pays credit price := by
  intro elements found rest hrun
  cases hrun
  omega

theorem throw (cause : Malformed) :
    (throw cause : NodeReader α).Pays credit price := by
  intro elements found rest hrun
  cases hrun

theorem next : next.Pays 0 fun _ => 1 := by
  rintro (_ | ⟨first, elements⟩) value rest hrun
  · cases hrun
  · cases hrun
    simp only [List.length_cons]
    omega

theorem get : (get : NodeReader (List Bytes)).Pays 0 fun _ => 0 := by
  intro elements value rest hrun
  cases hrun
  exact Nat.le_refl _

theorem bind {next : α → NodeReader β} {later : β → Nat} (h : reader.Pays 0 price)
    (hnext : ∀ value, (next value).Pays (price value + credit) later) :
    (reader >>= next).Pays credit later := by
  intro elements result rest hrun
  obtain ⟨value, middle, hfirst, hlater⟩ := run_of_bind hrun
  have hpaid := h elements value middle hfirst
  have hlaterPaid := hnext value middle result rest hlater
  omega

theorem timesOnto (h : reader.Pays 0 price) (count : Nat) (found : List α) :
    (timesOnto reader count found).Pays (found.map price).sum
      fun values => (values.map price).sum := by
  induction count generalizing found with
  | zero => exact pure (Nat.le_refl _)
  | succ count ih =>
      refine bind h fun value => ?_
      simpa only [List.map_cons, List.sum_cons] using ih (value :: found)

theorem times (h : reader.Pays 0 price) (count : Nat) :
    (times count reader).Pays 0 fun values => (values.map price).sum := by
  refine bind (timesOnto h count []) fun found => pure ?_
  simp only [List.map_reverse, List.sum_reverse, Nat.add_zero, Nat.le_refl]

theorem times_length (h : reader.Pays 0 fun _ => 1) (count : Nat) :
    (NodeReader.times count reader).Pays 0 List.length := by
  simpa only [List.map_const', List.sum_replicate_nat, Nat.mul_one] using h.times count

end Pays

end Stream.NodeReader

end RedisSnapshot
