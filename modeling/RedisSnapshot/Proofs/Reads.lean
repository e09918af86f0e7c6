import RedisSnapshot.Decoder

/-!
# Reading what was written

A decoder reads a form of a value if it takes exactly the bytes of the form off the front of any
input and yields the value. The law is closed under everything that decoders are composed of, so
that a form composed of others needs no argument about cursors. So are its two counterparts, the laws
of bytes that are refused and of bytes that do not suffice.
-/

namespace RedisSnapshot

/-- The bytes are forms of the values, one after another. -/
inductive Row {α : Type} (form : α → Bytes → Prop) : List α → Bytes → Prop where
  | nil : Row form [] []
  | cons {value : α} {values : List α} {front back : Bytes} (head : form value front)
      (tail : Row form values back) : Row form (value :: values) (front ++ back)

namespace Row

variable {α β : Type} {form : α → Bytes → Prop} {values : List α} {bytes : Bytes}

theorem map {other : β → Bytes → Prop} {f : α → β}
    (himp : ∀ value bytes, form value bytes → other (f value) bytes) (h : Row form values bytes) :
    Row other (values.map f) bytes := by
  induction h with
  | nil => exact .nil
  | cons head _ ih => exact .cons (himp _ _ head) ih

theorem imp {other : α → Bytes → Prop}
    (himp : ∀ value bytes, form value bytes → other value bytes) (h : Row form values bytes) :
    Row other values bytes := by
  rw [← List.map_id values]
  exact h.map himp

theorem exists_form (h : Row form values bytes) {value : α} (hmem : value ∈ values) :
    ∃ part, form value part := by
  induction h with
  | nil => cases hmem
  | cons head _ ih =>
      rcases List.mem_cons.1 hmem with rfl | hmem
      · exact ⟨_, head⟩
      · exact ih hmem

theorem length_eq {width : Nat} (hwidth : ∀ value bytes, form value bytes → bytes.length = width)
    (h : Row form values bytes) : bytes.length = values.length * width := by
  induction h with
  | nil => simp
  | cons head _ ih => rw [List.length_append, hwidth _ _ head, ih, List.length_cons, Nat.succ_mul,
      Nat.add_comm]

theorem mul_length_le {least : Nat}
    (hleast : ∀ value bytes, form value bytes → least ≤ bytes.length) (h : Row form values bytes) :
    least * values.length ≤ bytes.length := by
  induction h with
  | nil => exact Nat.le_refl _
  | cons head _ ih =>
      have hfront := hleast _ _ head
      rw [List.length_cons, List.length_append, Nat.mul_succ]
      omega

end Row

namespace Reader

variable {ε α β σ : Type}

/-! ### A run of one reader and then another -/

section Bind

variable {cursor after : Cursor}

theorem done_of_bind {reader : Reader ε α} {next : α → Reader ε β} {value : β}
    (h : (reader >>= next).run cursor = .done value after) :
    ∃ first middle, reader.run cursor = .done first middle ∧
      (next first).run middle = .done value after := by
  rw [run_bind] at h
  cases hfirst : reader.run cursor with
  | done first middle => rw [hfirst] at h; exact ⟨first, middle, rfl, h⟩
  | short => rw [hfirst] at h; cases h
  | failed => rw [hfirst] at h; cases h

theorem short_of_bind {reader : Reader ε α} {next : α → Reader ε β} {need : Need}
    (h : (reader >>= next).run cursor = .short need after) :
    reader.run cursor = .short need after ∨ ∃ first middle,
      reader.run cursor = .done first middle ∧ (next first).run middle = .short need after := by
  rw [run_bind] at h
  cases hfirst : reader.run cursor with
  | done first middle => rw [hfirst] at h; exact .inr ⟨first, middle, rfl, h⟩
  | short => rw [hfirst] at h; cases h; exact .inl rfl
  | failed => rw [hfirst] at h; cases h

theorem failed_of_bind {reader : Reader ε α} {next : α → Reader ε β} {fault : ε}
    (h : (reader >>= next).run cursor = .failed fault after) :
    reader.run cursor = .failed fault after ∨ ∃ first middle,
      reader.run cursor = .done first middle ∧ (next first).run middle = .failed fault after := by
  rw [run_bind] at h
  cases hfirst : reader.run cursor with
  | done first middle => rw [hfirst] at h; exact .inr ⟨first, middle, rfl, h⟩
  | short => rw [hfirst] at h; cases h
  | failed => rw [hfirst] at h; cases h; exact .inl rfl

end Bind

/-! ### Bytes that are read -/

/-- The reader takes exactly these bytes off the front of whatever they stand in front of. -/
def Reads (reader : Reader ε α) (value : α) (encoded : Bytes) : Prop :=
  ∀ (offset : Nat) (rest : Bytes),
    reader.run ⟨offset, encoded ++ rest⟩ = .done value ⟨offset + encoded.length, rest⟩

/-- What stands at the front of an input, and where it ends, is not open to choice. -/
theorem Reads.unique {reader : Reader ε α} {first second : α} {front back rest later : Bytes}
    (hfirst : reader.Reads first front) (hsecond : reader.Reads second back)
    (h : front ++ rest = back ++ later) : first = second ∧ front = back ∧ rest = later := by
  have hrun := hfirst 0 rest
  rw [h, hsecond] at hrun
  injection hrun with hvalue hcursor
  injection hcursor with hlength hrest
  exact ⟨hvalue.symm, (List.append_inj h (by omega)).1, hrest.symm⟩

theorem Reads.pure (value : α) : (Pure.pure value : Reader ε α).Reads value [] :=
  fun _ _ => rfl

theorem Reads.bind {reader : Reader ε α} {next : α → Reader ε β} {first : α} {second : β}
    {front back : Bytes} (hfront : reader.Reads first front)
    (hback : (next first).Reads second back) :
    (reader >>= next).Reads second (front ++ back) := by
  intro offset rest
  rw [run_bind, List.append_assoc, hfront]
  simp only
  rw [hback, List.length_append, Nat.add_assoc]

theorem Reads.map {reader : Reader ε α} {value : α} {encoded : Bytes} (f : α → β)
    (h : reader.Reads value encoded) : (f <$> reader).Reads (f value) encoded := by
  rw [← List.append_nil encoded]
  exact h.bind (Reads.pure (f value))

/-- The last reader of a row takes no bytes of its own. -/
theorem Reads.bind_last {reader : Reader ε α} {next : α → Reader ε β} {first : α} {second : β}
    {encoded : Bytes} (h : reader.Reads first encoded) (hnext : (next first).Reads second []) :
    (reader >>= next).Reads second encoded := by
  rw [← List.append_nil encoded]
  exact h.bind hnext

theorem Reads.byte (first : UInt8) : (Reader.byte : Reader ε UInt8).Reads first [first] :=
  fun _ _ => rfl

theorem Reads.byte_bind {next : UInt8 → Reader ε β} {first : UInt8} {second : β} {back : Bytes}
    (h : (next first).Reads second back) : (Reader.byte >>= next).Reads second (first :: back) :=
  (Reads.byte first).bind h

theorem Reads.take {count : Nat} {encoded : Bytes} (h : encoded.length = count) :
    (Reader.take count : Reader ε Bytes).Reads encoded encoded := by
  intro offset rest
  subst h
  simp [Reader.take]

theorem Reads.ofExcept {result : Except ε α} {value : α} (h : result = .ok value) :
    (Reader.ofExcept result).Reads value [] := by
  subst h
  exact Reads.pure value

theorem Reads.iterate {step : σ → Reader ε σ} (next : σ → α → σ) {values : List α} {encoded : Bytes}
    (h : Row (fun value form => ∀ state, (step state).Reads (next state value) form) values encoded)
    (state : σ) :
    (Reader.iterate step values.length state).Reads (values.foldl next state) encoded := by
  induction h generalizing state with
  | nil => exact fun _ _ => rfl
  | @cons value values front back hfront _ ih =>
      intro offset rest
      change iterateRun step (values.length + 1) state _ = _
      rw [iterateRun, List.append_assoc, hfront]
      simp only
      rw [List.length_append, ← Nat.add_assoc]
      exact ih (next state value) _ rest

theorem Reads.times {reader : Reader ε α} {values : List α} {encoded : Bytes} {count : Nat}
    (h : Row reader.Reads values encoded) (hcount : values.length = count) :
    (Reader.times count reader).Reads values encoded := by
  subst hcount
  have hsteps : Row
      (fun value form => ∀ found : List α, ((· :: found) <$> reader).Reads (value :: found) form)
      values encoded :=
    h.imp fun _ _ hform found => hform.map (· :: found)
  have hrow := (Reads.iterate (fun found value => value :: found) hsteps []).map List.reverse
  rwa [List.foldl_flip_cons_eq_append', List.append_nil, List.reverse_reverse] at hrow

theorem Reads.untilDone {step : σ → Reader ε (σ × Bool)} (next : σ → α → σ) {values : List α}
    {encoded ending : Bytes}
    (h : Row (fun value form =>
      form ≠ [] ∧ ∀ state, (step state).Reads (next state value, true) form) values encoded)
    (hending : ∀ state, (step state).Reads (state, false) ending) (state : σ) :
    (Reader.untilDone step state).Reads (values.foldl next state) (encoded ++ ending) := by
  induction h generalizing state with
  | nil =>
      intro offset rest
      change untilDoneRun step state _ = _
      rw [untilDoneRun, List.nil_append, hending]
      rfl
  | @cons value values front back hfront _ ih =>
      intro offset rest
      have hpos : 0 < front.length := List.length_pos_iff.2 hfront.1
      change untilDoneRun step state _ = _
      rw [untilDoneRun, List.append_assoc, List.append_assoc, hfront.2]
      simp only
      rw [if_pos (by omega), ← List.append_assoc]
      have hlater := ih (next state value) (offset + front.length) rest
      change untilDoneRun step (next state value) _ = _ at hlater
      rw [hlater]
      simp only [List.foldl_cons, List.length_append, Nat.add_assoc]

theorem Reads.collect {next? : Reader ε (Option α)} {values : List α} {encoded ending : Bytes}
    (h : Row (fun value form => form ≠ [] ∧ next?.Reads (some value) form) values encoded)
    (hending : next?.Reads none ending) :
    (Reader.collect next?).Reads values (encoded ++ ending) := by
  have hsteps : Row
      (fun value form => form ≠ [] ∧
        ∀ found : List α, (collectStep next? found).Reads (value :: found, true) form)
      values encoded :=
    h.imp fun value _ hform =>
      ⟨hform.1, fun found => hform.2.bind_last (Reads.pure (value :: found, true))⟩
  have hlast : ∀ found : List α, (collectStep next? found).Reads (found, false) ending :=
    fun found => hending.bind_last (Reads.pure (found, false))
  have hrow := (Reads.untilDone (fun found value => value :: found) hsteps hlast []).map
    List.reverse
  rwa [List.foldl_flip_cons_eq_append', List.append_nil, List.reverse_reverse] at hrow

/-! ### Bytes that are refused -/

/-- The reader fails for this fault behind exactly these bytes, whatever comes next. -/
def Refuses (reader : Reader ε α) (fault : ε) (encoded : Bytes) : Prop :=
  ∀ (offset : Nat) (rest : Bytes),
    reader.run ⟨offset, encoded ++ rest⟩ = .failed fault ⟨offset + encoded.length, rest⟩

/-- The same of bytes that end at a certain offset, which the fault may tell. -/
def RefusesAt (reader : Reader ε α) (stop : Nat) (fault : ε) (encoded : Bytes) : Prop :=
  ∀ (offset : Nat) (rest : Bytes), offset + encoded.length = stop →
    reader.run ⟨offset, encoded ++ rest⟩ = .failed fault ⟨stop, rest⟩

section Refuses

variable {fault : ε} {stop : Nat}

theorem RefusesAt.bind {reader : Reader ε α} {next : α → Reader ε β} {encoded : Bytes}
    (h : reader.RefusesAt stop fault encoded) : (reader >>= next).RefusesAt stop fault encoded := by
  intro offset rest hstop
  rw [run_bind, h offset rest hstop]

/-- What comes first is read, and what comes next is refused. -/
theorem Reads.bind_refusesAt {reader : Reader ε α} {next : α → Reader ε β} {first : α}
    {front back : Bytes} (hfront : reader.Reads first front)
    (hback : (next first).RefusesAt stop fault back) :
    (reader >>= next).RefusesAt stop fault (front ++ back) := by
  intro offset rest hstop
  rw [List.length_append, ← Nat.add_assoc] at hstop
  rw [run_bind, List.append_assoc, hfront]
  exact hback _ rest hstop

/-- What comes next is refused before anything of it is taken. -/
theorem Reads.bind_last_refusesAt {reader : Reader ε α} {next : α → Reader ε β} {first : α}
    {encoded : Bytes} (h : reader.Reads first encoded)
    (hnext : (next first).RefusesAt stop fault []) :
    (reader >>= next).RefusesAt stop fault encoded := by
  rw [← List.append_nil encoded]
  exact h.bind_refusesAt hnext

theorem Refuses.at {reader : Reader ε α} {encoded : Bytes} (h : reader.Refuses fault encoded)
    (stop : Nat) : reader.RefusesAt stop fault encoded := by
  rintro offset rest rfl
  exact h offset rest

theorem Refuses.fail : (Reader.fail fault : Reader ε α).Refuses fault [] :=
  fun _ _ => rfl

theorem Refuses.bind {reader : Reader ε α} {next : α → Reader ε β} {encoded : Bytes}
    (h : reader.Refuses fault encoded) : (reader >>= next).Refuses fault encoded :=
  fun offset rest => (h.at _).bind offset rest rfl

theorem Reads.bind_refuses {reader : Reader ε α} {next : α → Reader ε β} {first : α}
    {front back : Bytes} (hfront : reader.Reads first front)
    (hback : (next first).Refuses fault back) : (reader >>= next).Refuses fault (front ++ back) :=
  fun offset rest => hfront.bind_refusesAt (hback.at _) offset rest rfl

/-- A row of values that is too short for their number, and then one that is refused. -/
theorem Refuses.times {reader : Reader ε α} {values : List α} {count : Nat} {body back : Bytes}
    (hbody : Row reader.Reads values body) (hmore : values.length < count)
    (hback : reader.Refuses fault back) :
    (Reader.times count reader).Refuses fault (body ++ back) := by
  have hsteps : ∀ found : List α,
      (Reader.iterate (fun found => (· :: found) <$> reader) count found).Refuses fault
        (body ++ back) := by
    induction hbody generalizing count with
    | nil =>
        obtain ⟨count, rfl⟩ := Nat.exists_eq_succ_of_ne_zero (Nat.ne_of_gt hmore)
        intro found
        have hstep : ((· :: found) <$> reader >>=
            Reader.iterate (fun found => (· :: found) <$> reader) count).Refuses fault back :=
          hback.bind.bind
        exact hstep
    | @cons value values front body hvalue _ ih =>
        obtain ⟨count, rfl⟩ := Nat.exists_eq_succ_of_ne_zero (Nat.ne_of_gt (Nat.zero_lt_of_lt hmore))
        intro found
        rw [List.append_assoc]
        exact (hvalue.map (· :: found)).bind_refuses (ih (Nat.lt_of_succ_lt_succ hmore) _)
  exact (hsteps []).bind

/-- A row of values that goes on, and then one that is refused. -/
theorem Refuses.collect {next? : Reader ε (Option α)} {values : List α} {body back : Bytes}
    (hbody : Row (fun value form => form ≠ [] ∧ next?.Reads (some value) form) values body)
    (hback : next?.Refuses fault back) : (Reader.collect next?).Refuses fault (body ++ back) := by
  have hsteps : ∀ found : List α,
      (Reader.untilDone (collectStep next?) found).Refuses fault (body ++ back) := by
    induction hbody with
    | nil =>
        intro found offset rest
        have hstep : (collectStep next? found).Refuses fault back := hback.bind
        change untilDoneRun (collectStep next?) found _ = _
        rw [untilDoneRun, List.nil_append, hstep]
    | @cons value values front body hvalue _ ih =>
        intro found offset rest
        have hstep : (collectStep next? found).Reads (value :: found, true) front :=
          hvalue.2.bind_last (Reads.pure (value :: found, true))
        have hpos : 0 < front.length := List.length_pos_iff.2 hvalue.1
        have hlater := ih (value :: found) (offset + front.length) rest
        change untilDoneRun (collectStep next?) (value :: found) _ = _ at hlater
        change untilDoneRun (collectStep next?) found _ = _
        rw [untilDoneRun, List.append_assoc, List.append_assoc, hstep]
        simp only
        rw [if_pos (by omega), ← List.append_assoc, hlater]
        simp only [List.length_append, Nat.add_assoc]
  exact (hsteps []).bind

end Refuses

/-! ### Bytes that do not suffice -/

/-- The reader takes the first bytes and is short of more than are left behind them. -/
def Lacks (reader : Reader ε α) (taken left : Bytes) : Prop :=
  ∀ offset : Nat, ∃ need,
    reader.run ⟨offset, taken ++ left⟩ = .short need ⟨offset + taken.length, left⟩

section Lacks

variable {left : Bytes}

theorem Lacks.byte : (Reader.byte : Reader ε UInt8).Lacks [] [] :=
  fun _ => ⟨_, rfl⟩

theorem Lacks.take {count : Nat} (h : left.length < count) :
    (Reader.take count : Reader ε Bytes).Lacks [] left := by
  intro offset
  refine ⟨.span count, ?_⟩
  rw [Reader.take]
  dsimp only
  rw [if_neg (by rw [List.nil_append, List.length_take]; omega)]
  rfl

theorem Lacks.bind {reader : Reader ε α} {next : α → Reader ε β} {taken : Bytes}
    (h : reader.Lacks taken left) : (reader >>= next).Lacks taken left := by
  intro offset
  obtain ⟨need, hrun⟩ := h offset
  exact ⟨need, by rw [run_bind, hrun]⟩

/-- What comes first is read, and what comes next is cut short. -/
theorem Reads.bind_lacks {reader : Reader ε α} {next : α → Reader ε β} {first : α}
    {front back : Bytes} (hfront : reader.Reads first front) (hback : (next first).Lacks back left) :
    (reader >>= next).Lacks (front ++ back) left := by
  intro offset
  obtain ⟨need, hrun⟩ := hback (offset + front.length)
  refine ⟨need, ?_⟩
  rw [run_bind, List.append_assoc, hfront]
  simp only
  rw [hrun, List.length_append, Nat.add_assoc]

/-- What comes next is cut short before anything of it is taken. -/
theorem Reads.bind_last_lacks {reader : Reader ε α} {next : α → Reader ε β} {first : α}
    {encoded : Bytes} (h : reader.Reads first encoded) (hnext : (next first).Lacks [] left) :
    (reader >>= next).Lacks encoded left := by
  rw [← List.append_nil encoded]
  exact h.bind_lacks hnext

end Lacks

end Reader

theorem Decoder.readBlob_of_reads {α : Type} {decoder : Decoder α} {value : α} {encoded : Bytes}
    (h : Reader.Reads decoder value encoded) (more : Bytes) :
    readBlob decoder (encoded ++ more) = .ok value := by
  rw [readBlob, decodeBlob, Cursor.start, h]

theorem Decoder.readBlob_of_refuses {α : Type} {decoder : Decoder α} {fault : Fault}
    {encoded : Bytes} (h : Reader.Refuses decoder fault encoded) (more : Bytes) :
    readBlob decoder (encoded ++ more) = .error fault := by
  rw [readBlob, decodeBlob, Cursor.start, h]

end RedisSnapshot
