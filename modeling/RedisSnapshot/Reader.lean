import RedisSnapshot.Bytes

/-!
# Readers

A reader takes a value off the front of a byte string. It does not know whether the bytes it was
given are all there are: when they do not suffice it is short, and whoever holds the rest decides
what that means. This is why every reader keeps two promises that no decoder has to establish again.
It only moves forward, and once it has settled on a value or a fault, no further bytes behind those
it was given can change its mind.
-/

namespace RedisSnapshot

/-- A place in a byte string: how many bytes lie before it, and the bytes from there on. -/
structure Cursor where
  offset : Nat
  rest : Bytes
deriving DecidableEq

namespace Cursor

def start (input : Bytes) : Cursor :=
  ⟨0, input⟩

def extend (cursor : Cursor) (more : Bytes) : Cursor :=
  { cursor with rest := cursor.rest ++ more }

/-- The second place lies behind the first, or is the same. -/
def Reaches (first second : Cursor) : Prop :=
  ∃ used, first.rest = used ++ second.rest ∧ second.offset = first.offset + used.length

theorem Reaches.refl (cursor : Cursor) : cursor.Reaches cursor :=
  ⟨[], by simp⟩

theorem Reaches.trans {first second third : Cursor} (h₁ : first.Reaches second)
    (h₂ : second.Reaches third) : first.Reaches third := by
  obtain ⟨used₁, hrest₁, hoffset₁⟩ := h₁
  obtain ⟨used₂, hrest₂, hoffset₂⟩ := h₂
  exact ⟨used₁ ++ used₂, by simp [hrest₁, hrest₂], by simp [hoffset₁, hoffset₂]; omega⟩

theorem Reaches.length_le {first second : Cursor} (h : first.Reaches second) :
    second.rest.length ≤ first.rest.length := by
  obtain ⟨used, hrest, _⟩ := h
  simp [hrest]

theorem Reaches.total_eq {first second : Cursor} (h : first.Reaches second) :
    second.offset + second.rest.length = first.offset + first.rest.length := by
  obtain ⟨used, hrest, hoffset⟩ := h
  rw [hrest, hoffset, List.length_append, Nat.add_assoc]

theorem Reaches.length_lt {first second : Cursor} (h : first.Reaches second)
    (hlt : first.offset < second.offset) : second.rest.length < first.rest.length := by
  obtain ⟨used, hrest, hoffset⟩ := h
  simp [hrest]
  omega

end Cursor

/-- What a reader would have needed: the next byte, or a run of bytes. -/
inductive Need where
  | byte
  | span (count : Nat)
deriving DecidableEq

inductive Outcome (ε α : Type) where
  | done (value : α) (cursor : Cursor)
  | short (need : Need) (cursor : Cursor)
  | failed (fault : ε) (cursor : Cursor)

namespace Outcome

variable {ε α : Type}

def cursor : Outcome ε α → Cursor
  | done _ cursor | short _ cursor | failed _ cursor => cursor

def isSettled : Outcome ε α → Bool
  | short .. => false
  | _ => true

def extend (more : Bytes) : Outcome ε α → Outcome ε α
  | done value cursor => done value (cursor.extend more)
  | short need cursor => short need (cursor.extend more)
  | failed fault cursor => failed fault (cursor.extend more)

end Outcome

structure Reader (ε α : Type) where
  run : Cursor → Outcome ε α
  reaches : ∀ cursor : Cursor, cursor.Reaches (run cursor).cursor
  settles : ∀ (cursor : Cursor) (more : Bytes), (run cursor).isSettled →
    run (cursor.extend more) = (run cursor).extend more

namespace Reader

variable {ε α β σ : Type}

instance : Monad (Reader ε) where
  pure value := ⟨fun cursor => .done value cursor, fun cursor => .refl cursor, fun _ _ _ => rfl⟩
  bind reader next :=
    { run := fun cursor =>
        match reader.run cursor with
        | .done value cursor => (next value).run cursor
        | .short need cursor => .short need cursor
        | .failed fault cursor => .failed fault cursor
      reaches := fun cursor => by
        have hreader := reader.reaches cursor
        split <;> simp_all only [Outcome.cursor]
        exact hreader.trans ((next _).reaches _)
      settles := fun cursor more h => by
        have hreader := reader.settles cursor more
        split at h <;> rename_i heq <;> simp only [heq, Outcome.isSettled, forall_const] at hreader
        · simpa [hreader, heq, Outcome.extend] using (next _).settles _ _ h
        · cases h
        · simp [hreader, Outcome.extend] }

theorem run_bind (reader : Reader ε α) (next : α → Reader ε β) (cursor : Cursor) :
    (reader >>= next).run cursor =
      match reader.run cursor with
      | .done value cursor => (next value).run cursor
      | .short need cursor => .short need cursor
      | .failed fault cursor => .failed fault cursor := rfl

def fail (fault : ε) : Reader ε α where
  run cursor := .failed fault cursor
  reaches cursor := .refl cursor
  settles _ _ _ := rfl

def offset : Reader ε Nat where
  run cursor := .done cursor.offset cursor
  reaches cursor := .refl cursor
  settles _ _ _ := rfl

def ofExcept : Except ε α → Reader ε α
  | .ok value => pure value
  | .error fault => fail fault

def byte : Reader ε UInt8 where
  run
    | ⟨offset, byte :: rest⟩ => .done byte ⟨offset + 1, rest⟩
    | ⟨offset, []⟩ => .short .byte ⟨offset, []⟩
  reaches cursor := by
    obtain ⟨offset, _ | ⟨byte, rest⟩⟩ := cursor
    · exact .refl _
    · exact ⟨[byte], rfl, rfl⟩
  settles cursor more h := by
    obtain ⟨offset, _ | ⟨byte, rest⟩⟩ := cursor
    · cases h
    · rfl

/-- The next byte, which stays the next byte. -/
def peek : Reader ε UInt8 where
  run
    | ⟨offset, byte :: rest⟩ => .done byte ⟨offset, byte :: rest⟩
    | ⟨offset, []⟩ => .short .byte ⟨offset, []⟩
  reaches cursor := by
    obtain ⟨offset, _ | ⟨byte, rest⟩⟩ := cursor <;> exact .refl _
  settles cursor more h := by
    obtain ⟨offset, _ | ⟨byte, rest⟩⟩ := cursor
    · cases h
    · rfl

def never : Reader ε α where
  run cursor := .short .byte cursor
  reaches cursor := .refl cursor
  settles _ _ h := nomatch h

theorem length_lt_of_byte_bind {next : UInt8 → Reader ε α} {cursor after : Cursor} {value : α}
    (h : (byte >>= next).run cursor = .done value after) :
    after.rest.length < cursor.rest.length := by
  obtain ⟨offset, _ | ⟨first, rest⟩⟩ := cursor
  · cases h
  · have hreaches := (next first).reaches ⟨offset + 1, rest⟩
    have hrun : (next first).run ⟨offset + 1, rest⟩ = .done value after := h
    rw [hrun] at hreaches
    exact Nat.lt_succ_of_le hreaches.length_le

def take (count : Nat) : Reader ε Bytes where
  run cursor :=
    let front := cursor.rest.take count
    if front.length = count then .done front ⟨cursor.offset + count, cursor.rest.drop count⟩
    else .short (.span count) cursor
  reaches cursor := by
    dsimp only
    split <;> rename_i h
    · exact ⟨cursor.rest.take count, by simp [Outcome.cursor], by simp_all [Outcome.cursor]⟩
    · exact .refl cursor
  settles cursor more h := by
    dsimp only at h ⊢
    split at h <;> rename_i hlength
    · have hle : count ≤ cursor.rest.length := by rw [List.length_take] at hlength; omega
      simp [Cursor.extend, Outcome.extend, List.take_append_of_le_length hle,
        List.drop_append_of_le_length hle, hle]
    · cases h

def little (width : Nat) : Reader ε Nat :=
  Word.little <$> take width

def big (width : Nat) : Reader ε Nat :=
  Word.big <$> take width

/-- The integer in the next so many bytes, least significant first, in two's complement. -/
def signedLittle (width : Nat) : Reader ε Int :=
  (Word.signed (8 * width) ∘ Word.little) <$> take width

/-- The bytes in front of the first line end, and those behind it, in front of bytes already read,
which stand in reverse. -/
def splitLineOnto (read : Bytes) : Bytes → Option (Bytes × Bytes)
  | 13 :: 10 :: rest => some (read.reverse, rest)
  | byte :: rest => splitLineOnto (byte :: read) rest
  | [] => none

theorem eq_of_splitLineOnto {read input line rest : Bytes}
    (h : splitLineOnto read input = some (line, rest)) :
    read.reverse ++ input = line ++ 13 :: 10 :: rest := by
  fun_induction splitLineOnto read input with
  | case1 => cases h; rfl
  | case2 read byte input _ ih => simpa using ih h
  | case3 => cases h

theorem splitLineOnto_append {read input line rest : Bytes} (more : Bytes)
    (h : splitLineOnto read input = some (line, rest)) :
    splitLineOnto read (input ++ more) = some (line, rest ++ more) := by
  fun_induction splitLineOnto read input with
  | case1 => cases h; rfl
  | case2 read byte input hnot ih =>
      have hsplit := eq_of_splitLineOnto h
      rw [List.cons_append, splitLineOnto, ih h]
      rintro tail rfl htail
      cases input with
      | nil => simp [splitLineOnto] at h
      | cons second input =>
          obtain ⟨rfl, rfl⟩ := List.cons_eq_cons.1 htail
          exact hnot input rfl rfl
  | case3 => cases h

/-- The bytes up to the next line end, which is taken too. -/
def line : Reader ε Bytes where
  run cursor :=
    match splitLineOnto [] cursor.rest with
    | some (line, rest) => .done line ⟨cursor.offset + line.length + 2, rest⟩
    | none => .short .byte cursor
  reaches cursor := by
    split
    · rename_i line rest h
      exact ⟨line ++ [13, 10], by simpa [Outcome.cursor] using eq_of_splitLineOnto h,
        by simp [Outcome.cursor]; omega⟩
    · exact .refl cursor
  settles cursor more h := by
    split at h
    · rename_i line rest hsplit
      simp [Cursor.extend, Outcome.extend, splitLineOnto_append more hsplit]
    · cases h

/-- Runs a step so many times, each on the state that the one before it left. -/
def iterateRun (step : σ → Reader ε σ) : Nat → σ → Cursor → Outcome ε σ
  | 0, state, cursor => .done state cursor
  | count + 1, state, cursor =>
      match (step state).run cursor with
      | .done state cursor => iterateRun step count state cursor
      | .short need cursor => .short need cursor
      | .failed fault cursor => .failed fault cursor

def iterate (step : σ → Reader ε σ) (count : Nat) (state : σ) : Reader ε σ where
  run := iterateRun step count state
  reaches cursor := by
    induction count generalizing state cursor with
    | zero => exact .refl cursor
    | succ count ih =>
        have hstep := (step state).reaches cursor
        simp only [iterateRun]
        split <;> simp_all only [Outcome.cursor]
        exact hstep.trans (ih ..)
  settles cursor more h := by
    induction count generalizing state cursor with
    | zero => rfl
    | succ count ih =>
        have hstep := (step state).settles cursor more
        simp only [iterateRun] at h ⊢
        split at h <;> rename_i heq <;> simp only [heq, Outcome.isSettled, forall_const] at hstep
        · simpa [hstep, heq, Outcome.extend] using ih _ _ h
        · cases h
        · simp [hstep, Outcome.extend]

/-- Runs a step until it has no next state, which must not take for ever: a step that leaves the
cursor where it is ends the run too. -/
def untilDoneRun (step : σ → Reader ε (σ × Bool)) (state : σ) (cursor : Cursor) : Outcome ε σ :=
  match _h : (step state).run cursor with
  | .done (after, true) next =>
      if cursor.offset < next.offset then untilDoneRun step after next else .done after next
  | .done (after, false) next => .done after next
  | .short need next => .short need next
  | .failed fault next => .failed fault next
termination_by cursor.rest.length
decreasing_by
  have hstep := (step state).reaches cursor
  rw [_h] at hstep
  exact hstep.length_lt ‹_›

def untilDone (step : σ → Reader ε (σ × Bool)) (state : σ) : Reader ε σ where
  run := untilDoneRun step state
  reaches cursor := by
    fun_induction untilDoneRun step state cursor with
    | case1 state cursor after next heq _ ih =>
        have hstep := (step state).reaches cursor
        rw [heq] at hstep
        exact hstep.trans ih
    | case2 state cursor after next heq | case3 state cursor after next heq
    | case4 state cursor need next heq | case5 state cursor fault next heq =>
        have hstep := (step state).reaches cursor
        rwa [heq] at hstep
  settles cursor more h := by
    fun_induction untilDoneRun step state cursor with
    | case1 state cursor after next heq hlt ih =>
        have hstep := (step state).settles cursor more (by rw [heq]; rfl)
        rw [untilDoneRun, hstep, heq]
        simpa [Outcome.extend, Cursor.extend, hlt] using ih h
    | case2 state cursor after next heq hlt =>
        have hstep := (step state).settles cursor more (by rw [heq]; rfl)
        rw [untilDoneRun, hstep, heq]
        simp [Outcome.extend, Cursor.extend, hlt]
    | case3 state cursor after next heq | case5 state cursor fault next heq =>
        have hstep := (step state).settles cursor more (by rw [heq]; rfl)
        rw [untilDoneRun, hstep, heq]
        simp [Outcome.extend]
    | case4 => cases h

def times (count : Nat) (reader : Reader ε α) : Reader ε (List α) :=
  List.reverse <$> iterate (fun values => (· :: values) <$> reader) count []

/-- Puts the next value, if there is one, in front of those read before it. -/
def collectStep (next? : Reader ε (Option α)) (found : List α) : Reader ε (List α × Bool) := do
  match ← next? with
  | some value => return (value :: found, true)
  | none => return (found, false)

/-- Values one after another until there is none. -/
def collect (next? : Reader ε (Option α)) : Reader ε (List α) :=
  List.reverse <$> untilDone (collectStep next?) []

/-- The second reader agrees with the first wherever the first one settles. -/
def Refines (first second : Reader ε α) : Prop :=
  ∀ cursor, (first.run cursor).isSettled → second.run cursor = first.run cursor

theorem Refines.refl (reader : Reader ε α) : reader.Refines reader :=
  fun _ _ => rfl

theorem Refines.bind {first second : Reader ε α} {next₁ next₂ : α → Reader ε β}
    (h : first.Refines second) (hnext : ∀ value, (next₁ value).Refines (next₂ value)) :
    (first >>= next₁).Refines (second >>= next₂) := fun cursor hsettled => by
  have hfirst := h cursor
  simp only [run_bind] at hsettled ⊢
  cases hrun : first.run cursor with
  | done value after =>
      simp only [hrun] at hsettled hfirst ⊢
      rw [hfirst rfl]
      exact hnext value after hsettled
  | short => simp [hrun, Outcome.isSettled] at hsettled
  | failed fault after =>
      simp only [hrun] at hfirst ⊢
      rw [hfirst rfl]

theorem Refines.map {first second : Reader ε α} (f : α → β) (h : first.Refines second) :
    (f <$> first).Refines (f <$> second) :=
  h.bind fun _ => .refl _

theorem Refines.iterate {step₁ step₂ : σ → Reader ε σ}
    (h : ∀ state, (step₁ state).Refines (step₂ state)) (count : Nat) (state : σ) :
    (iterate step₁ count state).Refines (iterate step₂ count state) := fun cursor hsettled => by
  change (iterateRun step₁ count state cursor).isSettled at hsettled
  change iterateRun step₂ count state cursor = iterateRun step₁ count state cursor
  induction count generalizing state cursor with
  | zero => rfl
  | succ count ih =>
      have hstep := h state cursor
      simp only [iterateRun] at hsettled ⊢
      cases hrun : (step₁ state).run cursor with
      | done value after =>
          simp only [hrun] at hsettled hstep ⊢
          rw [hstep rfl]
          exact ih value after hsettled
      | short => simp [hrun, Outcome.isSettled] at hsettled
      | failed fault after =>
          simp only [hrun] at hstep ⊢
          rw [hstep rfl]

theorem Refines.times {first second : Reader ε α} (h : first.Refines second) (count : Nat) :
    (times count first).Refines (times count second) :=
  .map _ (.iterate (fun _ => h.map _) count [])

/-- The limit of readers that get finer as their bound gets longer: at every cursor the bytes there
are the bound. -/
def limit (readers : Bytes → Reader ε α)
    (hrefines : ∀ bound more, (readers bound).Refines (readers (bound ++ more))) : Reader ε α where
  run cursor := (readers cursor.rest).run cursor
  reaches cursor := (readers _).reaches cursor
  settles cursor more h := by
    have hsettles := (readers _).settles cursor more h
    have hsettled : ((readers cursor.rest).run (cursor.extend more)).isSettled := by
      rw [hsettles]
      cases hrun : (readers cursor.rest).run cursor <;> simp_all [Outcome.isSettled, Outcome.extend]
    rw [← hsettles]
    exact hrefines _ _ _ hsettled

end Reader

end RedisSnapshot
