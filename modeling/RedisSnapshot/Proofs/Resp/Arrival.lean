import RedisSnapshot.Resp.Incoming

/-!
# Replies arrive in any pieces

Whoever receives replies takes off the buffer what is complete, each time more has come, and leaves
what is not. A reply or a fault that was found does not change with the bytes behind it, and where
neither was found nothing was taken. So the pieces make no difference: taken together they give the
replies, the fault and the rest that all the bytes would have given at once.
-/

namespace RedisSnapshot.Reply

def Arrived.behind (found : List Reply) (arrived : Arrived) : Arrived :=
  { arrived with replies := found ++ arrived.replies }

/-- The bytes that no reply could be taken from. -/
def IsPending (received : Bytes) : Prop :=
  parseAll received = ⟨[], received, none⟩

theorem parseAllOnto_eq (found : List Reply) (input : Bytes) :
    parseAllOnto found input = (parseAll input).behind found.reverse := by
  -- What was found before stands behind what is found now, as both stand in reverse.
  have hgeneral : ∀ (input : Bytes) (front found : List Reply),
      parseAllOnto (front ++ found) input = (parseAllOnto front input).behind found.reverse := by
    intro input front
    fun_induction parseAllOnto front input with
    | case1 front input reply cursor hrun ih =>
        intro found
        rw [parseAllOnto]
        split <;> rename_i heq <;> rw [hrun] at heq <;> cases heq
        exact ih found
    | case2 front input need cursor hrun | case3 front input fault cursor hrun =>
        intro found
        rw [parseAllOnto]
        split <;> rename_i heq <;> rw [hrun] at heq <;> cases heq
        simp [Arrived.behind]
  exact hgeneral input [] found

section Run

variable {input : Bytes} {reply : Reply} {cursor : Cursor}

theorem parseAll_of_done (h : reader.run (.start input) = .done reply cursor) :
    parseAll input = (parseAll cursor.rest).behind [reply] := by
  rw [parseAll, parseAllOnto]
  split <;> rename_i heq <;> rw [h] at heq <;> cases heq
  exact parseAllOnto_eq [reply] cursor.rest

theorem parseAll_of_short {need : Need} (h : reader.run (.start input) = .short need cursor) :
    parseAll input = ⟨[], input, none⟩ := by
  rw [parseAll, parseAllOnto]
  split <;> rename_i heq <;> rw [h] at heq <;> cases heq
  rfl

theorem parseAll_of_failed {fault : ProtocolFault}
    (h : reader.run (.start input) = .failed fault cursor) :
    parseAll input = ⟨[], input, some fault⟩ := by
  rw [parseAll, parseAllOnto]
  split <;> rename_i heq <;> rw [h] at heq <;> cases heq
  rfl

end Run

/-- Induction over the replies in some bytes. -/
theorem parseAll_induction {motive : Bytes → Prop}
    (hstep : ∀ input,
      (∀ reply cursor, reader.run (.start input) = .done reply cursor → motive cursor.rest) →
        motive input) (input : Bytes) : motive input := by
  induction hlength : input.length using Nat.strongRecOn generalizing input with
  | ind length ih =>
      apply hstep
      intro reply cursor hrun
      have hlt := length_lt_of_run hrun
      exact ih _ (hlength ▸ hlt) cursor.rest rfl

theorem isPending_nil : IsPending [] :=
  parseAll_of_short rfl

theorem isPending_rest (input : Bytes) :
    (parseAll input).fault = none → IsPending (parseAll input).rest := by
  induction input using parseAll_induction with
  | hstep input ih =>
      intro hfault
      cases hrun : reader.run (.start input) with
      | done reply cursor =>
          rw [parseAll_of_done hrun] at hfault ⊢
          exact ih reply cursor hrun hfault
      | short need cursor =>
          rw [parseAll_of_short hrun]
          exact parseAll_of_short hrun
      | failed fault cursor =>
          rw [parseAll_of_failed hrun] at hfault
          cases hfault

/-- More bytes do not change what was found, and are read behind what was left. -/
theorem parseAll_append_of_none (input more : Bytes) :
    (parseAll input).fault = none →
      parseAll (input ++ more) =
        (parseAll ((parseAll input).rest ++ more)).behind (parseAll input).replies := by
  induction input using parseAll_induction with
  | hstep input ih =>
      intro hfault
      have hsettles := reader.settles (.start input) more
      cases hrun : reader.run (.start input) with
      | done reply cursor =>
          rw [hrun] at hsettles
          have hextended : reader.run (.start (input ++ more)) =
              .done reply (cursor.extend more) := hsettles rfl
          rw [parseAll_of_done hrun] at hfault ⊢
          rw [parseAll_of_done hextended]
          change (parseAll (cursor.rest ++ more)).behind [reply] = _
          rw [ih reply cursor hrun hfault]
          rfl
      | short need cursor =>
          rw [parseAll_of_short hrun]
          rfl
      | failed fault cursor =>
          rw [parseAll_of_failed hrun] at hfault
          cases hfault

theorem parseAll_append_of_some {fault : ProtocolFault} (input more : Bytes) :
    (parseAll input).fault = some fault →
      (parseAll (input ++ more)).replies = (parseAll input).replies ∧
        (parseAll (input ++ more)).fault = some fault := by
  induction input using parseAll_induction with
  | hstep input ih =>
      intro hfault
      have hsettles := reader.settles (.start input) more
      cases hrun : reader.run (.start input) with
      | done reply cursor =>
          rw [hrun] at hsettles
          have hextended : reader.run (.start (input ++ more)) =
              .done reply (cursor.extend more) := hsettles rfl
          rw [parseAll_of_done hrun] at hfault ⊢
          rw [parseAll_of_done hextended]
          obtain ⟨hreplies, hlater⟩ := ih reply cursor hrun hfault
          exact ⟨congrArg ([reply] ++ ·) hreplies, hlater⟩
      | short need cursor =>
          rw [parseAll_of_short hrun] at hfault
          cases hfault
      | failed found cursor =>
          rw [hrun] at hsettles
          have hextended : reader.run (.start (input ++ more)) =
              .failed found (cursor.extend more) := hsettles rfl
          rw [parseAll_of_failed hrun] at hfault ⊢
          rw [parseAll_of_failed hextended]
          exact ⟨rfl, hfault⟩

/-! ### One chunk after another -/

/-- What each chunk brings that is put behind the bytes not taken yet, up to the first fault. -/
def feed (received : Bytes) : List Bytes → List Arrived
  | [] => []
  | chunk :: chunks =>
      let arrived := parseAll (received ++ chunk)
      arrived :: match arrived.fault with
        | none => feed arrived.rest chunks
        | some _ => []

section Feed

variable {received : Bytes}

theorem feed_cons_of_none {chunk : Bytes} (h : (parseAll (received ++ chunk)).fault = none)
    (chunks : List Bytes) :
    feed received (chunk :: chunks) =
      parseAll (received ++ chunk) :: feed (parseAll (received ++ chunk)).rest chunks := by
  rw [feed, h]

theorem feed_cons_of_some {chunk : Bytes} {fault : ProtocolFault}
    (h : (parseAll (received ++ chunk)).fault = some fault) (chunks : List Bytes) :
    feed received (chunk :: chunks) = [parseAll (received ++ chunk)] := by
  rw [feed, h]

theorem replies_feed (hreceived : IsPending received) (chunks : List Bytes) :
    (feed received chunks).flatMap Arrived.replies =
      (parseAll (received ++ chunks.flatten)).replies := by
  induction chunks generalizing received with
  | nil =>
      rw [List.flatten_nil, List.append_nil, hreceived]
      rfl
  | cons chunk chunks ih =>
      rw [List.flatten_cons, ← List.append_assoc]
      cases hfault : (parseAll (received ++ chunk)).fault with
      | none =>
          rw [feed_cons_of_none hfault, List.flatMap_cons, ih (isPending_rest _ hfault),
            parseAll_append_of_none _ _ hfault]
          rfl
      | some fault =>
          rw [feed_cons_of_some hfault, (parseAll_append_of_some _ _ hfault).1]
          exact List.append_nil _

/-- Without a fault in all the bytes there is none at any chunk, and the same is left in the end. -/
theorem feed_of_none (hreceived : IsPending received) (chunks : List Bytes)
    (h : (parseAll (received ++ chunks.flatten)).fault = none) :
    (feed received chunks).length = chunks.length ∧
      (∀ arrived ∈ feed received chunks, arrived.fault = none) ∧
      ((feed received chunks).getLast?.map Arrived.rest).getD received =
        (parseAll (received ++ chunks.flatten)).rest := by
  induction chunks generalizing received with
  | nil =>
      rw [List.flatten_nil, List.append_nil, hreceived]
      exact ⟨rfl, nofun, rfl⟩
  | cons chunk chunks ih =>
      rw [List.flatten_cons, ← List.append_assoc] at h ⊢
      cases hfault : (parseAll (received ++ chunk)).fault with
      | none =>
          rw [parseAll_append_of_none _ _ hfault] at h ⊢
          obtain ⟨hlength, hnone, hrest⟩ := ih (isPending_rest _ hfault) h
          rw [feed_cons_of_none hfault]
          refine ⟨congrArg (· + 1) hlength, ?_, ?_⟩
          · intro arrived hmem
            rcases List.mem_cons.1 hmem with rfl | hmem
            · exact hfault
            · exact hnone arrived hmem
          · rw [List.getLast?_cons]
            change _ = (parseAll _).rest
            rw [← hrest]
            cases (feed (parseAll (received ++ chunk)).rest chunks).getLast? <;> rfl
      | some fault =>
          rw [(parseAll_append_of_some _ _ hfault).2] at h
          cases h

theorem feed_of_some {fault : ProtocolFault} (hreceived : IsPending received)
    (chunks : List Bytes) (h : (parseAll (received ++ chunks.flatten)).fault = some fault) :
    ∃ earlier last, feed received chunks = earlier ++ [last] ∧
      (∀ arrived ∈ earlier, arrived.fault = none) ∧ last.fault = some fault := by
  induction chunks generalizing received with
  | nil =>
      rw [List.flatten_nil, List.append_nil, hreceived] at h
      cases h
  | cons chunk chunks ih =>
      rw [List.flatten_cons, ← List.append_assoc] at h
      cases hfault : (parseAll (received ++ chunk)).fault with
      | none =>
          rw [parseAll_append_of_none _ _ hfault] at h
          obtain ⟨earlier, last, hfeed, hnone, hlast⟩ := ih (isPending_rest _ hfault) h
          refine ⟨parseAll (received ++ chunk) :: earlier, last, ?_, ?_, hlast⟩
          · rw [feed_cons_of_none hfault, hfeed]
            rfl
          · intro arrived hmem
            rcases List.mem_cons.1 hmem with rfl | hmem
            · exact hfault
            · exact hnone arrived hmem
      | some found =>
          rw [(parseAll_append_of_some _ _ hfault).2] at h
          exact ⟨[], _, feed_cons_of_some hfault chunks, nofun, hfault.trans h⟩

end Feed

/-- **Pieces.** However the bytes are cut, the chunks bring the replies of all of them. If nothing is
wrong with the bytes, no chunk meets a fault and the same bytes are left; and if something is, the
last chunk that is looked at meets the same fault. -/
theorem feed_eq_parseAll (chunks : List Bytes) :
    (feed [] chunks).flatMap Arrived.replies = (parseAll chunks.flatten).replies ∧
      ((parseAll chunks.flatten).fault = none →
        (feed [] chunks).length = chunks.length ∧
          (∀ arrived ∈ feed [] chunks, arrived.fault = none) ∧
          ((feed [] chunks).getLast?.map Arrived.rest).getD [] = (parseAll chunks.flatten).rest) ∧
      ∀ fault, (parseAll chunks.flatten).fault = some fault →
        ∃ earlier last, feed [] chunks = earlier ++ [last] ∧
          (∀ arrived ∈ earlier, arrived.fault = none) ∧ last.fault = some fault :=
  ⟨replies_feed isPending_nil chunks, feed_of_none isPending_nil chunks,
    fun _ hfault => feed_of_some isPending_nil chunks hfault⟩

end RedisSnapshot.Reply
