import RedisSnapshot.Proofs.Scan.Stopped

/-!
# Scans that may be cancelled at any time

Whoever has a snapshot scanned may cancel the scan at any moment, which the scan finds out when it asks
in front of the next item. What it has handed over until then was taken item by item, and so the scan
is at that moment where one would be that is never cancelled. It goes on from there as the other does,
or ends as cancelled.
-/

namespace RedisSnapshot

variable {σ : Type}

/-- The receiver, while a scan may be cancelled from outside: the token answers each time that the scan
asks. The state says how often it has asked. -/
def Receiver.under (receiver : Receiver (StateM σ)) (token : Nat → Bool) :
    Receiver (StateM (σ × Nat)) where
  take record := fun (state, asked) =>
    ((receiver.take record state).1, (receiver.take record state).2, asked)
  finish := fun (state, asked) => ((receiver.finish state).1, (receiver.finish state).2, asked)
  isCancelled := fun (state, asked) => (token asked, state, asked + 1)

namespace Scan

/-! ### From the same bytes -/

/-- Where a scan has come to does not depend on what is behind it. -/
theorem Passes.exists_front {source : Source} {header : Bytes} {items : List Item} {cursor : Cursor}
    (h : Passes source header items cursor) :
    ∃ front, source.input = front ++ cursor.rest ∧ front.length = cursor.offset ∧
      ∀ (behind : Bytes) (failure : Option IoFailure) (portion : Option Nat),
        Passes ⟨front ++ behind, failure, portion⟩ header items ⟨cursor.offset, behind⟩ := by
  have hoffset : ∀ {α : Type} {decoder : Decoder α} {value : α} {used rest : Bytes}
      {cursor after : Cursor}, decoder.Reads value used → cursor.rest = used ++ rest →
        decoder.run cursor = .done value after → after.offset = cursor.offset + used.length := by
    intro α decoder value used rest cursor after hreads hused hrun
    have hagain := hreads cursor.offset rest
    rw [← hused, hrun] at hagain
    injection hagain with _ hafter
    rw [hafter]
  induction h with
  | header hheader =>
      obtain ⟨used, hused, hreads⟩ := Decoder.composed_header.isExact _ _ _ hheader
      have hlength := hoffset hreads hused hheader
      rw [Source.start, Cursor.start, Nat.zero_add] at hlength
      refine ⟨used, hused, hlength.symm, fun behind failure portion => .header ?_⟩
      have hagain := hreads 0 behind
      rwa [Nat.zero_add, ← hlength] at hagain
  | item _ hrun hitem ih =>
      obtain ⟨front, hinput, hfront, hpasses⟩ := ih
      obtain ⟨used, hused, hreads⟩ := Item.composed_decoder.isExact _ _ _ hrun
      have hlength := hoffset hreads hused hrun
      refine ⟨front ++ used, ?_, ?_, fun behind failure portion => ?_⟩
      · rw [hinput, hused, List.append_assoc]
      · rw [List.length_append, hfront, hlength]
      · rw [List.append_assoc, hlength]
        exact (hpasses (used ++ behind) failure portion).item (hreads _ behind) hitem

theorem Passes.exists_header {source : Source} {header : Bytes} {items : List Item} {cursor : Cursor}
    (h : Passes source header items cursor) :
    ∃ start, Decoder.header.run source.start = .done header start := by
  induction h with
  | header hheader => exact ⟨_, hheader⟩
  | item _ _ _ ih => exact ih

theorem Passes.of_concat {source : Source} {header : Bytes} {items : List Item} {item : Item}
    {after : Cursor} (h : Passes source header (items ++ [item]) after) :
    ∃ cursor, Passes source header items cursor ∧ Item.decoder.run cursor = .done item after ∧
      item ≠ .ending := by
  generalize hall : items ++ [item] = all at h
  cases h with
  | header _ => exact absurd hall (List.append_ne_nil_of_right_ne_nil _ (List.cons_ne_nil _ _))
  | @item before last cursor _ hbefore hrun hitem =>
      obtain ⟨rfl, hlast⟩ := List.append_inj' hall rfl
      cases hlast
      exact ⟨cursor, hbefore, hrun, hitem⟩

/-- A scan that nobody stops does not end as cancelled. -/
theorem recorded_ne_cancelled (withAux : Bool) (source : Source) :
    (recorded withAux source).1.result ≠ .error .cancelled := by
  have hshortage : ∀ offset, (.error (source.shortage offset) : Except Error Unit) ≠
      .error .cancelled := by
    intro offset hsame
    rw [Source.shortage] at hsame
    split at hsame
    · cases hsame
    · split at hsame <;> cases hsame
  have hfault : ∀ fault : Fault, (.error fault.error : Except Error Unit) ≠ .error .cancelled := by
    intro fault hsame
    cases fault <;> cases hsame
  have hitems : ∀ (banner : String) (cursor : Cursor) (progress : Progress) (told : List Event),
      (recordedItems withAux source banner progress cursor told).1.result ≠ .error .cancelled := by
    intro banner cursor
    induction cursor using items_induction with
    | hstep cursor ih =>
        intro progress told
        cases hrun : Item.decoder.run cursor with
        | short need after =>
            rw [recordedItems_of_short hrun]
            exact hshortage _
        | failed fault after =>
            rw [recordedItems_of_failed hrun]
            exact hfault fault
        | done item after =>
            by_cases hitem : item = .ending
            · subst hitem
              rw [recordedItems_of_ending hrun]
              exact nofun
            · rw [recordedItems_of_item hrun hitem]
              exact ih item after hrun _ _
  cases hrun : Decoder.header.run source.start with
  | short need after =>
      rw [recorded_of_short hrun]
      exact hshortage _
  | failed fault after =>
      rw [recorded_of_failed hrun]
      exact hfault fault
  | done header after =>
      rw [recorded_of_header hrun]
      exact hitems _ _ _ _

/-! ### Records that are handed over -/

section Deliver

variable {receiver : Receiver (StateM σ)} {token : Nat → Bool} {front back : List Record}
  {state middle after : σ}

theorem deliver_under (records : List Record) (state : σ) (asked : Nat) :
    deliver (receiver.under token) records (state, asked) =
      ((deliver receiver records state).1, (deliver receiver records state).2, asked) := by
  induction records generalizing state with
  | nil => rfl
  | cons record records ih =>
      have htaken : receiver.take record state =
          ((receiver.take record state).1, (receiver.take record state).2) := rfl
      have hunder : (receiver.under token).take record (state, asked) =
          ((receiver.take record state).1, (receiver.take record state).2, asked) := rfl
      rw [deliver, deliver, bind_of_eq hunder, bind_of_eq htaken]
      cases (receiver.take record state).1 with
      | ok => exact ih _
      | error error => rfl

theorem deliver_append_of_ok (h : deliver receiver front state = (.ok (), middle)) :
    deliver receiver (front ++ back) state = deliver receiver back middle := by
  rw [deliver_append, bind_of_eq h]

theorem deliver_append_of_error {error : Error}
    (h : deliver receiver front state = (.error error, middle)) :
    deliver receiver (front ++ back) state = (.error error, middle) := by
  rw [deliver_append, bind_of_eq h]
  rfl

/-- What is all taken is taken in parts. -/
theorem exists_deliver_of_append (h : deliver receiver (front ++ back) state = (.ok (), after)) :
    ∃ middle, deliver receiver front state = (.ok (), middle) ∧
      deliver receiver back middle = (.ok (), after) := by
  obtain ⟨result, middle, hfront⟩ :
      ∃ result middle, deliver receiver front state = (result, middle) := ⟨_, _, rfl⟩
  cases result with
  | ok => exact ⟨middle, hfront, deliver_append_of_ok hfront ▸ h⟩
  | error error =>
      rw [deliver_append_of_error hfront] at h
      cases h

end Deliver

/-! ### Where a scan is when it asks -/

/-- The scan comes past these items, and the receiver takes all that they have. -/
inductive Reaches (receiver : Receiver (StateM σ)) (withAux : Bool) (source : Source) (start : σ)
    (header : Bytes) : List Item → Cursor → σ → Prop where
  | header {cursor : Cursor} (h : Decoder.header.run source.start = .done header cursor) :
      Reaches receiver withAux source start header [] cursor start
  | item {items : List Item} {item : Item} {cursor after : Cursor} {state last : σ}
      (h : Reaches receiver withAux source start header items cursor state)
      (hrun : Item.decoder.run cursor = .done item after) (hitem : item ≠ .ending)
      (htaken : deliver receiver (item.recordsBehind withAux items) state = (.ok (), last)) :
      Reaches receiver withAux source start header (items ++ [item]) after last

section Run

variable {receiver : Receiver (StateM σ)} {token : Nat → Bool} {withAux : Bool} {source : Source}
  {header : Bytes} {items : List Item} {item : Item} {cursor after : Cursor} {start state : σ}

namespace Reaches

theorem passes (h : Reaches receiver withAux source start header items cursor state) :
    Passes source header items cursor := by
  induction h with
  | header hheader => exact .header hheader
  | item _ hrun hitem _ ih => exact ih.item hrun hitem

theorem taken (h : Reaches receiver withAux source start header items cursor state) :
    deliver receiver (Item.recordsOf withAux [] items) start = (.ok (), state) := by
  induction h with
  | header _ => rfl
  | item _ _ _ htaken ih =>
      rw [recordsOf_concat, deliver_append_of_ok ih]
      exact htaken

theorem of_passes (h : Passes source header items cursor)
    (htaken : deliver receiver (Item.recordsOf withAux [] items) start = (.ok (), state)) :
    Reaches receiver withAux source start header items cursor state := by
  induction h generalizing state with
  | header hheader =>
      cases htaken
      exact .header hheader
  | item _ hrun hitem ih =>
      rw [recordsOf_concat] at htaken
      obtain ⟨middle, hfront, hback⟩ := exists_deliver_of_append htaken
      exact (ih hfront).item hrun hitem hback

/-- A scan that comes past these items has come past the first of them. -/
theorem exists_take (h : Reaches receiver withAux source start header items cursor state)
    {count : Nat} (hcount : count ≤ items.length) :
    ∃ cursor state, Reaches receiver withAux source start header (items.take count) cursor state := by
  induction h with
  | header hheader =>
      rw [List.take_nil]
      exact ⟨_, _, .header hheader⟩
  | @item items item _ _ _ _ hbefore hrun hitem htaken ih =>
      rcases Nat.lt_or_eq_of_le hcount with hlt | rfl
      · rw [List.length_append, List.length_singleton] at hlt
        rw [List.take_append_of_le_length (Nat.le_of_lt_succ hlt)]
        exact ih (Nat.le_of_lt_succ hlt)
      · rw [List.take_length]
        exact ⟨_, _, hbefore.item hrun hitem htaken⟩

end Reaches

theorem isCancelled_under (token : Nat → Bool) (state : σ) (asked : Nat) :
    (receiver.under token).isCancelled (state, asked) = (token asked, state, asked + 1) :=
  rfl

/-- A scan that is not cancelled on the way is now in front of the next item. -/
theorem Reaches.run_under (h : Reaches receiver withAux source start header items cursor state)
    (htoken : ∀ asked < items.length, token asked = false) :
    run (receiver.under token) withAux source (start, 0) =
      Scan.items (receiver.under token) withAux source (Text.lossy header) (.behind items) cursor
        (state, items.length) := by
  induction h with
  | header hheader =>
      rw [run, Source.decode, hheader]
      rfl
  | @item items item cursor after state last _ hrun hitem htaken ih =>
      rw [List.length_append, List.length_singleton] at htoken ⊢
      have hquiet : token items.length = false := htoken _ (Nat.lt_succ_self _)
      have hdeliver := @deliver_under _ receiver token (item.recordsBehind withAux items) state
        (items.length + 1)
      rw [htaken] at hdeliver
      rw [ih fun asked hasked => htoken asked (Nat.lt_succ_of_lt hasked), items_of_item hrun hitem,
        bind_of_eq (isCancelled_under token state items.length), hquiet,
        if_neg Bool.false_ne_true, Item.advance_behind, bind_of_eq hdeliver]

theorem Reaches.run_under_cancelled
    (h : Reaches receiver withAux source start header items cursor state)
    (hearlier : ∀ asked < items.length, token asked = false) (hnow : token items.length = true) :
    run (receiver.under token) withAux source (start, 0) =
      (⟨.error .cancelled, Text.lossy header, (Progress.behind items).keys, cursor.offset⟩, state,
        items.length + 1) := by
  rw [h.run_under hearlier, Scan.items, bind_of_eq (isCancelled_under token state items.length),
    hnow]
  rfl

/-- One that is cancelled here or on the way ends so, and nothing that it has handed over was
refused. -/
theorem Reaches.run_under_fired (h : Reaches receiver withAux source start header items cursor state)
    {asked : Nat} (hasked : asked ≤ items.length) (hfired : token asked = true) :
    ∃ scan records last count, scan.result = .error .cancelled ∧
      deliver receiver records start = (.ok (), last) ∧
        run (receiver.under token) withAux source (start, 0) = (scan, last, count) := by
  induction h generalizing asked with
  | header hheader =>
      cases Nat.le_zero.1 hasked
      exact ⟨_, [], _, _, rfl, rfl, (Reaches.header hheader).run_under_cancelled nofun hfired⟩
  | @item items item cursor after state last hbefore hrun hitem htaken ih =>
      by_cases hearlier : ∃ earlier ≤ items.length, token earlier = true
      · obtain ⟨earlier, hle, hearlier⟩ := hearlier
        exact ih hle hearlier
      · -- The scan has come here uncancelled, so it is here that it is cancelled.
        have hhere := hbefore.item hrun hitem htaken
        rw [List.length_append, List.length_singleton] at hasked
        have hquiet : ∀ earlier < (items ++ [item]).length, token earlier = false := by
          intro earlier hlt
          rw [List.length_append, List.length_singleton] at hlt
          exact eq_false_of_ne_true fun hfired =>
            hearlier ⟨earlier, Nat.le_of_lt_succ hlt, hfired⟩
        have hnow : token (items ++ [item]).length = true := by
          rw [List.length_append, List.length_singleton]
          rcases Nat.lt_or_eq_of_le hasked with hlt | rfl
          · exact absurd ⟨asked, Nat.le_of_lt_succ hlt, hfired⟩ hearlier
          · exact hfired
        exact ⟨_, _, _, _, rfl, hhere.taken, hhere.run_under_cancelled hquiet hnow⟩

/-- What cannot be taken of the next item ends the scan. -/
theorem Reaches.run_under_refused {last : σ} {error : Error}
    (h : Reaches receiver withAux source start header items cursor state)
    (htoken : ∀ asked ≤ items.length, token asked = false)
    (hrun : Item.decoder.run cursor = .done item after) (hitem : item ≠ .ending)
    (hrefused : deliver receiver (item.recordsBehind withAux items) state = (.error error, last)) :
    run (receiver.under token) withAux source (start, 0) =
      (⟨.error error, Text.lossy header, (items ++ [item]).countP Item.isKey, after.offset⟩, last,
        items.length + 1) := by
  have hdeliver := @deliver_under _ receiver token (item.recordsBehind withAux items) state
    (items.length + 1)
  rw [hrefused] at hdeliver
  rw [h.run_under fun asked hasked => htoken asked (Nat.le_of_lt hasked), items_of_item hrun hitem,
    bind_of_eq (isCancelled_under token state items.length), htoken _ (Nat.le_refl _),
    if_neg Bool.false_ne_true, Item.advance_behind, bind_of_eq hdeliver]
  rfl

/-- Where there is no further item the scan ends as any other does that comes here. -/
theorem Reaches.run_under_over (h : Reaches receiver withAux source start header items cursor state)
    (htoken : ∀ asked ≤ items.length, token asked = false)
    (hover : ∀ item after, Item.decoder.run cursor = .done item after → item = .ending)
    (hfinish : receiver.finish state = (.ok (), state)) :
    run (receiver.under token) withAux source (start, 0) =
      ((recorded withAux source).1, state, items.length + 1) := by
  have hasked : (receiver.under token).isCancelled (state, items.length) =
      (false, state, items.length + 1) := by
    rw [isCancelled_under, htoken _ (Nat.le_refl _)]
  have hfinished : (receiver.under token).finish (state, items.length + 1) =
      (.ok (), state, items.length + 1) := by
    change ((receiver.finish state).1, (receiver.finish state).2, items.length + 1) = _
    rw [hfinish]
  have hrecorded : recorded withAux source = _ := h.passes.recorded_eq
  rw [h.run_under fun asked hasked => htoken asked (Nat.le_of_lt hasked), hrecorded]
  cases hrun : Item.decoder.run cursor with
  | short need after =>
      rw [items_of_short hrun, bind_of_eq hasked, recordedItems_of_short hrun]
      rfl
  | failed fault after =>
      rw [items_of_failed hrun, bind_of_eq hasked, recordedItems_of_failed hrun]
      rfl
  | done item after =>
      cases hover item after hrun
      rw [items_of_ending hrun, bind_of_eq hasked, if_neg Bool.false_ne_true,
        bind_of_eq hfinished, recordedItems_of_ending hrun]
      rfl

/-- Where there is no header nobody is asked anything. -/
theorem run_of_headless {m : Type → Type} [Monad m] {receiver : Receiver m}
    (h : ∀ header cursor, Decoder.header.run source.start ≠ .done header cursor) :
    run receiver withAux source = pure (recorded withAux source).1 := by
  cases hrun : Decoder.header.run source.start with
  | short need after =>
      rw [recorded_of_short hrun, run, Source.decode, hrun]
  | failed fault after =>
      rw [recorded_of_failed hrun, run, Source.decode, hrun]
  | done header after => exact absurd hrun (h header after)

/-- A scan comes to a last place: there is no further item, or one that the receiver refuses. -/
theorem Reaches.exists_last (h : Reaches receiver withAux source start header items cursor state) :
    ∃ items cursor state, Reaches receiver withAux source start header items cursor state ∧
      ((∀ item after, Item.decoder.run cursor = .done item after → item = .ending) ∨
        ∃ item after error last, Item.decoder.run cursor = .done item after ∧ item ≠ .ending ∧
          deliver receiver (item.recordsBehind withAux items) state = (.error error, last)) := by
  induction cursor using items_induction generalizing items state with
  | hstep cursor ih =>
      by_cases hover : ∀ item after, Item.decoder.run cursor = .done item after → item = .ending
      · exact ⟨items, cursor, state, h, .inl hover⟩
      · push Not at hover
        obtain ⟨item, after, hrun, hitem⟩ := hover
        obtain ⟨result, last, hdeliver⟩ : ∃ result last,
            deliver receiver (item.recordsBehind withAux items) state = (result, last) :=
          ⟨_, _, rfl⟩
        cases result with
        | ok => exact ih item after hrun (h.item hrun hitem hdeliver)
        | error error =>
            exact ⟨items, cursor, state, h, .inr ⟨item, after, error, last, hrun, hitem, hdeliver⟩⟩

end Run

section Whole

variable {receiver : Receiver (StateM σ)} {token : Nat → Bool} {withAux : Bool} {source : Source}
  {start state last : σ}

/-- A token that fires at none of the places where a scan asks might as well never fire. -/
theorem run_under_quiet (hfinish : ∀ state, receiver.finish state = (.ok (), state))
    (h : ∀ header items cursor state, Reaches receiver withAux source start header items cursor state →
      token items.length = false) :
    run (receiver.under token) withAux source (start, 0) =
      run (receiver.under fun _ => false) withAux source (start, 0) := by
  by_cases hheader : ∃ header cursor, Decoder.header.run source.start = .done header cursor
  · obtain ⟨header, cursor, hheader⟩ := hheader
    have hquiet : ∀ {items cursor state},
        Reaches receiver withAux source start header items cursor state →
          ∀ asked ≤ items.length, token asked = false := by
      intro items cursor state hreaches asked hasked
      obtain ⟨cursor, state, htake⟩ := hreaches.exists_take hasked
      rw [← List.length_take_of_le hasked]
      exact h _ _ _ _ htake
    obtain ⟨items, cursor, state, hreaches, hlast⟩ := (Reaches.header hheader).exists_last
    rcases hlast with hover | ⟨item, after, error, last, hrun, hitem, hrefused⟩
    · rw [hreaches.run_under_over (hquiet hreaches) hover (hfinish state),
        hreaches.run_under_over (fun _ _ => rfl) hover (hfinish state)]
    · rw [hreaches.run_under_refused (hquiet hreaches) hrun hitem hrefused,
        hreaches.run_under_refused (fun _ _ => rfl) hrun hitem hrefused]
  · simp only [not_exists] at hheader
    rw [run_of_headless hheader, run_of_headless hheader]

/-- A receiver that always says the same when it is asked is one under a token that does. -/
theorem items_under_constant {isCancelled : Bool}
    (h : ∀ state, receiver.isCancelled state = (isCancelled, state)) {banner : String}
    (cursor : Cursor) : ∀ (progress : Progress) (state : σ) (asked : Nat), ∃ count,
      items (receiver.under fun _ => isCancelled) withAux source banner progress cursor
          (state, asked) =
        ((items receiver withAux source banner progress cursor state).1,
          (items receiver withAux source banner progress cursor state).2, count) := by
  induction cursor using items_induction with
  | hstep cursor ih =>
      intro progress state asked
      have hunder : (receiver.under fun _ => isCancelled).isCancelled (state, asked) =
          (isCancelled, state, asked + 1) := rfl
      cases hrun : Item.decoder.run cursor with
      | short need after =>
          rw [items_of_short hrun, items_of_short hrun, bind_of_eq hunder, bind_of_eq (h state)]
          cases isCancelled <;> exact ⟨asked + 1, rfl⟩
      | failed fault after =>
          rw [items_of_failed hrun, items_of_failed hrun, bind_of_eq hunder, bind_of_eq (h state)]
          cases isCancelled <;> exact ⟨asked + 1, rfl⟩
      | done item after =>
          by_cases hitem : item = .ending
          · subst hitem
            rw [items_of_ending hrun, items_of_ending hrun, bind_of_eq hunder, bind_of_eq (h state)]
            cases isCancelled <;> exact ⟨asked + 1, rfl⟩
          · rw [items_of_item hrun hitem, items_of_item hrun hitem, bind_of_eq hunder,
              bind_of_eq (h state)]
            cases isCancelled with
            | true => exact ⟨asked + 1, rfl⟩
            | false =>
                obtain ⟨result, middle, hdeliver⟩ : ∃ result middle,
                    deliver receiver (progress.advance withAux item).2 state = (result, middle) :=
                  ⟨_, _, rfl⟩
                have hdelivers := @deliver_under _ receiver (fun _ => false)
                  (progress.advance withAux item).2 state (asked + 1)
                rw [hdeliver] at hdelivers
                rw [if_neg Bool.false_ne_true, if_neg Bool.false_ne_true, bind_of_eq hdelivers,
                  bind_of_eq hdeliver]
                cases result with
                | ok => exact ih item after hrun _ _ _
                | error error => exact ⟨asked + 1, rfl⟩

theorem run_under_constant {isCancelled : Bool}
    (h : ∀ state, receiver.isCancelled state = (isCancelled, state)) (withAux : Bool)
    (source : Source) (start : σ) : ∃ count,
      run (receiver.under fun _ => isCancelled) withAux source (start, 0) =
        ((run receiver withAux source start).1, (run receiver withAux source start).2, count) := by
  by_cases hheader : ∃ header cursor, Decoder.header.run source.start = .done header cursor
  · obtain ⟨header, cursor, hheader⟩ := hheader
    rw [run, run, Source.decode, hheader]
    exact items_under_constant h cursor _ _ _
  · simp only [not_exists] at hheader
    rw [run_of_headless hheader, run_of_headless hheader]
    exact ⟨0, rfl⟩

theorem run_eq_of_under {scan : Scan} {count : Nat}
    (h : ∀ state, receiver.isCancelled state = (false, state))
    (hrun : run (receiver.under fun _ => false) withAux source (start, 0) = (scan, last, count)) :
    run receiver withAux source start = (scan, last) := by
  obtain ⟨found, hunder⟩ := run_under_constant h withAux source start
  rw [hrun] at hunder
  obtain ⟨hscan, hrest⟩ := Prod.mk.inj hunder
  exact Prod.ext hscan.symm (Prod.mk.inj hrest).1.symm

/-- **Nothing is refused** of what a scan hands over, which then ends as every scan of the stream that
is not stopped. -/
theorem run_of_taken (h : ∀ state, receiver.isCancelled state = (false, state))
    (hfinish : ∀ state, receiver.finish state = (.ok (), state))
    (htaken : deliver receiver (handed withAux source) start = (.ok (), last)) :
    run receiver withAux source start = ((recorded withAux source).1, last) := by
  by_cases hheader : ∃ header cursor, Decoder.header.run source.start = .done header cursor
  · obtain ⟨header, cursor, hheader⟩ := hheader
    have hstart : Reaches receiver withAux source start header [] cursor start := .header hheader
    obtain ⟨items, cursor, state, hreaches, hlast⟩ := hstart.exists_last
    rcases hlast with hover | ⟨item, after, error, middle, hrun, hitem, hrefused⟩
    · have hhanded : handed withAux source = _ := hreaches.passes.handed_eq hover
      rw [hhanded, hreaches.taken] at htaken
      cases htaken
      exact run_eq_of_under h (hreaches.run_under_over (fun _ _ => rfl) hover (hfinish _))
    · -- A refused item would be among those whose records are all taken.
      obtain ⟨later, hlater⟩ : Item.recordsOf withAux [] (items ++ [item]) <+: handed withAux source :=
        (hreaches.passes.item hrun hitem).recordsOf_handed
      rw [← hlater, recordsOf_concat, List.append_assoc, deliver_append_of_ok hreaches.taken,
        deliver_append_of_error hrefused] at htaken
      cases htaken
  · simp only [not_exists] at hheader
    have hnone : handed withAux source = [] := by
      by_contra hsome
      obtain ⟨header, cursor, hpasses⟩ := exists_header_of_handed hsome
      obtain ⟨cursor, hread⟩ := hpasses.exists_header
      exact hheader header cursor hread
    rw [hnone] at htaken
    cases htaken
    rw [run_of_headless hheader]
    rfl

/-- **The first refusal** ends a scan with its error, behind the item that the record comes from. -/
theorem run_of_refused {front later : List Record} {record : Record} {error : Error}
    (h : ∀ state, receiver.isCancelled state = (false, state))
    (hhanded : handed withAux source = front ++ record :: later)
    (htaken : deliver receiver front start = (.ok (), state))
    (hrefused : receiver.take record state = (.error error, last)) :
    ∃ late scan, late <+: later ∧ StopsBehind withAux source error front record late scan ∧
      run receiver withAux source start = (scan, last) := by
  obtain ⟨header, items, item, cursor, after, early, late, hpasses, hrun, hitem, rfl, hbehind,
    hlate⟩ := exists_item hhanded
  obtain ⟨middle, hitems, hearly⟩ := exists_deliver_of_append htaken
  have hdeliver : deliver receiver (item.recordsBehind withAux items) middle =
      (.error error, last) := by
    rw [hbehind, deliver_append_of_ok hearly, deliver, bind_of_eq hrefused]
    rfl
  exact ⟨late, _, hlate, .mk (hpasses.item hrun hitem) rfl hbehind,
    run_eq_of_under h ((Reaches.of_passes hpasses hitems).run_under_refused (fun _ _ => rfl) hrun
      hitem hdeliver)⟩

end Whole

end Scan

end RedisSnapshot
