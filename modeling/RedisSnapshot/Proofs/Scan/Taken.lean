import RedisSnapshot.Proofs.Scan.Keys
import RedisSnapshot.Proofs.Scan.Received

/-!
# Receivers that take everything

A receiver that refuses none of the records of a snapshot, and is never cancelled, is told all of
them. What it knows in the end is what it comes to know from one record after another, however the
records are spread over items.
-/

namespace RedisSnapshot.Scan

/-- The receiver takes every record of some kind and learns from it as the step says. -/
structure Takes {σ : Type} (receiver : Receiver (StateM σ)) (accepts : Record → Prop)
    (step : σ → Record → σ) : Prop where
  take : ∀ {record}, accepts record → ∀ state,
    receiver.take record state = (.ok (), step state record)
  finish : ∀ state, receiver.finish state = (.ok (), state)
  isCancelled : ∀ state, receiver.isCancelled state = (false, state)

theorem bind_of_eq {σ α β : Type} {first : StateM σ α} {next : α → StateM σ β} {state middle : σ}
    {value : α} (h : first state = (value, middle)) :
    (first >>= next) state = next value middle :=
  congrArg (fun found : α × σ => next found.1 found.2) h

theorem mapM_cons_of_eq {σ α β : Type} {act : α → StateM σ β} {first : α} {rest : List α}
    {state middle last : σ} {value : β} {values : List β} (hfirst : act first state = (value, middle))
    (hrest : (rest.mapM act).run middle = (values, last)) :
    ((first :: rest).mapM act).run state = (value :: values, last) := by
  rw [List.mapM_cons]
  change (act first >>= _) state = _
  rw [bind_of_eq hfirst]
  exact bind_of_eq hrest

namespace Takes

variable {σ : Type} {receiver : Receiver (StateM σ)} {accepts : Record → Prop}
  {step : σ → Record → σ}

theorem deliver (h : Takes receiver accepts step) {records : List Record}
    (hrecords : ∀ record ∈ records, accepts record) (state : σ) :
    Scan.deliver receiver records state = (.ok (), records.foldl step state) := by
  induction records generalizing state with
  | nil => rfl
  | cons record records ih =>
      obtain ⟨hrecord, hrest⟩ := List.forall_mem_cons.1 hrecords
      rw [Scan.deliver, bind_of_eq (h.take hrecord state)]
      exact ih hrest (step state record)

theorem items (h : Takes receiver accepts step) {withAux : Bool} {source : Source} {banner : String}
    {cursor : Cursor} {items : List Item} (hitems : ItemsAt cursor items) {before : List Item}
    (haccepts : ∀ record ∈ Item.recordsOf withAux before items, accepts record) (state : σ) :
    ∃ keys offset, Scan.items receiver withAux source banner (.behind before) cursor state =
      (⟨.ok (), banner, keys, offset⟩, (Item.recordsOf withAux before items).foldl step state) := by
  induction hitems generalizing before state with
  | ending hread =>
      rw [items_of_ending hread, bind_of_eq (h.isCancelled state), if_neg Bool.false_ne_true,
        bind_of_eq (h.finish state)]
      exact ⟨_, _, rfl⟩
  | @item cursor after item items hread hitem _ ih =>
      rw [Item.recordsOf] at haccepts ⊢
      obtain ⟨hhere, hlater⟩ := List.forall_mem_append.1 haccepts
      rw [items_of_item hread hitem, bind_of_eq (h.isCancelled state), if_neg Bool.false_ne_true,
        Item.advance_behind, bind_of_eq (h.deliver hhere state), List.foldl_append]
      exact ih hlater _

/-- **Everything is taken** from a snapshot all of whose records are accepted. -/
theorem run (h : Takes receiver accepts step) (withAux : Bool) {source : Source}
    {items : List Item} (hitems : source.HasItems items)
    (haccepts : ∀ record ∈ Item.recordsOf withAux [] items, accepts record) (state : σ) :
    ∃ (banner : String) (keys offset : Nat), Scan.run receiver withAux source state =
      (⟨.ok (), banner, keys, offset⟩, (Item.recordsOf withAux [] items).foldl step state) := by
  obtain ⟨header, cursor, hheader, hitems⟩ := hitems
  obtain ⟨keys, offset, hrun⟩ := h.items hitems haccepts state
  refine ⟨Text.lossy header, keys, offset, ?_⟩
  rw [Scan.run, Source.decode, hheader]
  exact hrun

end Takes

end RedisSnapshot.Scan
