import RedisSnapshot.Proofs.Load.Schedule

/-!
# The ledger of a load

Two records of a load may be equal, so what became of one of them cannot be told from the pool. A
ledger tells records apart by the place at which they were handed over, and follows each of them
from there to the worker who took it and to the batch that it was sent in. An era lasts from one selector
to the next; the ledger also has the era that a record belongs to and the era that a worker is in.
-/

namespace RedisSnapshot

def Record.selected? : Record → Option Nat
  | selectDb index => some index
  | _ => none

namespace Load

/-- How many selectors were handed over, and the database that is in force. -/
structure Era where
  selectors : Nat
  database : Nat
deriving DecidableEq

namespace Era

def behind (options : Options) (before : List Record) : Era :=
  ⟨before.countP (·.selected?.isSome),
    (before.reverse.findSome? Record.selected?).getD options.database⟩

def next (era : Era) (index : Nat) : Era :=
  ⟨era.selectors + 1, index⟩

theorem next_ne (era : Era) (index : Nat) : era.next index ≠ era := by
  intro h
  have hselectors : era.selectors + 1 = era.selectors := congrArg selectors h
  omega

theorem behind_append_selector {options : Options} {before : List Record} {index : Nat} :
    behind options (before ++ [.selectDb index]) = (behind options before).next index := by
  rw [behind, List.countP_append, List.reverse_append]
  rfl

theorem behind_append_other {options : Options} {before : List Record} {record : Record}
    (h : record.selected? = none) :
    behind options (before ++ [record]) = behind options before := by
  rw [behind, List.countP_append, List.reverse_append, List.countP_singleton, h]
  simp only [List.reverse_singleton, List.singleton_append, List.findSome?_cons, h]
  rfl

end Era

/-- A record with a key, the place at which it was handed over, and its era. -/
structure Entry where
  record : Record
  place : Nat
  era : Era

def entriesBehind (options : Options) (before : List Record) : List Record → List Entry
  | [] => []
  | record :: records =>
      (if record.isControl then [] else [⟨record, before.length, .behind options before⟩]) ++
        entriesBehind options (before ++ [record]) records

def entries (options : Options) (handed : List Record) : List Entry :=
  entriesBehind options [] handed

theorem entriesBehind_append (options : Options) (before records more : List Record) :
    entriesBehind options before (records ++ more) =
      entriesBehind options before records ++ entriesBehind options (before ++ records) more := by
  induction records generalizing before with
  | nil => rw [List.append_nil, List.nil_append, entriesBehind, List.nil_append]
  | cons record records ih =>
      rw [List.cons_append, entriesBehind, ih, entriesBehind, List.append_assoc, List.append_assoc,
        List.singleton_append]

theorem entries_append_keyed {options : Options} {handed : List Record} {record : Record}
    (h : record.isControl = false) :
    entries options (handed ++ [record]) =
      entries options handed ++ [⟨record, handed.length, .behind options handed⟩] := by
  rw [entries, entriesBehind_append, List.nil_append, entriesBehind, h]
  rfl

theorem entries_append_control {options : Options} {handed : List Record} {record : Record}
    (h : record.isControl = true) :
    entries options (handed ++ [record]) = entries options handed := by
  rw [entries, entriesBehind_append, List.nil_append, entriesBehind, h]
  exact List.append_nil _

theorem le_place_of_mem_entriesBehind {options : Options} {before records : List Record}
    {entry : Entry} (h : entry ∈ entriesBehind options before records) :
    before.length ≤ entry.place := by
  induction records generalizing before with
  | nil => cases h
  | cons record records ih =>
      rw [entriesBehind, List.mem_append] at h
      cases h with
      | inl h =>
          split at h
          · cases h
          · rw [List.mem_singleton] at h
            subst h
            exact Nat.le_refl _
      | inr h =>
          have hle := ih h
          rw [List.length_append] at hle
          exact Nat.le_of_succ_le hle

theorem entriesBehind_pairwise (options : Options) (before records : List Record) :
    (entriesBehind options before records).Pairwise fun first second =>
      first.place < second.place := by
  induction records generalizing before with
  | nil => exact .nil
  | cons record records ih =>
      rw [entriesBehind, List.pairwise_append]
      refine ⟨?_, ih _, ?_⟩
      · split
        · exact .nil
        · exact List.pairwise_singleton _ _
      · intro first hfirst second hsecond
        have hle := le_place_of_mem_entriesBehind hsecond
        rw [List.length_append] at hle
        split at hfirst
        · cases hfirst
        · rw [List.mem_singleton] at hfirst
          rw [hfirst]
          exact hle

structure Batch where
  worker : Nat
  era : Era
  entries : List Entry

def Batch.parcel (batch : Batch) : Parcel :=
  ⟨batch.era.database, batch.entries.map Entry.record⟩

def Batch.pipeline (options : Options) (batch : Batch) : Pipeline :=
  ⟨batch.worker, batch.parcel.commands options⟩

/-- What a worker has taken and not sent, the oldest first, and the era that it is in. -/
structure Share where
  held : List Entry
  era : Era

structure Ledger where
  /-- The records whose calls have had their effect. -/
  before : List Record
  queue : List Entry
  /-- The entries that were taken off the queue, each with the worker who took it. -/
  taken : List (Entry × Nat)
  shares : List Share
  sent : List Batch

/-- What a worker has sent, batch by batch. -/
def sentBy (sent : List Batch) (number : Nat) : List Entry :=
  (sent.filter (·.worker == number)).flatMap Batch.entries

def takenBy (taken : List (Entry × Nat)) (number : Nat) : List Entry :=
  (taken.filter (·.2 == number)).map Prod.fst

def heldBy (shares : List Share) (number : Nat) : List Entry :=
  (shares[number]?.map Share.held).getD []

theorem takenBy_append (taken : List (Entry × Nat)) (entry : Entry) (worker number : Nat) :
    takenBy (taken ++ [(entry, worker)]) number =
      takenBy taken number ++ if worker = number then [entry] else [] := by
  rw [takenBy, List.filter_append, List.map_append]
  by_cases h : worker = number <;> simp [takenBy, h]

theorem sentBy_append (sent more : List Batch) (number : Nat) :
    sentBy (sent ++ more) number = sentBy sent number ++ sentBy more number := by
  rw [sentBy, List.filter_append, List.flatMap_append]
  rfl

/-- What a worker sends of its share, which is nothing if it holds nothing. -/
def Share.batches (share : Share) (number : Nat) : List Batch :=
  if share.held.isEmpty then [] else [⟨number, share.era, share.held⟩]

theorem Share.mem_batches {share : Share} {number : Nat} {batch : Batch}
    (h : batch ∈ share.batches number) :
    batch = ⟨number, share.era, share.held⟩ ∧ share.held ≠ [] := by
  unfold batches at h
  split at h
  · cases h
  · rename_i hheld
    rw [List.isEmpty_iff] at hheld
    exact ⟨List.mem_singleton.mp h, hheld⟩

theorem sentBy_batches (share : Share) (number other : Nat) :
    sentBy (share.batches number) other = if number = other then share.held else [] := by
  unfold Share.batches
  split
  · rename_i hheld
    rw [List.isEmpty_iff] at hheld
    rw [hheld, ite_self]
    rfl
  · by_cases h : number = other <;> simp [sentBy, h]

theorem Share.pipelines (options : Options) (share : Share) (number : Nat) :
    (share.batches number).map (Batch.pipeline options) =
      if (share.held.map Entry.record).isEmpty then []
      else [⟨number, Parcel.commands options ⟨share.era.database, share.held.map Entry.record⟩⟩] := by
  rw [batches, List.isEmpty_map]
  split
  · rfl
  · rfl

theorem heldBy_of_some {shares : List Share} {number : Nat} {share : Share}
    (h : shares[number]? = some share) : heldBy shares number = share.held := by
  rw [heldBy, h]
  rfl

theorem heldBy_eq_nil {shares : List Share} {number : Nat} (h : ∀ share ∈ shares, share.held = []) :
    heldBy shares number = [] := by
  rw [heldBy]
  cases hshare : shares[number]? with
  | none => rfl
  | some share => exact h share (List.mem_of_getElem? hshare)

theorem heldBy_set {shares : List Share} {number other : Nat} {share : Share}
    (h : number < shares.length) :
    heldBy (shares.set number share) other =
      if number = other then share.held else heldBy shares other := by
  rw [heldBy, List.getElem?_set]
  by_cases heq : number = other
  · subst heq
    rw [if_pos rfl, if_pos h, if_pos rfl]
    rfl
  · rw [if_neg heq, if_neg heq]
    rfl

/-! ### Nothing is lost and nothing is sent twice -/

def tagged (sent : List Batch) : List (Entry × Nat) :=
  sent.flatMap fun batch => batch.entries.map fun entry => (entry, batch.worker)

theorem filter_tagged (sent : List Batch) (number : Nat) :
    (tagged sent).filter (·.2 == number) =
      (sentBy sent number).map fun entry => (entry, number) := by
  induction sent with
  | nil => rfl
  | cons batch sent ih =>
      have hcons : tagged (batch :: sent) =
          (batch.entries.map fun entry => (entry, batch.worker)) ++ tagged sent := rfl
      have hall : batch.entries.filter (fun _ => true) = batch.entries :=
        List.filter_eq_self.mpr fun _ _ => rfl
      rw [hcons, List.filter_append, ih]
      by_cases h : batch.worker = number <;>
        simp [sentBy, List.filter_map, Function.comp_def, h, hall]

theorem filter_taken (taken : List (Entry × Nat)) (number : Nat) :
    taken.filter (·.2 == number) = (takenBy taken number).map fun entry => (entry, number) := by
  rw [takenBy, List.map_map]
  conv => lhs; rw [← List.map_id (taken.filter _)]
  apply List.map_congr_left
  intro pair hpair
  have hnumber := (List.mem_filter.mp hpair).2
  rw [beq_iff_eq] at hnumber
  rw [← hnumber]
  rfl

open Classical in
/-- If every worker has sent what it has taken, then all that was taken was sent once. -/
theorem perm_of_sentBy {sent : List Batch} {taken : List (Entry × Nat)}
    (h : ∀ number, takenBy taken number = sentBy sent number) :
    (sent.flatMap Batch.entries).Perm (taken.map Prod.fst) := by
  have hflat : sent.flatMap Batch.entries = (tagged sent).map Prod.fst := by
    rw [tagged, List.map_flatMap]
    simp [Function.comp_def]
  rw [hflat]
  apply List.Perm.map
  rw [List.perm_iff_count]
  rintro ⟨entry, number⟩
  have hnumber : ((entry, number).2 == number) = true := beq_self_eq_true number
  calc
    List.count (entry, number) (tagged sent) =
        List.count (entry, number) ((tagged sent).filter (·.2 == number)) :=
      (List.count_filter (p := fun pair : Entry × Nat => pair.2 == number) hnumber).symm
    _ = List.count (entry, number) (taken.filter (·.2 == number)) := by
      rw [filter_tagged, filter_taken, h]
    _ = List.count (entry, number) taken :=
      List.count_filter (p := fun pair : Entry × Nat => pair.2 == number) hnumber

end Load

end RedisSnapshot
