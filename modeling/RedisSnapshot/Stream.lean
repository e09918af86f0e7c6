import RedisSnapshot.StreamId

/-!
# Streams

A stream is a log of entries under ascending ids, with groups of consumers that share the reading of
it. What a group has handed out and not yet seen acknowledged is pending, for the group and for the
consumer that has it.
-/

namespace RedisSnapshot

/-- Values under ids, the greatest id first, each id once. -/
structure IdMap (α : Type) where
  newestFirst : List (StreamId × α)
  descending : newestFirst.Pairwise fun a b => b.1 < a.1

namespace IdMap

variable {α : Type}

def insertNewestFirst (id : StreamId) (value : α) : List (StreamId × α) → List (StreamId × α)
  | [] => [(id, value)]
  | (other, kept) :: rest =>
      if other < id then (id, value) :: (other, kept) :: rest
      else if id = other then (id, value) :: rest
      else (other, kept) :: insertNewestFirst id value rest

theorem mem_insertNewestFirst {id : StreamId} {value : α} {entries : List (StreamId × α)}
    {entry : StreamId × α} (h : entry ∈ insertNewestFirst id value entries) :
    entry = (id, value) ∨ entry ∈ entries := by
  induction entries with
  | nil => simpa [insertNewestFirst] using h
  | cons head rest ih =>
      obtain ⟨other, kept⟩ := head
      simp only [insertNewestFirst] at h
      split at h
      · simpa using h
      · split at h <;> rcases List.mem_cons.1 h with rfl | hmem
        · exact .inl rfl
        · exact .inr (List.mem_cons_of_mem _ hmem)
        · exact .inr List.mem_cons_self
        · exact (ih hmem).imp_right (List.mem_cons_of_mem _)

theorem descending_insertNewestFirst (id : StreamId) (value : α) {entries : List (StreamId × α)}
    (h : entries.Pairwise fun a b => b.1 < a.1) :
    (insertNewestFirst id value entries).Pairwise fun a b => b.1 < a.1 := by
  induction entries with
  | nil => simp [insertNewestFirst]
  | cons head rest ih =>
      obtain ⟨other, kept⟩ := head
      obtain ⟨hhead, hrest⟩ := List.pairwise_cons.1 h
      simp only [insertNewestFirst]
      split
      · rename_i hlt
        refine List.pairwise_cons.2 ⟨fun entry hentry => ?_, h⟩
        rcases List.mem_cons.1 hentry with rfl | hmem
        · exact hlt
        · exact StreamId.lt_trans (hhead entry hmem) hlt
      · split
        · rename_i heq
          subst heq
          exact List.pairwise_cons.2 ⟨hhead, hrest⟩
        · rename_i hlt hne
          refine List.pairwise_cons.2 ⟨fun entry hentry => ?_, ih hrest⟩
          rcases mem_insertNewestFirst hentry with rfl | hmem
          · exact StreamId.lt_of_not_lt_of_ne hlt (Ne.symm hne)
          · exact hhead entry hmem

def empty : IdMap α :=
  ⟨[], .nil⟩

instance : Inhabited (IdMap α) :=
  ⟨empty⟩

def insert (map : IdMap α) (id : StreamId) (value : α) : IdMap α :=
  ⟨insertNewestFirst id value map.newestFirst, descending_insertNewestFirst id value map.descending⟩

def insertAll (map : IdMap α) (entries : List (StreamId × α)) : IdMap α :=
  entries.foldl (fun map entry => map.insert entry.1 entry.2) map

def ofList (entries : List (StreamId × α)) : IdMap α :=
  empty.insertAll entries

def toList (map : IdMap α) : List (StreamId × α) :=
  map.newestFirst.reverse

def get? (map : IdMap α) (id : StreamId) : Option α :=
  (map.newestFirst.find? fun entry => entry.1 = id).map Prod.snd

def size (map : IdMap α) : Nat :=
  map.newestFirst.length

end IdMap

namespace Stream

structure Entry where
  deleted : Bool
  fields : List (Bytes × Bytes)

structure Pending where
  deliveryTime : Nat
  deliveryCount : Nat
deriving DecidableEq

structure Consumer where
  name : Bytes
  seenTime : Nat
  /-- Only the third form of the encoding has it. -/
  activeTime : Option Nat
  pending : IdMap Pending

structure Group where
  name : Bytes
  lastId : StreamId
  /-- The first form of the encoding does not have it. -/
  entriesRead : Option Nat
  pending : IdMap Pending
  consumers : List Consumer

end Stream

structure Stream where
  entries : IdMap Stream.Entry
  length : Nat
  lastId : StreamId
  firstId : Option StreamId
  maxDeletedId : Option StreamId
  entriesAdded : Option Nat
  groups : List Stream.Group

end RedisSnapshot
