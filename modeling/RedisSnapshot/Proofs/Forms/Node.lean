import Mathlib.Data.List.Forall2
import RedisSnapshot.Proofs.Decimal
import RedisSnapshot.Proofs.Forms.Packed.Pairs
import RedisSnapshot.Value

/-!
# The entries of a stream node

A node keeps its entries in one listpack: their ids as distances from the id of the node, and their
fields either in full or, where they are those of the node, as values alone. Numbers are elements
like any other and are read back from their decimal text.
-/

namespace RedisSnapshot

namespace Stream

namespace NodeReader

variable {α β : Type}

/-- The reader takes exactly these elements off the front of whatever they stand in front of. -/
def Takes (reader : NodeReader α) (value : α) (elements : List Bytes) : Prop :=
  ∀ rest, reader.run (elements ++ rest) = .ok (value, rest)

theorem Takes.pure (value : α) : (Pure.pure value : NodeReader α).Takes value [] :=
  fun _ => rfl

theorem Takes.run_bind {reader : NodeReader α} {first : α} {front : List Bytes}
    (h : reader.Takes first front) (next : α → NodeReader β) (rest : List Bytes) :
    (reader >>= next).run (front ++ rest) = (next first).run rest := by
  rw [StateT.run_bind, h]
  rfl

theorem Takes.bind {reader : NodeReader α} {next : α → NodeReader β} {first : α} {second : β}
    {front back : List Bytes} (hfront : reader.Takes first front)
    (hback : (next first).Takes second back) : (reader >>= next).Takes second (front ++ back) := by
  intro rest
  rw [List.append_assoc, hfront.run_bind]
  exact hback rest

/-- The first reader of a row takes one element. -/
theorem Takes.bind_one {reader : NodeReader α} {next : α → NodeReader β} {first : α} {second : β}
    {element : Bytes} {back : List Bytes} (hfront : reader.Takes first [element])
    (hback : (next first).Takes second back) : (reader >>= next).Takes second (element :: back) :=
  hfront.bind hback

/-- The last reader of a row takes no elements of its own. -/
theorem Takes.bind_last {reader : NodeReader α} {next : α → NodeReader β} {first : α} {second : β}
    {elements : List Bytes} (h : reader.Takes first elements)
    (hnext : (next first).Takes second []) : (reader >>= next).Takes second elements := by
  rw [← List.append_nil elements]
  exact h.bind hnext

theorem takes_next (element : Bytes) : next.Takes element [element] :=
  fun _ => rfl

theorem takes_integer {value : Int} (h : Word.Fits 64 value) :
    integer.Takes value [Decimal.intBytes value] := by
  refine (takes_next _).bind_last ?_
  rw [Decimal.signed?_intBytes h.1 h.2]
  exact Takes.pure value

theorem takes_count {value : Nat} (h : value < Word.count 63) :
    count.Takes value [Decimal.bytes value] := by
  have hfits : Word.Fits 64 (value : Int) := ⟨by omega, Int.ofNat_lt.2 h⟩
  exact (takes_integer hfits).bind_last (Takes.pure value)

theorem takes_timesOnto {step : NodeReader α} {values : List α} {pieces : List (List Bytes)}
    (h : List.Forall₂ step.Takes values pieces) (found : List α) :
    (timesOnto step values.length found).Takes (values.reverse ++ found) pieces.flatten := by
  induction h generalizing found with
  | nil => exact Takes.pure found
  | @cons value piece values pieces hvalue _ ih =>
      rw [List.reverse_cons, List.append_assoc]
      exact hvalue.bind (ih (value :: found))

theorem takes_times {step : NodeReader α} {values : List α} {pieces : List (List Bytes)}
    (h : List.Forall₂ step.Takes values pieces) :
    (times values.length step).Takes values pieces.flatten := by
  have hrow : (times values.length step).Takes (values.reverse ++ []).reverse pieces.flatten :=
    (takes_timesOnto h []).bind_last (Takes.pure _)
  rwa [List.append_nil, List.reverse_reverse] at hrow

theorem takes_times_flatMap {step : NodeReader α} {piece : α → List Bytes}
    (h : ∀ value, step.Takes value (piece value)) (values : List α) :
    (times values.length step).Takes values (values.flatMap piece) :=
  takes_times (List.forall₂_map_right_iff.2 (List.forall₂_same.2 fun value _ => h value))

theorem takes_elements (elements : List Bytes) :
    (times elements.length next).Takes elements elements := by
  have hrow := takes_times_flatMap takes_next elements
  rwa [List.flatMap_singleton'] at hrow

theorem takes_fields (fields : List (Bytes × Bytes)) :
    (times fields.length nodeField).Takes fields (Packed.flatten fields) := by
  have hfield : ∀ pair, nodeField.Takes pair [pair.1, pair.2] := fun pair =>
    (takes_next pair.1).bind_one ((takes_next pair.2).bind_last (Takes.pure pair))
  exact takes_times_flatMap hfield fields

end NodeReader

/-! ### What the elements of a node are -/

/-- The flags of an entry, any others that there are aside. -/
structure Marks (flags : Int) (deleted shared : Bool) : Prop where
  fits : Word.Fits 64 flags
  deleted_iff : decide (flags % 2 = 1) = deleted
  shared_iff : decide (flags / 2 % 2 = 1) = shared

/-- The id lies behind that of its node, by no more than an integer can say. -/
structure Distance (node id : StreamId) (ms seq : Nat) : Prop where
  ms_eq : node.ms.toNat + ms = id.ms.toNat
  seq_eq : node.seq.toNat + seq = id.seq.toNat
  ms_lt : ms < Word.count 63
  seq_lt : seq < Word.count 63

inductive EntryElements (node : StreamId) (nodeFields : List Bytes) :
    StreamId × Entry → List Bytes → Prop where
  | own {id : StreamId} {entry : Entry} {flags : Int} {ms seq : Nat} {back : Bytes}
      (hflags : Marks flags entry.deleted false) (hid : Distance node id ms seq)
      (hheld : entry.fields.length < Word.count 63) :
      EntryElements node nodeFields (id, entry)
        (Decimal.intBytes flags :: Decimal.bytes ms :: Decimal.bytes seq ::
          Decimal.bytes entry.fields.length :: (Packed.flatten entry.fields ++ [back]))
  | shared {id : StreamId} {entry : Entry} {flags : Int} {ms seq : Nat} {back : Bytes}
      (hflags : Marks flags entry.deleted true) (hid : Distance node id ms seq)
      (hfields : entry.fields.map Prod.fst = nodeFields) :
      EntryElements node nodeFields (id, entry)
        (Decimal.intBytes flags :: Decimal.bytes ms :: Decimal.bytes seq ::
          (entry.fields.map Prod.snd ++ [back]))

/-- Only the sum of the two counts in front matters, and no one looks at the terminator. -/
inductive NodeElements (node : StreamId) (entries : List (StreamId × Entry)) :
    List Bytes → Prop where
  | mk {present deleted : Nat} {fields : List Bytes} {terminator : Bytes}
      {pieces : List (List Bytes)} (hcount : present + deleted = entries.length)
      (hheld : entries.length < Word.count 63) (hfields : fields.length < Word.count 63)
      (hpieces : List.Forall₂ (EntryElements node fields) entries pieces) :
      NodeElements node entries
        (Decimal.bytes present :: Decimal.bytes deleted :: Decimal.bytes fields.length ::
          (fields ++ terminator :: pieces.flatten))

theorem Distance.offsetBy_eq {node id : StreamId} {ms seq : Nat} (h : Distance node id ms seq) :
    node.offsetBy (.ofNat ms) (.ofNat seq) = id := by
  have hword : ∀ (base word : UInt64) (distance : Nat), base.toNat + distance = word.toNat →
      base + UInt64.ofNat distance = word := by
    intro base word distance heq
    have hlt := word.toNat_lt
    rw [← UInt64.toNat_inj, UInt64.toNat_add, UInt64.toNat_ofNat']
    omega
  rw [StreamId.offsetBy, hword _ _ _ h.ms_eq, hword _ _ _ h.seq_eq]

open NodeReader in
theorem takes_entry {node : StreamId} {nodeFields : List Bytes} {entry : StreamId × Entry}
    {elements : List Bytes} (h : EntryElements node nodeFields entry elements) :
    (nodeEntry node nodeFields).Takes entry elements := by
  cases h with
  | @own id entry flags ms seq back hflags hid hheld =>
      refine (takes_integer hflags.fits).bind_one ((takes_count hid.ms_lt).bind_one
        ((takes_count hid.seq_lt).bind_one ?_))
      rw [if_neg (of_decide_eq_false hflags.shared_iff), hflags.deleted_iff, hid.offsetBy_eq]
      refine (takes_count hheld).bind_one ((takes_fields entry.fields).bind ?_)
      exact (takes_next back).bind_last (Takes.pure _)
  | @shared id entry flags ms seq back hflags hid hfields =>
      subst hfields
      refine (takes_integer hflags.fits).bind_one ((takes_count hid.ms_lt).bind_one
        ((takes_count hid.seq_lt).bind_one ?_))
      rw [if_pos (of_decide_eq_true hflags.shared_iff), hflags.deleted_iff, hid.offsetBy_eq]
      -- The node has the names of the fields, so the entry has only what they are set to.
      have hvalues := takes_elements (entry.fields.map Prod.snd)
      have hzip : (entry.fields.map Prod.fst).zip (entry.fields.map Prod.snd) = entry.fields := by
        rw [List.zip_map', List.map_id']
      rw [List.length_map] at hvalues ⊢
      refine hvalues.bind ?_
      rw [hzip]
      exact (Takes.pure entry.fields).bind ((takes_next back).bind_last (Takes.pure _))

open NodeReader in
/-- **Nodes.** The elements of a node are decoded to its entries. -/
theorem NodeElements.decode_eq {node : StreamId} {entries : List (StreamId × Entry)}
    {elements : List Bytes} (h : NodeElements node entries elements) :
    decodeNode node elements = .ok entries := by
  obtain @⟨present, deleted, fields, terminator, pieces, hcount, hheld, hfields, hpieces⟩ := h
  have hentries : List.Forall₂ (nodeEntry node fields).Takes entries pieces :=
    hpieces.imp fun _ _ => takes_entry
  have hrun : (nodeEntries node).run
      (Decimal.bytes present :: Decimal.bytes deleted :: Decimal.bytes fields.length ::
        (fields ++ terminator :: pieces.flatten)) = .ok (entries, []) := by
    have hpresent : present < Word.count 63 := by omega
    have hdeleted : deleted < Word.count 63 := by omega
    refine ((takes_count hpresent).run_bind _ _).trans ?_
    refine ((takes_count hdeleted).run_bind _ _).trans ?_
    refine ((takes_count hfields).run_bind _ _).trans ?_
    refine ((takes_elements fields).run_bind _ _).trans ?_
    refine ((takes_next terminator).run_bind _ _).trans ?_
    rw [hcount, ← List.append_nil pieces.flatten, (takes_times hentries).run_bind]
    rfl
  rw [decodeNode, hrun]

end Stream

end RedisSnapshot
