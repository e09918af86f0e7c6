import RedisSnapshot.Proofs.Store.Replayed

/-!
# A list is put together from its far end

Every element of a list is pushed in front of those that were pushed before it, within one command as
well as from the command of one node to that of the next. However a list is stored, all its elements
come to stand in the key, once each and in reverse.
-/

namespace RedisSnapshot

/-- What is written of records, in their order. -/
def Record.writes (keepDeleted : Bool) (records : List Record) : List Command :=
  records.flatMap fun record => ((record.rebuild? keepDeleted).map Rebuild.writes).getD []

theorem Value.Parts.exists_nodes {elements : List Bytes} {parts : List Value}
    (h : (Value.list elements).Parts parts) :
    ∃ nodes : List (List Bytes), parts = nodes.map .list ∧ nodes.flatten = elements := by
  generalize hvalue : Value.list elements = value at h
  cases h with
  | whole => exact ⟨[elements], by rw [← hvalue, List.map_singleton], List.flatten_singleton⟩
  | @chain nodes => exact ⟨nodes, rfl, (Value.list.inj hvalue).symm⟩

namespace Store

section Pushes

variable {now : Int} {slot : Option Slot} {found : List Bytes}

/-- The nodes are pushed one after another. -/
theorem effects?_nodes (keepDeleted : Bool) (key : Key) (nodes : List (List Bytes))
    (hslot : (seen now slot).getD ⟨Kind.fresh .list, none⟩ = ⟨.list found, none⟩) :
    Command.effects? now
        (Record.writes keepDeleted ((nodes.map .list).map (.keyed key))) slot =
      some (if nodes.flatten = [] then slot
        else some ⟨.list (nodes.flatten.reverse ++ found), none⟩) := by
  induction nodes generalizing slot found with
  | nil => rfl
  | cons node nodes ih =>
      change Command.effects? now (([Command.named "LPUSH" (key.name :: node)].filter
        (2 < ·.length)) ++ Record.writes keepDeleted _) slot = _
      rw [filter_named]
      by_cases hnone : node = []
      · rw [if_pos hnone, List.nil_append, ih hslot, hnone, List.flatten_cons, List.nil_append]
      · have hpushed := @effect?_of_grow now slot key.name .list node _ hnone
          (by rw [hslot]; rfl)
        rw [hslot] at hpushed
        have hfilled : (node :: nodes).flatten ≠ [] :=
          List.append_ne_nil_of_left_ne_nil hnone nodes.flatten
        rw [if_neg hnone, if_neg hfilled]
        refine effects?_of_cons hpushed ((ih rfl).trans ?_)
        rw [List.flatten_cons, List.reverse_append, List.append_assoc]
        split
        · rename_i hlast
          rw [hlast]
          rfl
        · rfl

end Pushes

theorem named_of_record_writes (keepDeleted : Bool) (key : Key) (values : List Value) :
    ∀ command ∈ Record.writes keepDeleted (values.map (.keyed key)),
      ∃ (verb : Verb) (arguments : List Bytes),
        command = .named verb.name (key.name :: arguments) := by
  intro command hmem
  obtain ⟨record, hrecord, hwrite⟩ := List.mem_flatMap.1 hmem
  obtain ⟨value, _, rfl⟩ := List.mem_map.1 hrecord
  exact Load.named_of_writes (List.mem_of_mem_filter hwrite)

/-- **A list is rebuilt in reverse.** Whatever form it is stored in, its records are decoded, and no
command of theirs is refused where nothing stands under the key; what comes to stand there are the
elements with the last one first. -/
theorem replay_list {tag : UInt8} {elements : List Bytes} {parts : List Value} {encoded : Bytes}
    (h : ValueForm tag (.list elements) parts encoded) (source : Source) (key : Key) (offset : Nat)
    (rest : Bytes) (keepDeleted : Bool) {now : Int} {store : Store}
    (hseen : seen now (store.slots store.selected key.name) = none) :
    ∃ records, source.decode (Decoder.records tag key) ⟨offset, encoded ++ rest⟩ =
        (.ok records, ⟨offset + encoded.length, rest⟩) ∧
      executeAll? now store (Record.writes keepDeleted records) =
        some (if elements = [] then store
          else store.put key.name (some ⟨.list elements.reverse, none⟩)) := by
  have hdecode := Decoder.decode_records (Decoder.reads_values h) source key offset rest
  obtain ⟨nodes, rfl, rfl⟩ := h.parts.exists_nodes
  refine ⟨_, hdecode, ?_⟩
  rw [executeAll?_named (named_of_record_writes keepDeleted key _) now store]
  have heffects := @effects?_nodes now (store.slots store.selected key.name) [] keepDeleted key nodes
    (by rw [hseen]; rfl)
  rw [List.append_nil] at heffects
  refine (congrArg (Option.map fun slot => store.put key.name slot) heffects).trans ?_
  rw [Option.map_some]
  split
  · rw [put_self]
  · rfl

/-- Two nodes of one element each come to be a list with the second in front of the first. -/
theorem replay_list_two_nodes :
    ValueForm 18 (.list [[97], [98]]) [.list [[97]], .list [[98]]] [2, 1, 1, 97, 1, 1, 98] ∧
      seen 0 (empty.slots empty.selected [107]) = none ∧
      ∃ records, (Source.ofBytes []).decode (Decoder.records 18 ⟨[107], 0⟩)
          ⟨0, [2, 1, 1, 97, 1, 1, 98] ++ []⟩ = (.ok records, ⟨7, []⟩) ∧
        executeAll? 0 empty (Record.writes false records) =
          some (empty.put [107] (some ⟨.list [[98], [97]], none⟩)) := by
  have hone : LengthForm 1 [1] := .six (by decide)
  have htwo : LengthForm 2 [2] := .six (by decide)
  have helement : ∀ byte : UInt8, NodeForm [[byte]] ([1] ++ ([1] ++ [byte])) := fun byte =>
    .plain hone (.plain hone (by decide : 1 < Word.count 63))
  have hnodes : Row NodeForm [[[97]], [[98]]] [1, 1, 97, 1, 1, 98] :=
    .cons (helement 97) (.cons (helement 98) .nil)
  have h : ValueForm 18 (.list [[97], [98]]) [.list [[97]], .list [[98]]] [2, 1, 1, 97, 1, 1, 98] :=
    .chain (.containers (@CountedForm.mk _ _ [[[97]], [[98]]] _ _ htwo hnodes))
  exact ⟨h, rfl, replay_list h (.ofBytes []) ⟨[107], 0⟩ 0 [] false rfl⟩

end Store

end RedisSnapshot
