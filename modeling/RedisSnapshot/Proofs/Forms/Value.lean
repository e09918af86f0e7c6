import RedisSnapshot.Proofs.Forms.Packed.Intset
import RedisSnapshot.Proofs.Forms.Packed.Pairs
import RedisSnapshot.Proofs.Forms.Packed.Zipmap
import RedisSnapshot.Source
import RedisSnapshot.Value

/-!
# The forms of a value

A value other than a stream has a form under every tag that its type has: its elements one by one, or
all of them in a packed container, or a list as a chain of nodes. Everything inside has its own
choice of forms. Whatever is chosen, the records of the key are those of the value, and not a byte
behind the form is taken. Only the split of a list into nodes can be told from its records.
-/

namespace RedisSnapshot

inductive PairForm {α β : Type} (first : α → Bytes → Prop) (second : β → Bytes → Prop) :
    α × β → Bytes → Prop where
  | mk {a : α} {b : β} {front back : Bytes} (hfirst : first a front) (hsecond : second b back) :
      PairForm first second (a, b) (front ++ back)

/-- The number of the values stands in front of them. -/
inductive CountedForm {α : Type} (form : α → Bytes → Prop) (values : List α) : Bytes → Prop where
  | mk {front body : Bytes} (hcount : LengthForm values.length front)
      (hbody : Row form values body) : CountedForm form values (front ++ body)

theorem CountedForm.exists_form {α : Type} {form : α → Bytes → Prop} {values : List α}
    {bytes : Bytes} (h : CountedForm form values bytes) {value : α} (hmem : value ∈ values) :
    ∃ part, form value part := by
  obtain ⟨_, hbody⟩ := h
  exact hbody.exists_form hmem

inductive PackedForm (form : Bytes → Prop) : Bytes → Prop where
  | mk {blob bytes : Bytes} (hblob : form blob) (hstring : StringForm blob bytes) :
      PackedForm form bytes

inductive NodeForm : List Bytes → Bytes → Prop where
  | plain {element front back : Bytes} (hcontainer : LengthForm 1 front)
      (helement : StringForm element back) : NodeForm [element] (front ++ back)
  | packed {elements : List Bytes} {front back : Bytes} (hcontainer : LengthForm 2 front)
      (helements : PackedForm (Packed.Listpack.Form elements) back) :
      NodeForm elements (front ++ back)

inductive ScoreTexts : List (Bytes × Bytes) → List (Bytes × Binary64) → Prop where
  | nil : ScoreTexts [] []
  | cons {member text : Bytes} {score : Binary64} {texts : List (Bytes × Bytes)}
      {members : List (Bytes × Binary64)} (head : Binary64.TextForm score text)
      (tail : ScoreTexts texts members) :
      ScoreTexts ((member, text) :: texts) ((member, score) :: members)

inductive WholeForm : UInt8 → Value → Bytes → Prop where
  | string {value bytes : Bytes} (h : StringForm value bytes) : WholeForm 0 (.string value) bytes
  | list {elements : List Bytes} {bytes : Bytes} (h : CountedForm StringForm elements bytes) :
      WholeForm 1 (.list elements) bytes
  | set {members : List Bytes} {bytes : Bytes} (h : CountedForm StringForm members bytes) :
      WholeForm 2 (.set members) bytes
  | sortedSetText {members : List (Bytes × Binary64)} {bytes : Bytes}
      (h : CountedForm (PairForm StringForm ScoreTextForm) members bytes) :
      WholeForm 3 (.sortedSet members) bytes
  | hash {fields : List (Bytes × Bytes)} {bytes : Bytes}
      (h : CountedForm (PairForm StringForm StringForm) fields bytes) :
      WholeForm 4 (.hash fields) bytes
  | sortedSetBinary {members : List (Bytes × Binary64)} {bytes : Bytes}
      (h : CountedForm (PairForm StringForm ScoreBinaryForm) members bytes) :
      WholeForm 5 (.sortedSet members) bytes
  | hashZipmap {fields : List (Bytes × Bytes)} {bytes : Bytes}
      (h : PackedForm (Packed.Zipmap.Form fields) bytes) : WholeForm 9 (.hash fields) bytes
  | listZiplist {elements : List Bytes} {bytes : Bytes}
      (h : PackedForm (Packed.Ziplist.Form elements) bytes) : WholeForm 10 (.list elements) bytes
  | setIntset {members : List Bytes} {bytes : Bytes}
      (h : PackedForm (Packed.Intset.Form members) bytes) : WholeForm 11 (.set members) bytes
  | sortedSetZiplist {texts : List (Bytes × Bytes)} {members : List (Bytes × Binary64)}
      {bytes : Bytes} (htexts : ScoreTexts texts members)
      (h : PackedForm (Packed.Ziplist.Form (Packed.flatten texts)) bytes) :
      WholeForm 12 (.sortedSet members) bytes
  | hashZiplist {fields : List (Bytes × Bytes)} {bytes : Bytes}
      (h : PackedForm (Packed.Ziplist.Form (Packed.flatten fields)) bytes) :
      WholeForm 13 (.hash fields) bytes
  | hashListpack {fields : List (Bytes × Bytes)} {bytes : Bytes}
      (h : PackedForm (Packed.Listpack.Form (Packed.flatten fields)) bytes) :
      WholeForm 16 (.hash fields) bytes
  | sortedSetListpack {texts : List (Bytes × Bytes)} {members : List (Bytes × Binary64)}
      {bytes : Bytes} (htexts : ScoreTexts texts members)
      (h : PackedForm (Packed.Listpack.Form (Packed.flatten texts)) bytes) :
      WholeForm 17 (.sortedSet members) bytes
  | setListpack {members : List Bytes} {bytes : Bytes}
      (h : PackedForm (Packed.Listpack.Form members) bytes) : WholeForm 20 (.set members) bytes

inductive ChainForm : UInt8 → List (List Bytes) → Bytes → Prop where
  | ziplists {nodes : List (List Bytes)} {bytes : Bytes}
      (h : CountedForm (fun elements => PackedForm (Packed.Ziplist.Form elements)) nodes bytes) :
      ChainForm 14 nodes bytes
  | containers {nodes : List (List Bytes)} {bytes : Bytes} (h : CountedForm NodeForm nodes bytes) :
      ChainForm 18 nodes bytes

/-- A value is told in one part, but a list that is stored as a chain in one for each node. -/
inductive Value.Parts : Value → List Value → Prop where
  | whole {value : Value} : Parts value [value]
  | chain {nodes : List (List Bytes)} : Parts (.list nodes.flatten) (nodes.map .list)

/-- The bytes are a form of the value under the tag, and the parts are those it is told in. -/
inductive ValueForm (tag : UInt8) : Value → List Value → Bytes → Prop where
  | whole {value : Value} {bytes : Bytes} (h : WholeForm tag value bytes) :
      ValueForm tag value [value] bytes
  | chain {nodes : List (List Bytes)} {bytes : Bytes} (h : ChainForm tag nodes bytes) :
      ValueForm tag (.list nodes.flatten) (nodes.map .list) bytes

theorem ValueForm.parts {tag : UInt8} {value : Value} {parts : List Value} {bytes : Bytes}
    (h : ValueForm tag value parts bytes) : value.Parts parts := by
  cases h with
  | whole => exact .whole
  | chain => exact .chain

namespace Decoder

open Reader

theorem reads_pair {α β : Type} {formA : α → Bytes → Prop} {formB : β → Bytes → Prop}
    {first : Decoder α} {second : Decoder β}
    (hfirst : ∀ value bytes, formA value bytes → first.Reads value bytes)
    (hsecond : ∀ value bytes, formB value bytes → second.Reads value bytes) (value : α × β)
    (bytes : Bytes) (h : PairForm formA formB value bytes) :
    (pair first second).Reads value bytes := by
  obtain ⟨hfront, hback⟩ := h
  exact (hfirst _ _ hfront).bind ((hsecond _ _ hback).bind_last (Reads.pure _))

theorem reads_counted_bind {α β : Type} {form : α → Bytes → Prop} {reader : Decoder α}
    {next : List α → Decoder β} {values : List α} {result : β} {front back : Bytes}
    (hreader : ∀ value bytes, form value bytes → reader.Reads value bytes)
    (h : CountedForm form values front) (hnext : (next values).Reads result back) :
    (length >>= fun count => times count reader >>= next).Reads result (front ++ back) := by
  obtain ⟨hcount, hbody⟩ := h
  rw [List.append_assoc]
  exact (reads_length hcount).bind ((Reads.times (hbody.imp hreader) rfl).bind hnext)

theorem reads_counted {α β : Type} {form : α → Bytes → Prop} {reader : Decoder α}
    {next : List α → Decoder β} {values : List α} {result : β} {bytes : Bytes}
    (hreader : ∀ value bytes, form value bytes → reader.Reads value bytes)
    (hnext : (next values).Reads result []) (h : CountedForm form values bytes) :
    (length >>= fun count => times count reader >>= next).Reads result bytes := by
  rw [← List.append_nil bytes]
  exact reads_counted_bind hreader h hnext

theorem reads_packed {α : Type} {form : Bytes → Prop} {decode : Bytes → Except Fault α}
    {value : α} {bytes : Bytes} (h : PackedForm form bytes)
    (hdecode : ∀ blob, form blob → decode blob = .ok value) : (packed decode).Reads value bytes := by
  obtain ⟨hblob, hstring⟩ := h
  exact (reads_string hstring).bind_last (Reads.ofExcept (hdecode _ hblob))

theorem reads_listNode (elements : List Bytes) (bytes : Bytes) (h : NodeForm elements bytes) :
    listNode.Reads elements bytes := by
  cases h with
  | plain hcontainer helement =>
      apply Reads.bind (reads_length hcontainer)
      exact (reads_string helement).bind_last (Reads.pure _)
  | packed hcontainer helements =>
      obtain ⟨hblob, hstring⟩ := helements
      apply Reads.bind (reads_length hcontainer)
      exact (reads_string hstring).bind_last (Reads.ofExcept hblob.decode_eq)

theorem scores_eq {texts : List (Bytes × Bytes)} {members : List (Bytes × Binary64)}
    (h : ScoreTexts texts members) : scores texts = .ok members := by
  unfold scores
  induction h with
  | nil => rfl
  | cons head _ ih =>
      simp only [List.mapM_cons, Binary64.ofText_eq_ok_iff.2 head, ih]
      rfl

theorem reads_scores {texts : List (Bytes × Bytes)} {members : List (Bytes × Binary64)}
    (h : ScoreTexts texts members) :
    (ofExcept (scores texts) >>= fun found => return [Value.sortedSet found]).Reads
      [.sortedSet members] [] :=
  (Reads.ofExcept (scores_eq h)).bind_last (Reads.pure _)

theorem reads_whole {tag : UInt8} {value : Value} {bytes : Bytes} (h : WholeForm tag value bytes) :
    (values tag).Reads [value] bytes := by
  cases h with
  | string h => exact (reads_string h).bind_last (Reads.pure _)
  | list h => exact reads_counted (fun _ _ => reads_string) (Reads.pure _) h
  | set h => exact reads_counted (fun _ _ => reads_string) (Reads.pure _) h
  | sortedSetText h =>
      exact reads_counted (reads_pair (fun _ _ => reads_string) fun _ _ => reads_scoreText)
        (Reads.pure _) h
  | hash h =>
      exact reads_counted (reads_pair (fun _ _ => reads_string) fun _ _ => reads_string)
        (Reads.pure _) h
  | sortedSetBinary h =>
      exact reads_counted (reads_pair (fun _ _ => reads_string) fun _ _ => reads_scoreBinary)
        (Reads.pure _) h
  | hashZipmap h =>
      exact (reads_packed h fun _ hblob => hblob.decode_eq).bind_last (Reads.pure _)
  | listZiplist h =>
      exact (reads_packed h fun _ hblob => hblob.decode_eq).bind_last (Reads.pure _)
  | setIntset h =>
      exact (reads_packed h fun _ hblob => hblob.decode_eq).bind_last (Reads.pure _)
  | sortedSetZiplist htexts h =>
      exact (reads_packed h fun _ => Packed.Ziplist.decodePairs_eq).bind_last (reads_scores htexts)
  | hashZiplist h =>
      exact (reads_packed h fun _ => Packed.Ziplist.decodePairs_eq).bind_last (Reads.pure _)
  | hashListpack h =>
      exact (reads_packed h fun _ => Packed.Listpack.decodePairs_eq).bind_last (Reads.pure _)
  | sortedSetListpack htexts h =>
      exact (reads_packed h fun _ => Packed.Listpack.decodePairs_eq).bind_last (reads_scores htexts)
  | setListpack h =>
      exact (reads_packed h fun _ hblob => hblob.decode_eq).bind_last (Reads.pure _)

theorem reads_chain {tag : UInt8} {nodes : List (List Bytes)} {bytes : Bytes}
    (h : ChainForm tag nodes bytes) : (values tag).Reads (nodes.map .list) bytes := by
  cases h with
  | ziplists h =>
      have hnode : ∀ elements node, PackedForm (Packed.Ziplist.Form elements) node →
          (packed Packed.Ziplist.decode).Reads elements node := by
        intro elements node hform
        exact reads_packed hform fun _ hblob => hblob.decode_eq
      exact reads_counted hnode (Reads.pure _) h
  | containers h => exact reads_counted reads_listNode (Reads.pure _) h

theorem reads_values {tag : UInt8} {value : Value} {parts : List Value} {bytes : Bytes}
    (h : ValueForm tag value parts bytes) : (values tag).Reads parts bytes := by
  cases h with
  | whole h => exact reads_whole h
  | chain h => exact reads_chain h

/-- A record for each part of a value, decoded at any place. -/
theorem decode_records {tag : UInt8} {parts : List Value} {encoded : Bytes}
    (h : (values tag).Reads parts encoded) (source : Source) (key : Key) (offset : Nat)
    (rest : Bytes) :
    source.decode (records tag key) ⟨offset, encoded ++ rest⟩ =
      (.ok (parts.map (.keyed key)), ⟨offset + encoded.length, rest⟩) := by
  have hrecords : (records tag key).Reads (parts.map (.keyed key)) encoded :=
    h.bind_last (Reads.pure _)
  rw [Source.decode, hrecords]

/-- **Values.** Every form of a value is decoded to the records of the value and to nothing else. -/
theorem decode_valueForm {tag : UInt8} {value : Value} {parts : List Value} {encoded : Bytes}
    (h : ValueForm tag value parts encoded) (source : Source) (key : Key) (offset : Nat)
    (rest : Bytes) :
    source.decode (records tag key) ⟨offset, encoded ++ rest⟩ =
        (.ok (parts.map (.keyed key)), ⟨offset + encoded.length, rest⟩) ∧
      value.Parts parts :=
  ⟨decode_records (reads_values h) source key offset rest, h.parts⟩

/-- A list in two nodes, one that compresses its only element and one packed with an integer. -/
theorem decode_valueForm_chain :
    ValueForm 18 (.list [[97, 97, 97, 97], [45, 53], [98]])
        [.list [[97, 97, 97, 97]], .list [[45, 53], [98]]]
        [2, 1, 0xC3, 4, 4, 0, 97, 32, 0, 2, 13, 13, 0, 0, 0, 2, 0, 0xDF, 0xFB, 2, 129, 98, 2, 0xFF] ∧
      ((Source.ofBytes []).decode (records 18 ⟨[107], 7⟩)
          ⟨5, [2, 1, 0xC3, 4, 4, 0, 97, 32, 0, 2, 13, 13, 0, 0, 0, 2, 0, 0xDF, 0xFB, 2, 129, 98, 2,
            0xFF] ++ [0xFA, 1]⟩ =
          (.ok [.keyed ⟨[107], 7⟩ (.list [[97, 97, 97, 97]]),
            .keyed ⟨[107], 7⟩ (.list [[45, 53], [98]])], ⟨29, [0xFA, 1]⟩) ∧
        Value.Parts (.list [[97, 97, 97, 97], [45, 53], [98]])
          [.list [[97, 97, 97, 97]], .list [[45, 53], [98]]]) := by
  have hone : LengthForm 1 [1] := .six (by decide)
  have htwo : LengthForm 2 [2] := .six (by decide)
  have hfour : LengthForm 4 [4] := .six (by decide)
  have hthirteen : LengthForm 13 [13] := .six (by decide)
  have hliteral : (Lzf.Token.literal [97]).Brings [] [97] := .literal (by decide) (by decide)
  have hreference : (Lzf.Token.reference 1 3).Brings [97] [97, 97, 97] :=
    .reference (by decide) (by decide) (by decide) (by decide) (by decide) rfl (by decide)
  have hcompressed : Lzf.Compresses [0, 97, 32, 0] [97, 97, 97, 97] :=
    ⟨_, .cons hliteral (.cons hreference .nil), rfl⟩
  have hstring : StringForm [97, 97, 97, 97] [0xC3, 4, 4, 0, 97, 32, 0] :=
    .compressed hcompressed hfour hfour (by decide) (by decide)
  have hinteger : Packed.Listpack.ContentForm (Decimal.intBytes (-5)) [0xDF, 0xFB] :=
    .int13 ⟨by decide, by decide⟩
  have htext : Decimal.intBytes (-5) = [45, 53] := by decide +kernel
  rw [htext] at hinteger
  have hfirst : Packed.Listpack.EntryForm [45, 53] ([0xDF, 0xFB] ++ [2]) := .mk hinteger rfl
  have hsecond : Packed.Listpack.EntryForm [98] ([129, 98] ++ [2]) :=
    .mk (.string6 (by decide)) rfl
  have hlistpack : Packed.Listpack.Form [[45, 53], [98]]
      ([13, 0, 0, 0] ++ ([2, 0] ++ ([0xDF, 0xFB, 2, 129, 98, 2] ++ [0xFF])) ++ []) :=
    .mk rfl (by decide : 2 < 65536) (.inr rfl) (.cons hfirst (.cons hsecond .nil))
  have hblob : StringForm [13, 0, 0, 0, 2, 0, 0xDF, 0xFB, 2, 129, 98, 2, 0xFF]
      [13, 13, 0, 0, 0, 2, 0, 0xDF, 0xFB, 2, 129, 98, 2, 0xFF] :=
    @StringForm.plain [13, 0, 0, 0, 2, 0, 0xDF, 0xFB, 2, 129, 98, 2, 0xFF] _ hthirteen (by decide)
  have hnodes : Row NodeForm [[[97, 97, 97, 97]], [[45, 53], [98]]]
      [1, 0xC3, 4, 4, 0, 97, 32, 0, 2, 13, 13, 0, 0, 0, 2, 0, 0xDF, 0xFB, 2, 129, 98, 2, 0xFF] :=
    .cons (NodeForm.plain hone hstring) (.cons (NodeForm.packed htwo ⟨hlistpack, hblob⟩) .nil)
  have h : ValueForm 18 (.list [[97, 97, 97, 97], [45, 53], [98]])
      [.list [[97, 97, 97, 97]], .list [[45, 53], [98]]]
      [2, 1, 0xC3, 4, 4, 0, 97, 32, 0, 2, 13, 13, 0, 0, 0, 2, 0, 0xDF, 0xFB, 2, 129, 98, 2, 0xFF] :=
    .chain (.containers (@CountedForm.mk _ _ [[[97, 97, 97, 97]], [[45, 53], [98]]] _ _ htwo hnodes))
  exact ⟨h, decode_valueForm h (.ofBytes []) ⟨[107], 7⟩ 5 [0xFA, 1]⟩

end Decoder

end RedisSnapshot
