import RedisSnapshot.Proofs.Decimal
import RedisSnapshot.Proofs.Exact
import RedisSnapshot.Proofs.Forms.Field
import RedisSnapshot.Proofs.Scan.Recorded

/-!
# Scanning well-formed snapshots

What the records of an item are depends on the items in front of it in two ways: an expiry waits for
the next key, and a database selector counts only if it is the first. Both are told here by looking
back over the items; the progress of a scan is never more than what this look back finds.
-/

namespace RedisSnapshot

inductive ItemForm : Item → Bytes → Prop where
  | idle {seconds : Nat} {front : Bytes} (h : LengthForm seconds front) :
      ItemForm (.idle seconds) (0xF8 :: front)
  | frequency {count : UInt8} : ItemForm (.frequency count) [0xF9, count]
  | aux {field value front back : Bytes} (hfield : StringForm field front)
      (hvalue : StringForm value back) : ItemForm (.aux field value) (0xFA :: (front ++ back))
  | resizeDb {keys expiring : Nat} {front back : Bytes} (hkeys : LengthForm keys front)
      (hexpiring : LengthForm expiring back) :
      ItemForm (.resizeDb keys expiring) (0xFB :: (front ++ back))
  | expiryMilliseconds {word : Nat} (h : word < Nat.pow 256 8) :
      ItemForm (.expiry (Word.signed 64 word)) (0xFC :: Word.toLittle 8 word)
  | expirySeconds {seconds : Nat} (h : seconds < Nat.pow 256 4) :
      ItemForm (.expiry (1000 * seconds)) (0xFD :: Word.toLittle 4 seconds)
  | selectDb {index : Nat} {front : Bytes} (h : LengthForm index front) :
      ItemForm (.selectDb index) (0xFE :: front)
  | library {code front : Bytes} (h : StringForm code front) :
      ItemForm (.library code) (0xF5 :: front)
  | key {tag : UInt8} {name front back : Bytes} {values : List Value} (hname : StringForm name front)
      (hvalues : (Decoder.values tag).run (.start back) = .done values ⟨back.length, []⟩) :
      ItemForm (.key name values) (tag :: (front ++ back))

namespace Item

def isKey : Item → Bool
  | key .. => true
  | _ => false

def isSelector : Item → Bool
  | selectDb _ => true
  | _ => false

def moment? : Item → Option Int
  | expiry moment => some moment
  | _ => none

/-- The last moment behind the last key, which the next key takes. -/
def waiting (before : List Item) : Int :=
  ((before.reverse.takeWhile fun item => !item.isKey).findSome? moment?).getD 0

def recordsBehind (withAux : Bool) (before : List Item) : Item → List Record
  | aux field value => if withAux then [.aux field value] else []
  | resizeDb keys expiring => [.resizeDb keys expiring]
  | selectDb index => if before.any isSelector then [] else [.selectDb index]
  | key name values => values.map (.keyed ⟨name, waiting before⟩)
  | idle _ | frequency _ | expiry _ | library _ | ending => []

def recordsOf (withAux : Bool) (before : List Item) : List Item → List Record
  | [] => []
  | item :: items =>
      item.recordsBehind withAux before ++ recordsOf withAux (before ++ [item]) items

end Item

/-- The header of a version, which has four digits. -/
def headerOf (version : Nat) : Bytes :=
  magic ++ [version / 1000 % 10, version / 100 % 10, version / 10 % 10, version % 10].map
    fun digit => UInt8.ofNat (48 + digit)

def Progress.behind (before : List Item) : Progress :=
  ⟨Item.waiting before, before.any Item.isSelector, before.countP Item.isKey⟩

namespace Item

open Reader

/-! ### Reading an item -/

theorem rest_of_values {tag : UInt8} {cursor after : Cursor} {values : List Value}
    (h : (Decoder.values tag).run cursor = .done values after) :
    rest tag = (do return .key (← Decoder.string) (← Decoder.values tag)) := by
  unfold rest
  split
  · cases h
  · cases h
  · cases h
  · cases h
  · cases h
  · cases h
  · cases h
  · cases h
  · cases h
  · cases h
  · rfl

theorem reads_form {item : Item} {bytes : Bytes} (h : ItemForm item bytes) :
    decoder.Reads item bytes := by
  cases h with
  | idle h => exact Reads.byte_bind ((Decoder.reads_length h).bind_last (Reads.pure _))
  | frequency => exact Reads.byte_bind ((Reads.byte _).bind_last (Reads.pure _))
  | aux hfield hvalue =>
      apply Reads.byte_bind
      apply Reads.bind (Decoder.reads_string hfield)
      exact (Decoder.reads_string hvalue).bind_last (Reads.pure _)
  | resizeDb hkeys hexpiring =>
      apply Reads.byte_bind
      apply Reads.bind (Decoder.reads_length hkeys)
      exact (Decoder.reads_length hexpiring).bind_last (Reads.pure _)
  | expiryMilliseconds h =>
      exact Reads.byte_bind ((Reads.signedLittle_word h).bind_last (Reads.pure _))
  | expirySeconds h => exact Reads.byte_bind ((Reads.little h).bind_last (Reads.pure _))
  | selectDb h => exact Reads.byte_bind ((Decoder.reads_length h).bind_last (Reads.pure _))
  | library h => exact Reads.byte_bind ((Decoder.reads_string h).bind_last (Reads.pure _))
  | @key tag name front back values hname hvalues =>
      apply Reads.byte_bind
      rw [rest_of_values hvalues]
      apply Reads.bind (Decoder.reads_string hname)
      exact ((Decoder.composed_values tag).isExact.reads hvalues).bind_last (Reads.pure _)

theorem reads_ending : decoder.Reads .ending [0xFF] :=
  Reads.byte_bind (Reads.pure _)

theorem ne_ending_of_form {item : Item} {bytes : Bytes} (h : ItemForm item bytes) :
    item ≠ .ending := by
  rintro rfl
  cases h

/-! ### Progress is what looking back finds -/

theorem waiting_append (before : List Item) (item : Item) :
    waiting (before ++ [item]) =
      if item.isKey then 0 else item.moment?.getD (waiting before) := by
  rw [waiting, List.reverse_append, List.reverse_singleton, List.singleton_append,
    List.takeWhile_cons]
  cases hkey : item.isKey with
  | true => rfl
  | false =>
      simp only [Bool.not_false, ↓reduceIte, List.findSome?_cons]
      cases item.moment? with
      | some moment => rfl
      | none => rfl

theorem advance_behind (withAux : Bool) (before : List Item) (item : Item) :
    (Progress.behind before).advance withAux item =
      (Progress.behind (before ++ [item]), item.recordsBehind withAux before) := by
  have hselected : (before ++ [item]).any isSelector =
      (before.any isSelector || item.isSelector) := by
    rw [List.any_append, List.any_cons, List.any_nil, Bool.or_false]
  have hkeys : (before ++ [item]).countP isKey =
      before.countP isKey + if item.isKey then 1 else 0 := by
    rw [List.countP_append, List.countP_singleton]
  rw [Progress.behind, Progress.behind, waiting_append, hselected, hkeys]
  cases item <;> simp [Progress.advance, recordsBehind, isKey, isSelector, moment?]

end Item

namespace Scan

open Reader

theorem recordedItems_of_row {withAux : Bool} {source : Source} {banner : String}
    {items : List Item} {encoded : Bytes} (h : Row ItemForm items encoded) (before : List Item)
    (offset : Nat) (suffix : Bytes) (told : List Event) :
    recordedItems withAux source banner (.behind before) ⟨offset, encoded ++ 0xFF :: suffix⟩ told =
      (⟨.ok (), banner, (before ++ items).countP Item.isKey, offset + encoded.length + 1⟩,
        told ++ (Item.recordsOf withAux before items).map .record ++ [.finished]) := by
  induction h generalizing before offset told with
  | nil =>
      have hending : Item.decoder.run ⟨offset, 0xFF :: suffix⟩ =
          .done .ending ⟨offset + 1, suffix⟩ :=
        Item.reads_ending offset suffix
      rw [List.nil_append, List.append_nil, recordedItems_of_ending hending, Item.recordsOf,
        List.map_nil, List.append_nil]
      rfl
  | @cons item items front back hfront _ ih =>
      have hitem := Item.reads_form hfront offset (back ++ 0xFF :: suffix)
      rw [List.append_assoc, recordedItems_of_item hitem (Item.ne_ending_of_form hfront),
        Item.advance_behind, ih, Item.recordsOf, List.map_append, List.length_append]
      simp only [List.append_assoc, List.singleton_append, Nat.add_assoc]

theorem nat?_digits {version : Nat} (h : version < 10000) :
    Decimal.nat? ((headerOf version).drop 5) = some version := by
  have hdigits : ∀ value : Nat, Decimal.digit? (UInt8.ofNat (48 + value % 10)) = some (value % 10) :=
    fun value => Decimal.digit_value (Nat.mod_lt value (by decide))
  change List.foldl _ (some 0) (List.map _ _) = _
  simp only [List.map_cons, List.map_nil, List.foldl_cons, List.foldl_nil, hdigits]
  change some _ = some version
  congr 1
  omega

theorem reads_header {version : Nat} (hfirst : 1 ≤ version) (hlast : version ≤ 11) :
    Decoder.header.Reads (headerOf version) (headerOf version) := by
  have hlength : (headerOf version).length = 9 := rfl
  apply Reads.bind_last (Reads.take hlength)
  have hmagic : (headerOf version).take 5 = magic := rfl
  rw [hmagic, if_neg (not_not_intro rfl), nat?_digits (by omega)]
  simp only
  rw [if_pos ⟨hfirst, hlast⟩]
  exact Reads.pure _

/-- **Scanning.** A snapshot in any form gives the records of its items in order and then ends. -/
theorem recorded_of_forms {withAux : Bool} {version : Nat} {items : List Item} {encoded : Bytes}
    (hfirst : 1 ≤ version) (hlast : version ≤ 11) (hitems : Row ItemForm items encoded)
    (suffix : Bytes) (failure : Option IoFailure) (portion : Option Nat) :
    recorded withAux ⟨headerOf version ++ (encoded ++ 0xFF :: suffix), failure, portion⟩ =
      (⟨.ok (), Text.lossy (headerOf version), items.countP Item.isKey, 9 + encoded.length + 1⟩,
        (Item.recordsOf withAux [] items).map .record ++ [.finished]) := by
  have hheader : Decoder.header.run (Source.start ⟨_, failure, portion⟩) = _ :=
    reads_header hfirst hlast 0 (encoded ++ 0xFF :: suffix)
  rw [recorded_of_header hheader]
  exact recordedItems_of_row hitems [] 9 suffix []

/-- An expiry waits behind a selector for the next key, and no further. -/
theorem recorded_of_forms_two_keys :
    recorded false
        ⟨headerOf 9 ++ ([0xFD, 2, 0, 0, 0, 0xFE, 3, 0, 1, 97, 1, 98, 0xFE, 4, 0, 1, 99, 1, 100] ++
          [0xFF, 0xFA]), none, none⟩ =
      (⟨.ok (), Text.lossy (headerOf 9), 2, 29⟩,
        [.record (.selectDb 3), .record (.keyed ⟨[97], 2000⟩ (.string [98])),
          .record (.keyed ⟨[99], 0⟩ (.string [100])), .finished]) := by
  have hname : ∀ byte : UInt8, StringForm [byte] [1, byte] := by
    intro byte
    have hlength : LengthForm 1 [1] := .six (by decide)
    have hheld : 1 < Word.count 63 := by decide
    exact @StringForm.plain [byte] [1] hlength hheld
  have hexpiry : ItemForm (.expiry (1000 * (2 : Nat))) [0xFD, 2, 0, 0, 0] :=
    .expirySeconds (by decide)
  have hselect : ∀ index < 64, ItemForm (.selectDb index) [0xFE, UInt8.ofNat index] :=
    fun index hindex => .selectDb (.six hindex)
  have hfirst : ItemForm (.key [97] [.string [98]]) [0, 1, 97, 1, 98] := .key (hname 97) rfl
  have hsecond : ItemForm (.key [99] [.string [100]]) [0, 1, 99, 1, 100] := .key (hname 99) rfl
  have hitems : Row ItemForm
      [.expiry (1000 * (2 : Nat)), .selectDb 3, .key [97] [.string [98]], .selectDb 4,
        .key [99] [.string [100]]]
      [0xFD, 2, 0, 0, 0, 0xFE, 3, 0, 1, 97, 1, 98, 0xFE, 4, 0, 1, 99, 1, 100] :=
    .cons hexpiry (.cons (hselect 3 (by decide)) (.cons hfirst (.cons (hselect 4 (by decide))
      (.cons hsecond .nil))))
  exact recorded_of_forms (by decide) (by decide) hitems [0xFA] none none

end Scan

end RedisSnapshot
