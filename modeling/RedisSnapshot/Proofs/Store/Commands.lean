import RedisSnapshot.Binary64.Reading
import RedisSnapshot.Packed.Pairs
import RedisSnapshot.Proofs.Decimal
import RedisSnapshot.Resp.Command
import RedisSnapshot.StreamId

/-!
# A store of keys

What commands do to the keys of a destination, as far as a load has use for them. A key of a database
has a slot. A command works on the slot of one key in the database that was selected last, or it is
refused, because its arguments make no sense or the slot has a value of another kind. A key cannot
be seen any more once its moment of expiry has come.
-/

namespace RedisSnapshot

/-- The id that two numbers with a dash between them write. -/
def StreamId.read? (text : Bytes) : Option StreamId := do
  let ms ← Decimal.nat? (text.takeWhile (· ≠ 45))
  let seq ← Decimal.nat? ((text.dropWhile (· ≠ 45)).drop 1)
  if ms < Word.count 64 ∧ seq < Word.count 64 then some (.ofNats ms seq) else none

namespace Store

/-- The values that elements are added to. -/
inductive Kind where
  | list
  | set
  | hash
  | sortedSet
  | stream

inductive Content where
  | string (bytes : Bytes)
  /-- The element that was pushed last comes first. -/
  | list (elements : List Bytes)
  | set (members : Bytes → Bool)
  | hash (fields : Bytes → Option Bytes)
  /-- Scores as they were written. -/
  | sortedSet (scores : Bytes → Option Bytes)
  /-- The entry that was added last comes last. -/
  | stream (entries : List (StreamId × List (Bytes × Bytes)))

structure Slot where
  content : Content
  expiry : Option Int

/-- What can be seen of a slot at a moment. -/
def seen (now : Int) (slot : Option Slot) : Option Slot :=
  slot.filter fun slot => slot.expiry.all (now < ·)

def isScore (text : Bytes) : Bool :=
  (Binary64.read? (text.map fun byte => Char.ofNat byte.toNat)).any (!·.isNaN)

/-- Arguments that are taken two by two. -/
def pairs? (arguments : List Bytes) : Option (List (Bytes × Bytes)) :=
  if arguments.length % 2 = 0 then some (Packed.pairUp arguments) else none

/-- Of what stands under a name more than once the last one counts. -/
def latest? (pairs : List (Bytes × Bytes)) (name : Bytes) : Option Bytes :=
  pairs.reverse.lookup name

namespace Kind

def fresh : Kind → Content
  | list => .list []
  | set => .set fun _ => false
  | hash => .hash fun _ => none
  | sortedSet => .sortedSet fun _ => none
  | stream => .stream []

/-- A value with more elements. -/
def grow? (arguments : List Bytes) : Kind → Content → Option Content
  | list, .list elements => some (.list (arguments.reverse ++ elements))
  | set, .set members => some (.set fun member => arguments.contains member || members member)
  | hash, .hash fields => do
      let pairs ← pairs? arguments
      return .hash fun field => (latest? pairs field).or (fields field)
  | sortedSet, .sortedSet scores => do
      let pairs ← pairs? arguments
      if pairs.all fun pair => isScore pair.1 then
        some (.sortedSet fun member =>
          (latest? (pairs.map Prod.swap) member).or (scores member))
      else none
  | stream, .stream entries => do
      let id ← StreamId.read? (arguments.headD [])
      let pairs ← pairs? arguments.tail
      if pairs ≠ [] ∧ ((entries.getLast?.map Prod.fst).getD default) < id then
        some (.stream (entries ++ [(id, pairs)]))
      else none
  | _, _ => none

end Kind

inductive Verb where
  | set
  | add (kind : Kind)
  | expire
  | delete

namespace Verb

def name : Verb → String
  | set => "SET"
  | add .list => "LPUSH"
  | add .set => "SADD"
  | add .hash => "HSET"
  | add .sortedSet => "ZADD"
  | add .stream => "XADD"
  | expire => "PEXPIREAT"
  | delete => "DEL"

def all : List Verb :=
  [set, add .list, add .set, add .hash, add .sortedSet, add .stream, expire, delete]

def ofName? (name : Bytes) : Option Verb :=
  all.find? fun verb => Text.bytes verb.name = name

theorem ofName?_name (verb : Verb) : ofName? (Text.bytes verb.name) = some verb := by
  cases verb with
  | add kind => cases kind <;> rfl
  | set | expire | delete => rfl

theorem eq_of_name {first second : Verb} (h : Text.bytes first.name = Text.bytes second.name) :
    first = second := by
  have hfound := congrArg ofName? h
  rw [ofName?_name, ofName?_name] at hfound
  exact Option.some.inj hfound

theorem name_ne_select (verb : Verb) : Text.bytes verb.name ≠ Text.bytes "SELECT" := by
  cases verb with
  | add kind => cases kind <;> decide
  | set | expire | delete => decide

/-- What becomes of a slot that can be seen, unless the arguments behind the key are refused. -/
def act? (now : Int) (arguments : List Bytes) (slot : Option Slot) : Verb → Option (Option Slot)
  | set =>
      match arguments with
      | [value] => some (some ⟨.string value, none⟩)
      | _ => none
  | add kind => do
      let present := slot.getD ⟨kind.fresh, none⟩
      if arguments.isEmpty then none
      else return some { present with content := ← kind.grow? arguments present.content }
  | expire =>
      match arguments with
      | [text] => do
          let moment ← Decimal.signed? 64 text
          return if moment ≤ now then none else slot.map ({ · with expiry := some moment })
      | _ => none
  | delete => if arguments.isEmpty then some none else none

end Verb

end Store

namespace Command

open Store

def key? (command : Command) : Option Bytes :=
  command[1]?

def isSelection (command : Command) : Bool :=
  command.head? = some (Text.bytes "SELECT")

/-- What becomes of the slot of the command's key. -/
def effect? (now : Int) (slot : Option Slot) (command : Command) : Option (Option Slot) := do
  (← Verb.ofName? (← command.head?)).act? now (command.drop 2) (seen now slot)

def effects? (now : Int) (commands : List Command) (slot : Option Slot) : Option (Option Slot) :=
  commands.foldlM (effect? now) slot

end Command

structure Store where
  selected : Nat
  slots : Nat → Bytes → Option Store.Slot

namespace Store

def empty : Store :=
  ⟨0, fun _ _ => none⟩

def put (key : Bytes) (slot : Option Slot) (store : Store) : Store :=
  { store with
    slots := fun database name =>
      if database = store.selected ∧ name = key then slot else store.slots database name }

def execute? (now : Int) (store : Store) (command : Command) : Option Store := do
  let key ← command.key?
  if command.isSelection then
    if command.length = 2 then
      return { store with selected := ← Decimal.nat? key }
    else none
  else
    return store.put key (← command.effect? now (store.slots store.selected key))

def executeAll? (now : Int) (store : Store) (commands : List Command) : Option Store :=
  commands.foldlM (execute? now) store

/-! ### One key at a time -/

theorem slots_put_same (key : Bytes) (slot : Option Slot) (store : Store) :
    (store.put key slot).slots store.selected key = slot :=
  if_pos ⟨rfl, rfl⟩

theorem slots_put_other {database : Nat} {key name : Bytes} {slot : Option Slot} {store : Store}
    (h : ¬ (database = store.selected ∧ name = key)) :
    (store.put key slot).slots database name = store.slots database name :=
  if_neg h

theorem executeAll?_cons {now : Int} {store after : Store} {command : Command}
    {commands : List Command} (h : executeAll? now store (command :: commands) = some after) :
    ∃ between, execute? now store command = some between ∧
      executeAll? now between commands = some after := by
  rw [executeAll?, List.foldlM_cons, Option.bind_eq_bind, Option.bind_eq_some_iff] at h
  exact h

theorem execute?_keyed {now : Int} {store after : Store} {command : Command}
    (hkeyed : command.isSelection = false) (h : execute? now store command = some after) :
    ∃ key slot, command.key? = some key ∧
      command.effect? now (store.slots store.selected key) = some slot ∧
      after = store.put key slot := by
  rw [execute?, Option.bind_eq_bind, Option.bind_eq_some_iff] at h
  obtain ⟨key, hkey, h⟩ := h
  rw [hkeyed, if_neg Bool.false_ne_true, Option.bind_eq_bind, Option.bind_eq_some_iff] at h
  obtain ⟨slot, hslot, hafter⟩ := h
  exact ⟨key, slot, hkey, hslot, (Option.some.inj hafter).symm⟩

/-- Commands change the slots of their own keys only, and each slot by the commands for its key. -/
theorem slots_executeAll? {now : Int} {store after : Store} {commands : List Command}
    (hkeyed : ∀ command ∈ commands, command.isSelection = false)
    (h : executeAll? now store commands = some after) :
    after.selected = store.selected ∧
      (∀ database ≠ store.selected, after.slots database = store.slots database) ∧
      ∀ name, Command.effects? now (commands.filter (·.key? = some name))
        (store.slots store.selected name) = some (after.slots store.selected name) := by
  induction commands generalizing store with
  | nil =>
      cases h
      exact ⟨rfl, fun _ _ => rfl, fun _ => rfl⟩
  | cons command commands ih =>
      obtain ⟨between, hfirst, hrest⟩ := executeAll?_cons h
      obtain ⟨key, slot, hkey, hslot, rfl⟩ :=
        execute?_keyed (hkeyed command List.mem_cons_self) hfirst
      obtain ⟨hselected, hothers, hnames⟩ :=
        ih (fun candidate hmem => hkeyed candidate (List.mem_cons_of_mem _ hmem)) hrest
      refine ⟨hselected, ?_, ?_⟩
      · intro database hother
        rw [hothers database hother]
        funext name
        exact slots_put_other fun hsame => hother hsame.1
      · intro name
        have hname := hnames name
        change Command.effects? now _ ((store.put key slot).slots store.selected name) = _ at hname
        rw [List.filter_cons]
        by_cases hsame : key = name
        · subst hsame
          rw [slots_put_same] at hname
          rw [if_pos (decide_eq_true hkey), Command.effects?, List.foldlM_cons, hslot]
          exact hname
        · rw [slots_put_other fun hput => hsame hput.2.symm] at hname
          rw [hkey, if_neg (by simpa using hsame)]
          exact hname

end Store

end RedisSnapshot
