import Mathlib.Data.List.Basic
import RedisSnapshot.Load.Batch

/-!
# What is asked for records

The commands of a batch, record by record and word by word. A database is selected in front of them.
A record with a key is written by the commands of its value, behind which its expiry stands if it
has one that counts and anything has been written, or it is deleted by one command; a record without
a key asks for nothing. The commands that a load makes are these.
-/

namespace RedisSnapshot.Load

/-- Records that are sent together, and the database that they go to. -/
structure Parcel where
  database : Nat
  records : List Record

/-- The nearest moment that can be told in a signed word of 64 bits. -/
def nearestMoment (moment : Int) : Int :=
  if moment < -0x8000000000000000 then -0x8000000000000000
  else if 0x7FFFFFFFFFFFFFFF < moment then 0x7FFFFFFFFFFFFFFF
  else moment

/-- What a value is written with, and behind that its expiry, if it has one that counts. -/
def writesWithExpiry (options : Options) (key : Key) (value : Value) : List Command :=
  let writes := (value.writes options.keepDeleted key.name).filter (2 < ·.length)
  let moment := nearestMoment (key.expiry + options.expiryShift)
  writes ++
    if writes ≠ [] ∧ 0 < key.expiry ∧ options.ignoreExpiry = false then
      [.named "PEXPIREAT" [key.name, Decimal.intBytes moment]]
    else []

def recordWrites (options : Options) : Record → List Command
  | .keyed key value => writesWithExpiry options key value
  | .selectDb _ | .resizeDb .. | .aux .. => []

def recordDeletions : Record → List Command
  | .keyed key _ => [.named "DEL" [key.name]]
  | .selectDb _ | .resizeDb .. | .aux .. => []

namespace Parcel

def writes (options : Options) (parcel : Parcel) : List Command :=
  .named "SELECT" [Decimal.bytes parcel.database] ::
    parcel.records.flatMap (recordWrites options)

def deletions (parcel : Parcel) : List Command :=
  .named "SELECT" [Decimal.bytes parcel.database] :: parcel.records.flatMap recordDeletions

/-- What is sent for a parcel when nothing goes wrong. -/
def commands (options : Options) (parcel : Parcel) : List Command :=
  if options.deleteOnly then parcel.deletions else parcel.writes options

theorem head?_commands (options : Options) (parcel : Parcel) :
    (parcel.commands options).head? = some (.named "SELECT" [Decimal.bytes parcel.database]) := by
  rw [commands]
  by_cases hdelete : options.deleteOnly
  · rw [if_pos hdelete, deletions, List.head?_cons]
  · rw [if_neg hdelete, writes, List.head?_cons]

end Parcel

/-! ### What a load makes -/

theorem shiftMoment_eq (moment span : Int) :
    shiftMoment moment span = nearestMoment (moment + span) := by
  have hcount : (Word.count 63 : Int) = 0x8000000000000000 := rfl
  rw [shiftMoment, nearestMoment, hcount]
  by_cases hlow : moment + span < -0x8000000000000000
  · rw [if_pos hlow]
    omega
  · rw [if_neg hlow]
    by_cases hhigh : 0x7FFFFFFFFFFFFFFF < moment + span
    · rw [if_pos hhigh]
      omega
    · rw [if_neg hhigh]
      omega

theorem nearestMoment_range (moment : Int) :
    -(Word.count 63 : Int) ≤ nearestMoment moment ∧ nearestMoment moment < Word.count 63 := by
  have hcount : (Word.count 63 : Int) = 0x8000000000000000 := rfl
  rw [nearestMoment, hcount]
  split
  · omega
  · split <;> omega

theorem recordCommands_keyed (options : Options) (key : Key) (value : Value) :
    recordCommands options (.keyed key value) = writesWithExpiry options key value := by
  unfold recordCommands writesWithExpiry
  simp only [Record.rebuild?, Bool.and_eq_true, Bool.not_eq_true', List.isEmpty_eq_false_iff,
    decide_eq_true_eq, and_assoc, and_comm (a := options.ignoreExpiry = false), shiftMoment_eq]
  split
  · rfl
  · exact (List.append_nil _).symm

theorem recordCommands_eq (options : Options) : recordCommands options = recordWrites options := by
  funext record
  cases record with
  | keyed key value => exact recordCommands_keyed options key value
  | selectDb _ | resizeDb _ _ | aux _ _ => rfl

theorem writeCommands_eq (options : Options) (database : Nat) (batch : List Record) :
    writeCommands options database batch = Parcel.writes options ⟨database, batch⟩ := by
  rw [writeCommands, recordCommands_eq, Parcel.writes, select]

theorem deleteCommands_eq (database : Nat) (batch : List Record) :
    deleteCommands database batch = Parcel.deletions ⟨database, batch⟩ := by
  have hrecord : ∀ record : Record,
      (record.key?.map fun key => delete key.name).toList = recordDeletions record := by
    intro record
    cases record with
    | keyed key value => rfl
    | selectDb _ | resizeDb _ _ | aux _ _ => rfl
  rw [deleteCommands, List.filterMap_eq_flatMap_toList, funext hrecord, Parcel.deletions, select]

end RedisSnapshot.Load
