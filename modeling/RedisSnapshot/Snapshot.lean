import RedisSnapshot.Source
import RedisSnapshot.Value

/-!
# Scanning a snapshot

A snapshot is a header, items, and the item that ends it. Items read without regard to each other;
what one means for a later one is the scan's progress: an expiry waits for the next key, and only
the first database selector is handed on. A scan hands over records one by one to whoever receives
them, who may refuse one, and asks before every item whether it is still wanted.
-/

namespace RedisSnapshot

inductive Item where
  | idle (seconds : Nat)
  | frequency (count : UInt8)
  | aux (field value : Bytes)
  | resizeDb (keys expiring : Nat)
  | expiry (moment : Int)
  | selectDb (index : Nat)
  | library (code : Bytes)
  | key (name : Bytes) (values : List Value)
  | ending

namespace Item

open Decoder Reader

/-- The rest of an item behind its first byte, which is an opcode or the tag of a key's value. -/
def rest (opcode : UInt8) : Decoder Item :=
  match opcode with
  | 0xF5 => return .library (← string)
  | 0xF7 => do malformed (.moduleAux ((← offset) - 1))
  | 0xF8 => return .idle (← length)
  | 0xF9 => return .frequency (← byte)
  | 0xFA => do
      let field ← string
      return .aux field (← string)
  | 0xFB => do
      let keys ← length
      return .resizeDb keys (← length)
  | 0xFC => return .expiry (← signedLittle 8)
  | 0xFD => return .expiry (1000 * (← little 4))
  | 0xFE => return .selectDb (← length)
  | 0xFF => return .ending
  | tag => do
      let name ← string
      return .key name (← values tag)

def decoder : Decoder Item :=
  byte >>= rest

theorem length_lt_of_run {cursor next : Cursor} {item : Item}
    (h : decoder.run cursor = .done item next) : next.rest.length < cursor.rest.length :=
  length_lt_of_byte_bind h

end Item

/-- The five bytes that every snapshot begins with. -/
def magic : Bytes := [82, 69, 68, 73, 83]

open Reader in
/-- The header, which is also how the version of a snapshot is told. -/
def Decoder.header : Decoder Bytes := do
  let header ← take 9
  if header.take 5 ≠ magic then malformed .magic
  else
    match Decimal.nat? (header.drop 5) with
    | none => malformed (.versionDigits (header.drop 5))
    | some version =>
        if 1 ≤ version ∧ version ≤ 11 then return header
        else malformed (.unsupportedVersion version)

structure Progress where
  expiry : Int
  selected : Bool
  keys : Nat

namespace Progress

def start : Progress :=
  ⟨0, false, 0⟩

/-- The records that an item gives, and the progress behind it. -/
def advance (withAux : Bool) (progress : Progress) : Item → Progress × List Record
  | .aux field value => (progress, if withAux then [.aux field value] else [])
  | .resizeDb keys expiring => (progress, [.resizeDb keys expiring])
  | .expiry moment => ({ progress with expiry := moment }, [])
  | .selectDb index =>
      ({ progress with selected := true }, if progress.selected then [] else [.selectDb index])
  | .key name values =>
      ({ progress with expiry := 0, keys := progress.keys + 1 },
        values.map (.keyed ⟨name, progress.expiry⟩))
  | .idle _ | .frequency _ | .library _ | .ending => (progress, [])

end Progress

structure Receiver (m : Type → Type) where
  take : Record → m (Except Error Unit)
  /-- Told once that the snapshot has ended. -/
  finish : m (Except Error Unit)
  isCancelled : m Bool

structure Scan where
  result : Except Error Unit
  banner : Option String
  keys : Nat
  offset : Nat

namespace Scan

variable {m : Type → Type} [Monad m]

def deliver (receiver : Receiver m) : List Record → m (Except Error Unit)
  | [] => return .ok ()
  | record :: records => do
      match ← receiver.take record with
      | .ok () => deliver receiver records
      | .error error => return .error error

def items (receiver : Receiver m) (withAux : Bool) (source : Source) (banner : String)
    (progress : Progress) (cursor : Cursor) : m Scan := do
  if ← receiver.isCancelled then
    return ⟨.error .cancelled, banner, progress.keys, cursor.offset⟩
  match _h : Item.decoder.run cursor with
  | .short _ cursor =>
      return ⟨.error (source.shortage cursor.offset), banner, progress.keys, cursor.offset⟩
  | .failed fault cursor => return ⟨.error fault.error, banner, progress.keys, cursor.offset⟩
  | .done .ending cursor =>
      return ⟨← receiver.finish, banner, progress.keys, cursor.offset⟩
  | .done item cursor => do
      let (progress, records) := progress.advance withAux item
      match ← deliver receiver records with
      | .ok () => items receiver withAux source banner progress cursor
      | .error error => return ⟨.error error, banner, progress.keys, cursor.offset⟩
termination_by cursor.rest.length
decreasing_by exact Item.length_lt_of_run _h

def run (receiver : Receiver m) (withAux : Bool) (source : Source) : m Scan := do
  match source.decode Decoder.header source.start with
  | (.error error, cursor) => return ⟨.error error, none, 0, cursor.offset⟩
  | (.ok header, cursor) => items receiver withAux source (Text.lossy header) .start cursor

def bannerOrError (scan : Scan) : Except Error String :=
  scan.result.map fun _ => scan.banner.getD ""

end Scan

end RedisSnapshot
