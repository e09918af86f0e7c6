import RedisSnapshot.Proofs.Forms.Value
import RedisSnapshot.Proofs.Load.Parcels
import RedisSnapshot.Proofs.Store.Commands

/-!
# What a store makes of a record

The commands of a record, unless the store refuses one of them, make the value of the record out of
nothing; those of one node of a list add its elements to what has come of the nodes before. A key
that is due to expire before it has been written is not there behind that.
-/

namespace RedisSnapshot

open Load

/-- The moment at which a key is to expire at the destination. -/
def Key.deadline? (options : Options) (key : Key) : Option Int :=
  if 0 < key.expiry ∧ options.ignoreExpiry = false then
    some (nearestMoment (key.expiry + options.expiryShift))
  else none

/-- The entries of a stream that are written. -/
def Stream.kept (keepDeleted : Bool) (log : Stream) : List (StreamId × Stream.Entry) :=
  log.entries.toList.filter fun (_, entry) => keepDeleted || !entry.deleted

/-- There is nothing to write of the value. -/
def Value.IsVoid (keepDeleted : Bool) : Value → Prop
  | .string _ => False
  | .list elements => elements = []
  | .set members => members = []
  | .hash fields => fields = []
  | .sortedSet members => members = []
  | .stream log => log.kept keepDeleted = []

namespace Store

/-- The content is the value with all its elements, those of a list in any order. -/
def Content.Holds (keepDeleted : Bool) : Value → Content → Prop
  | .string bytes, .string held => held = bytes
  | .list elements, .list held => held.Perm elements
  | .set members, .set held => ∀ member, held member = true ↔ member ∈ members
  | .hash fields, .hash held => held = latest? fields
  | .sortedSet members, .sortedSet held =>
      held = latest? (members.map fun (member, score) => (member, Value.scoreBytes score))
  | .stream log, .stream held =>
      held = (log.kept keepDeleted).map fun (id, entry) => (id, entry.fields)
  | _, _ => False

/-- What can be seen of a key behind the writing of a value. -/
inductive Rebuilt (options : Options) (now : Int) (key : Key) (value : Value) :
    Option Slot → Prop where
  | void (hvoid : value.IsVoid options.keepDeleted) : Rebuilt options now key value none
  | lapsed {moment : Int} (hdeadline : key.deadline? options = some moment) (hpast : moment ≤ now) :
      Rebuilt options now key value none
  | held {content : Content} (hfilled : ¬ value.IsVoid options.keepDeleted)
      (hcontent : content.Holds options.keepDeleted value)
      (hcurrent : ∀ moment ∈ key.deadline? options, now < moment) :
      Rebuilt options now key value (some ⟨content, key.deadline? options⟩)

theorem seen_of_none {now : Int} {content : Content} :
    seen now (some ⟨content, none⟩) = some ⟨content, none⟩ :=
  rfl

theorem seen_some {now : Int} {slot : Option Slot} {found : Slot} (h : seen now slot = some found) :
    slot = some found ∧ ∀ moment ∈ found.expiry, now < moment := by
  obtain ⟨hslot, hexpiry⟩ := Option.filter_eq_some_iff.1 h
  refine ⟨hslot, fun moment hmoment => ?_⟩
  rw [Option.mem_def] at hmoment
  rw [hmoment] at hexpiry
  exact of_decide_eq_true hexpiry

theorem seen_of_current {now : Int} {found : Slot} (h : ∀ moment ∈ found.expiry, now < moment) :
    seen now (some found) = some found := by
  refine Option.filter_eq_some_iff.2 ⟨rfl, ?_⟩
  cases hexpiry : found.expiry with
  | none => rfl
  | some moment => exact decide_eq_true (h moment hexpiry)

theorem seen_of_past {now moment : Int} {found : Slot} (hexpiry : found.expiry = some moment)
    (hpast : moment ≤ now) : seen now (some found) = none := by
  refine Option.filter_eq_none_iff.2 fun slot hslot => ?_
  cases hslot
  rw [hexpiry]
  simpa using hpast

/-- What could not be seen does not come back by itself. -/
theorem seen_none_later {now later : Int} {slot : Option Slot} (hnow : now ≤ later)
    (h : seen now slot = none) : seen later slot = none := by
  cases hlater : seen later slot with
  | none => rfl
  | some found =>
      obtain ⟨rfl, hcurrent⟩ := seen_some hlater
      have hstill : seen now (some found) = some found :=
        seen_of_current fun moment hmoment => Int.lt_of_le_of_lt hnow (hcurrent moment hmoment)
      rw [hstill] at h
      cases h

theorem Rebuilt.later {options : Options} {now later : Int} {key : Key} {value : Value}
    {slot : Option Slot} (hnow : now ≤ later) (h : Rebuilt options now key value (seen now slot)) :
    Rebuilt options later key value (seen later slot) := by
  cases hseen : seen now slot with
  | none =>
      rw [seen_none_later hnow hseen]
      rw [hseen] at h
      cases h with
      | void hvoid => exact .void hvoid
      | lapsed hdeadline hpast => exact .lapsed hdeadline (Int.le_trans hpast hnow)
  | some found =>
      obtain ⟨rfl, _⟩ := seen_some hseen
      rw [hseen] at h
      cases h with
      | held hfilled hcontent hcurrent =>
          by_cases hpast : ∃ moment ∈ key.deadline? options, moment ≤ later
          · obtain ⟨moment, hdeadline, hpast⟩ := hpast
            rw [seen_of_past hdeadline hpast]
            exact .lapsed hdeadline hpast
          · have hstill : ∀ moment ∈ key.deadline? options, later < moment :=
              fun moment hmoment => Int.not_le.1 fun hdue => hpast ⟨moment, hmoment, hdue⟩
            rw [seen_of_current hstill]
            exact .held hfilled hcontent hstill

end Store

theorem StreamId.read?_bytes (id : StreamId) : read? id.bytes = some id := by
  have hdigits : ∀ byte ∈ Decimal.bytes id.ms.toNat, decide (byte ≠ 45) = true := by
    intro byte hmem
    have hdigit := Decimal.digit?_of_mem_bytes hmem
    refine decide_eq_true ?_
    rintro rfl
    cases hdigit
  have hfront : id.bytes.takeWhile (· ≠ 45) = Decimal.bytes id.ms.toNat := by
    rw [bytes, List.takeWhile_append_of_pos hdigits, List.takeWhile_cons, if_neg (by decide),
      List.append_nil]
  have hback : (id.bytes.dropWhile (· ≠ 45)).drop 1 = Decimal.bytes id.seq.toNat := by
    rw [bytes, List.dropWhile_append_of_pos hdigits, List.dropWhile_cons, if_neg (by decide)]
    rfl
  rw [read?, hfront, hback, Decimal.nat?_bytes, Decimal.nat?_bytes]
  change (if id.ms.toNat < Word.count 64 ∧ id.seq.toNat < Word.count 64 then _ else none) = some id
  rw [if_pos ⟨id.ms.toNat_lt, id.seq.toNat_lt⟩, ofNats, UInt64.ofNat_toNat, UInt64.ofNat_toNat]

namespace Store

section Effects

variable {now : Int} {slot after : Option Slot} {name : Bytes}

theorem effects?_append {front back : List Command}
    (h : Command.effects? now (front ++ back) slot = some after) :
    ∃ between, Command.effects? now front slot = some between ∧
      Command.effects? now back between = some after := by
  rw [Command.effects?, List.foldlM_append, Option.bind_eq_bind, Option.bind_eq_some_iff] at h
  exact h

theorem effects?_cons {command : Command} {commands : List Command}
    (h : Command.effects? now (command :: commands) slot = some after) :
    ∃ between, command.effect? now slot = some between ∧
      Command.effects? now commands between = some after := by
  rw [Command.effects?, List.foldlM_cons, Option.bind_eq_bind, Option.bind_eq_some_iff] at h
  exact h

theorem effects?_singleton {command : Command}
    (h : Command.effects? now [command] slot = some after) :
    command.effect? now slot = some after := by
  obtain ⟨between, hbetween, hafter⟩ := effects?_cons h
  cases hafter
  exact hbetween

theorem effect?_named (verb : Verb) (arguments : List Bytes) :
    (Command.named verb.name (name :: arguments)).effect? now slot =
      verb.act? now arguments (seen now slot) := by
  change (do (← Verb.ofName? (Text.bytes verb.name)).act? now arguments (seen now slot)) = _
  rw [Verb.ofName?_name]
  rfl

theorem act?_add {kind : Kind} {arguments : List Bytes}
    (h : (Verb.add kind).act? now arguments slot = some after) :
    ∃ content, kind.grow? arguments (slot.getD ⟨kind.fresh, none⟩).content = some content ∧
      after = some { slot.getD ⟨kind.fresh, none⟩ with content } := by
  rw [Verb.act?] at h
  split at h
  · cases h
  · rw [Option.bind_eq_bind, Option.bind_eq_some_iff] at h
    obtain ⟨content, hcontent, hafter⟩ := h
    exact ⟨content, hcontent, (Option.some.inj hafter).symm⟩

/-- A command without elements is not sent. -/
theorem filter_named (text : String) (arguments : List Bytes) :
    [Command.named text (name :: arguments)].filter (2 < ·.length) =
      if arguments = [] then [] else [.named text (name :: arguments)] := by
  cases arguments with
  | nil => rfl
  | cons argument arguments => rfl

theorem filter_stream {keepDeleted : Bool} {log : Stream} :
    ((Value.stream log).writes keepDeleted name).filter (2 < ·.length) =
      (Value.stream log).writes keepDeleted name := by
  refine List.filter_eq_self.2 fun command hmem => ?_
  obtain ⟨entry, _, rfl⟩ := List.mem_map.1 hmem
  exact decide_eq_true (Nat.le_add_left 3 _)

theorem writes_eq_nil_iff {keepDeleted : Bool} {value : Value} :
    (value.writes keepDeleted name).filter (2 < ·.length) = [] ↔ value.IsVoid keepDeleted := by
  have hnamed : ∀ (text : String) (arguments : List Bytes),
      [Command.named text (name :: arguments)].filter (2 < ·.length) = [] ↔ arguments = [] := by
    intro text arguments
    rw [filter_named, ite_eq_left_iff]
    exact ⟨fun h => by_contra fun hsome => List.cons_ne_nil _ _ (h hsome), absurd⟩
  cases value with
  | string bytes => exact (hnamed "SET" [bytes]).trans (iff_false_intro (List.cons_ne_nil _ _))
  | list elements => exact hnamed "LPUSH" elements
  | set members => exact hnamed "SADD" members
  | hash fields =>
      refine (hnamed "HSET" _).trans ?_
      rcases fields with _ | ⟨⟨field, value⟩, fields⟩
      · exact ⟨fun _ => rfl, fun _ => rfl⟩
      · exact ⟨nofun, nofun⟩
  | sortedSet members =>
      refine (hnamed "ZADD" _).trans ?_
      rcases members with _ | ⟨⟨member, score⟩, members⟩
      · exact ⟨fun _ => rfl, fun _ => rfl⟩
      · exact ⟨nofun, nofun⟩
  | stream log =>
      rw [filter_stream, Value.IsVoid, Stream.kept, Value.writes, List.map_eq_nil_iff]

/-- The first elements of a value are its content. -/
theorem effects?_fresh {keepDeleted : Bool} {value : Value} {kind : Kind} {arguments : List Bytes}
    (hgrow : ∀ content, kind.grow? arguments kind.fresh = some content →
      content.Holds keepDeleted value)
    (hseen : seen now slot = none)
    (h : Command.effects? now
      ([.named (Verb.add kind).name (name :: arguments)].filter (2 < ·.length)) slot = some after) :
    (arguments = [] ∧ after = slot) ∨
      ∃ content, after = some ⟨content, none⟩ ∧ content.Holds keepDeleted value := by
  rw [filter_named] at h
  split at h
  · rename_i hnone
    cases h
    exact .inl ⟨hnone, rfl⟩
  · have hact := effects?_singleton h
    rw [effect?_named, hseen] at hact
    obtain ⟨content, hcontent, rfl⟩ := act?_add hact
    exact .inr ⟨content, rfl, hgrow content hcontent⟩

theorem pairs?_flatten (pairs : List (Bytes × Bytes)) :
    pairs? (Packed.flatten pairs) = some pairs := by
  rw [pairs?, Packed.length_flatten, if_pos (by omega), Packed.pairUp_flatten]

/-- Entries are added to a stream one by one. -/
theorem effects?_entries (entries : List (StreamId × Stream.Entry))
    (found : List (StreamId × List (Bytes × Bytes)))
    (hslot : seen now slot = if found = [] then none else some ⟨.stream found, none⟩)
    (h : Command.effects? now
      (entries.map fun (id, entry) => .named "XADD"
        (name :: id.bytes :: entry.fields.flatMap fun (field, value) => [field, value])) slot =
      some after) :
    seen now after =
      if found ++ entries.map (fun (id, entry) => (id, entry.fields)) = [] then none
      else some ⟨.stream (found ++ entries.map fun (id, entry) => (id, entry.fields)), none⟩ := by
  induction entries generalizing slot found with
  | nil =>
      cases h
      rw [List.map_nil, List.append_nil]
      exact hslot
  | cons entry entries ih =>
      obtain ⟨id, entry⟩ := entry
      obtain ⟨between, hfirst, hrest⟩ := effects?_cons h
      have hact : (Verb.add .stream).act? now (id.bytes :: Packed.flatten entry.fields)
          (seen now slot) = some between :=
        (effect?_named (.add .stream) _).symm.trans hfirst
      have hpresent : (seen now slot).getD ⟨Kind.fresh .stream, none⟩ = ⟨.stream found, none⟩ := by
        rw [hslot]
        split
        · rename_i hnone
          rw [hnone]
          rfl
        · rfl
      obtain ⟨content, hcontent, hbetween⟩ := act?_add hact
      have hgrown : content = .stream (found ++ [(id, entry.fields)]) := by
        rw [hpresent, Kind.grow?, List.headD_cons, StreamId.read?_bytes, List.tail_cons,
          pairs?_flatten] at hcontent
        change (if _ then _ else _) = _ at hcontent
        split at hcontent
        · exact (Option.some.inj hcontent).symm
        · cases hcontent
      have hfilled : found ++ [(id, entry.fields)] ≠ [] :=
        List.append_ne_nil_of_right_ne_nil _ (List.cons_ne_nil _ _)
      have hnext : seen now between =
          if found ++ [(id, entry.fields)] = [] then none
          else some ⟨.stream (found ++ [(id, entry.fields)]), none⟩ := by
        rw [hbetween, hpresent, hgrown, if_neg hfilled]
        rfl
      have hafter := ih _ hnext hrest
      rw [List.append_assoc] at hafter
      exact hafter

/-- Scores stand in front of their members. -/
def scored (members : List (Bytes × Binary64)) : List (Bytes × Bytes) :=
  members.map fun (member, score) => (Value.scoreBytes score, member)

theorem writes_sortedSet (keepDeleted : Bool) (members : List (Bytes × Binary64)) :
    (Value.sortedSet members).writes keepDeleted name =
      [.named (Verb.add .sortedSet).name (name :: Packed.flatten (scored members))] := by
  rw [Packed.flatten, scored, List.flatMap_map]
  rfl

/-- What is written of a value where nothing is. -/
theorem effects?_writes {keepDeleted : Bool} {value : Value} (hseen : seen now slot = none)
    (h : Command.effects? now ((value.writes keepDeleted name).filter (2 < ·.length)) slot =
      some after) :
    ((value.writes keepDeleted name).filter (2 < ·.length) = [] ∧ seen now after = none) ∨
      ∃ content, after = some ⟨content, none⟩ ∧ content.Holds keepDeleted value := by
  have hfresh : ∀ (kind : Kind) (arguments : List Bytes),
      value.writes keepDeleted name = [.named (Verb.add kind).name (name :: arguments)] →
        (∀ content, kind.grow? arguments kind.fresh = some content →
          content.Holds keepDeleted value) →
          ((value.writes keepDeleted name).filter (2 < ·.length) = [] ∧ seen now after = none) ∨
            ∃ content, after = some ⟨content, none⟩ ∧ content.Holds keepDeleted value := by
    intro kind arguments hwrites hgrow
    rw [hwrites] at h ⊢
    rcases effects?_fresh hgrow hseen h with ⟨hnone, rfl⟩ | hmade
    · exact .inl ⟨by rw [filter_named, if_pos hnone], hseen⟩
    · exact .inr hmade
  cases value with
  | string bytes =>
      have hact : Verb.set.act? now [bytes] (seen now slot) = some after :=
        (effect?_named .set [bytes]).symm.trans (effects?_singleton h)
      cases hact
      exact .inr ⟨_, rfl, rfl⟩
  | list elements =>
      refine hfresh .list elements rfl fun content hcontent => ?_
      cases hcontent
      rw [List.append_nil]
      exact List.reverse_perm elements
  | set members =>
      refine hfresh .set members rfl fun content hcontent => ?_
      cases hcontent
      intro member
      change (members.contains member || false) = true ↔ member ∈ members
      rw [Bool.or_false, List.contains_iff_mem]
  | hash fields =>
      refine hfresh .hash (Packed.flatten fields) rfl fun content hcontent => ?_
      simp only [Kind.fresh, Kind.grow?, pairs?_flatten] at hcontent
      cases hcontent
      exact funext fun field => Option.or_none
  | sortedSet members =>
      refine hfresh .sortedSet (Packed.flatten (scored members))
        (writes_sortedSet keepDeleted members) fun content hcontent => ?_
      simp only [Kind.fresh, Kind.grow?, pairs?_flatten] at hcontent
      change (if _ then _ else _) = _ at hcontent
      split at hcontent
      · cases hcontent
        refine funext fun member => Option.or_none.trans ?_
        rw [scored, List.map_map]
        rfl
      · cases hcontent
  | stream log =>
      rw [filter_stream] at h ⊢
      have hafter := effects?_entries (log.kept keepDeleted) [] hseen h
      rw [List.nil_append] at hafter
      split at hafter
      · rename_i hnone
        rw [List.map_eq_nil_iff] at hnone
        exact .inl ⟨by rw [Value.writes, ← Stream.kept, hnone, List.map_nil], hafter⟩
      · exact .inr ⟨_, (seen_some hafter).1, rfl⟩

end Effects

section Records

variable {options : Options} {now : Int} {key : Key} {value : Value} {slot after : Option Slot}

theorem writesWithExpiry_deadline (options : Options) (key : Key) (value : Value) :
    writesWithExpiry options key value =
      if (value.writes options.keepDeleted key.name).filter (2 < ·.length) = [] then []
      else (value.writes options.keepDeleted key.name).filter (2 < ·.length) ++
        (key.deadline? options).toList.map (expire key.name) := by
  rw [writesWithExpiry, Key.deadline?]
  by_cases hnone : (value.writes options.keepDeleted key.name).filter (2 < ·.length) = []
  · simp only [hnone, ne_eq, not_true_eq_false, false_and, ↓reduceIte, List.append_nil]
  · simp only [ne_eq, hnone, not_false_eq_true, true_and, ↓reduceIte]
    split <;> rfl

theorem effect?_expire_eq {name : Bytes} {moment : Int} (hlow : -(Word.count 63 : Int) ≤ moment)
    (hhigh : moment < Word.count 63) :
    (expire name moment).effect? now slot = some (if moment ≤ now then none
      else (seen now slot).map ({ · with expiry := some moment })) := by
  have hact : (expire name moment).effect? now slot =
      Verb.expire.act? now [Decimal.intBytes moment] (seen now slot) :=
    effect?_named .expire [Decimal.intBytes moment]
  rw [hact, Verb.act?, Decimal.signed?_intBytes hlow hhigh]
  rfl

theorem effect?_expire {moment : Int} (hlow : -(Word.count 63 : Int) ≤ moment)
    (hhigh : moment < Word.count 63) (h : (expire key.name moment).effect? now slot = some after) :
    after = if moment ≤ now then none
      else (seen now slot).map ({ · with expiry := some moment }) := by
  rw [effect?_expire_eq hlow hhigh] at h
  exact (Option.some.inj h).symm

/-- Behind the writes a key is given its deadline, and with one that is past it is gone. -/
theorem rebuilt_of_deadline {content : Content} {expiry : Option Int}
    (hfilled : ¬ value.IsVoid options.keepDeleted)
    (hslot : seen now slot = some ⟨content, expiry⟩)
    (hexpiry : expiry = none ∨ expiry = key.deadline? options)
    (hcontent : (∀ moment ∈ key.deadline? options, now < moment) →
      content.Holds options.keepDeleted value)
    (h : Command.effects? now ((key.deadline? options).toList.map (expire key.name)) slot =
      some after) :
    Rebuilt options now key value (seen now after) := by
  cases hdeadline : key.deadline? options with
  | none =>
      rw [hdeadline] at h hexpiry hcontent
      cases h
      have hnone : expiry = key.deadline? options := by
        rw [hdeadline]
        exact hexpiry.elim id id
      rw [hslot, hnone]
      exact .held hfilled (hcontent nofun) (by rw [hdeadline]; nofun)
  | some moment =>
      have hmoment : moment = nearestMoment (key.expiry + options.expiryShift) := by
        rw [Key.deadline?] at hdeadline
        split at hdeadline
        · exact (Option.some.inj hdeadline).symm
        · cases hdeadline
      obtain ⟨hlow, hhigh⟩ := nearestMoment_range (key.expiry + options.expiryShift)
      rw [← hmoment] at hlow hhigh
      rw [hdeadline] at h hcontent
      have hafter := effect?_expire hlow hhigh (effects?_singleton h)
      rw [hslot] at hafter
      by_cases hpast : moment ≤ now
      · rw [if_pos hpast] at hafter
        rw [hafter]
        exact .lapsed hdeadline hpast
      · rw [if_neg hpast] at hafter
        have hcurrent : ∀ due ∈ some moment, now < due := by
          intro due hdue
          cases hdue
          exact Int.not_le.1 hpast
        have hheld : after = some ⟨content, key.deadline? options⟩ := by
          rw [hafter, hdeadline]
          rfl
        rw [← hdeadline] at hcurrent hcontent
        rw [hheld, seen_of_current hcurrent]
        exact .held hfilled (hcontent hcurrent) hcurrent

/-- A record is written where nothing is. -/
theorem rebuilt_of_record (hseen : seen now slot = none)
    (h : Command.effects? now (writesWithExpiry options key value) slot = some after) :
    Rebuilt options now key value (seen now after) := by
  rw [writesWithExpiry_deadline] at h
  by_cases hvoid : value.IsVoid options.keepDeleted
  · rw [if_pos (writes_eq_nil_iff.2 hvoid)] at h
    cases h
    rw [hseen]
    exact .void hvoid
  · rw [if_neg (mt writes_eq_nil_iff.1 hvoid)] at h
    obtain ⟨between, hwrites, hdeadline⟩ := effects?_append h
    rcases effects?_writes hseen hwrites with ⟨hnone, _⟩ | ⟨content, rfl, hcontent⟩
    · exact absurd (writes_eq_nil_iff.1 hnone) hvoid
    · exact rebuilt_of_deadline hvoid seen_of_none (.inl rfl) (fun _ => hcontent) hdeadline

theorem writesWithExpiry_list (options : Options) (key : Key) (elements : List Bytes) :
    writesWithExpiry options key (.list elements) =
      if elements = [] then []
      else .named "LPUSH" (key.name :: elements) ::
        (key.deadline? options).toList.map (expire key.name) := by
  rw [writesWithExpiry_deadline, Value.writes, filter_named]
  cases elements with
  | nil => rfl
  | cons element elements => rfl

/-- A list that cannot be seen before its deadline has no elements. -/
theorem Rebuilt.eq_nil_of_current {elements : List Bytes}
    (h : Rebuilt options now key (.list elements) none)
    (hcurrent : ∀ moment ∈ key.deadline? options, now < moment) : elements = [] := by
  cases h with
  | void hvoid => exact hvoid
  | lapsed hdeadline hpast => exact absurd (hcurrent _ hdeadline) (Int.not_lt.2 hpast)

/-- The elements of a node are added to those that are there. -/
theorem rebuilt_of_node {before node : List Bytes}
    (hslot : Rebuilt options now key (.list before) (seen now slot))
    (h : Command.effects? now (writesWithExpiry options key (.list node)) slot = some after) :
    Rebuilt options now key (.list (before ++ node)) (seen now after) := by
  rw [writesWithExpiry_list] at h
  split at h
  · rename_i hnone
    cases h
    rw [hnone, List.append_nil]
    exact hslot
  · rename_i hnode
    have hfilled : ¬ (Value.list (before ++ node)).IsVoid options.keepDeleted :=
      List.append_ne_nil_of_right_ne_nil before hnode
    obtain ⟨between, hfirst, hdeadline⟩ := effects?_cons h
    have hact : (Verb.add .list).act? now node (seen now slot) = some between :=
      (effect?_named (.add .list) node).symm.trans hfirst
    obtain ⟨content, hcontent, hbetween⟩ := act?_add hact
    cases hseen : seen now slot with
    | none =>
        rw [hseen] at hcontent hbetween hslot
        cases hcontent
        rw [hbetween] at hdeadline
        refine rebuilt_of_deadline hfilled seen_of_none (.inl rfl) (fun hcurrent => ?_) hdeadline
        -- Earlier nodes that cannot be seen in time had no elements.
        rw [hslot.eq_nil_of_current hcurrent, List.nil_append]
        change (node.reverse ++ []).Perm node
        rw [List.append_nil]
        exact List.reverse_perm node
    | some found =>
        rw [hseen] at hcontent hbetween hslot
        cases hslot with
        | @held present _ hpresent hcurrent =>
            rw [hbetween] at hdeadline
            refine rebuilt_of_deadline hfilled (seen_of_current hcurrent) (.inr rfl) (fun _ => ?_)
              hdeadline
            cases present with
            | list elements =>
                cases hcontent
                exact ((List.reverse_perm node).append hpresent).trans List.perm_append_comm
            | string _ | set _ | hash _ | sortedSet _ | stream _ => exact hpresent.elim

theorem rebuilt_of_nodes {before : List Bytes} {nodes : List (List Bytes)}
    (hslot : Rebuilt options now key (.list before) (seen now slot))
    (h : Command.effects? now
      (nodes.flatMap fun node => writesWithExpiry options key (.list node)) slot = some after) :
    Rebuilt options now key (.list (before ++ nodes.flatten)) (seen now after) := by
  induction nodes generalizing before slot with
  | nil =>
      cases h
      rw [List.flatten_nil, List.append_nil]
      exact hslot
  | cons node nodes ih =>
      obtain ⟨between, hfirst, hrest⟩ := effects?_append h
      rw [List.flatten_cons, ← List.append_assoc]
      exact ih (rebuilt_of_node hslot hfirst) hrest

theorem Rebuilt.void_list (options : Options) (now : Int) (key : Key) :
    Rebuilt options now key (.list []) none :=
  .void rfl

theorem Rebuilt.eq_none_of_list_nil (h : Rebuilt options now key (.list []) slot) : slot = none := by
  cases h with
  | void _ | lapsed _ _ => rfl
  | held hfilled _ _ => exact absurd rfl hfilled

theorem eq_list_of_parts (nodes : List (List Bytes)) (h : value.Parts (nodes.map .list)) :
    value = .list nodes.flatten := by
  generalize hparts : nodes.map Value.list = parts at h
  cases h with
  | whole =>
      obtain ⟨node, rfl, rfl⟩ := List.map_eq_singleton_iff.1 hparts
      rw [List.flatten_singleton]
  | chain =>
      have hnodes := List.map_injective_iff.2 (fun _ _ => Value.list.inj) hparts
      rw [hnodes]

/-- Further parts of a value are added to those that are there. -/
theorem rebuilt_of_parts {whole present : Value} {parts before more : List Value}
    (hparts : whole.Parts parts) (hwithin : before ++ more <:+: parts)
    (hpresent : present.Parts before) (hslot : Rebuilt options now key present (seen now slot))
    (h : Command.effects? now (more.flatMap fun value => writesWithExpiry options key value) slot =
      some after) :
    ∃ next : Value, next.Parts (before ++ more) ∧ Rebuilt options now key next (seen now after) := by
  cases hparts with
  | whole =>
      cases more with
      | nil =>
          cases h
          rw [List.append_nil]
          exact ⟨present, hpresent, hslot⟩
      | cons value rest =>
          have hlength := hwithin.length_le
          rw [List.length_append, List.length_cons, List.length_singleton] at hlength
          have hbefore : before = [] := List.length_eq_zero_iff.1 (by omega)
          have hrest : rest = [] := List.length_eq_zero_iff.1 (by omega)
          subst hbefore
          subst hrest
          rw [eq_list_of_parts [] hpresent] at hslot
          rw [List.flatMap_singleton] at h
          exact ⟨value, .whole, rebuilt_of_record hslot.eq_none_of_list_nil h⟩
  | @chain nodes =>
      obtain ⟨found, _, hfound⟩ := List.infix_map_iff.1 hwithin
      obtain ⟨front, back, rfl, rfl, rfl⟩ := List.map_eq_append_iff.1 hfound.symm
      rw [eq_list_of_parts front hpresent] at hslot
      rw [List.flatMap_map] at h
      refine ⟨_, ?_, rebuilt_of_nodes hslot h⟩
      rw [← List.flatten_append, ← List.map_append]
      exact .chain

end Records

end Store

end RedisSnapshot
