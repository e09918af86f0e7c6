import RedisSnapshot.Proofs.Lines.Shown

/-!
# What the line of a stream tells of its entries

The fields of an entry are shown as members under their names, and so a name that an entry has twice
is shown once, with the value that comes last. That is all of the entries that the line of a stream
tells, and it tells all of that: which ids there are, which entries are deleted, and what comes last
under each name.
-/

namespace RedisSnapshot

/-! ### Maps that agree -/

namespace IdMap

variable {α β : Type} {first second : IdMap α}

/-- Both maps have the same ids, and the values under each are alike. -/
def Agree (IsAlike : α → β → Prop) (first : IdMap α) (second : IdMap β) : Prop :=
  ∀ id, Option.Rel IsAlike (first.get? id) (second.get? id)

def map (f : α → β) (map : IdMap α) : IdMap β :=
  ⟨map.newestFirst.map (Prod.map id f), List.pairwise_map.2 map.descending⟩

theorem get?_map (f : α → β) (entries : IdMap α) (id : StreamId) :
    (entries.map f).get? id = (entries.get? id).map f := by
  rw [get?, get?, map, List.find?_map, Option.map_map, Option.map_map]
  rfl

theorem eq_of_get?_eq (h : ∀ id, first.get? id = second.get? id) : first = second := by
  apply eq_of_mem_iff
  rintro ⟨id, value⟩
  rw [← get?_eq_some_iff, ← get?_eq_some_iff, h]

theorem Agree.imp {IsAlike IsSame : α → α → Prop} (h : first.Agree IsAlike second)
    (himp : ∀ id a b, first.get? id = some a → second.get? id = some b →
      IsAlike a b → IsSame a b) : first.Agree IsSame second := by
  intro id
  have hid := h id
  generalize hfirst : first.get? id = value at hid ⊢
  generalize hsecond : second.get? id = other at hid ⊢
  cases hid with
  | none => exact .none
  | some halike => exact .some (himp id _ _ hfirst hsecond halike)

theorem map_eq_map_of_agree {f : α → β} (h : first.Agree (fun a b => f a = f b) second) :
    first.map f = second.map f := by
  apply eq_of_get?_eq
  intro id
  have hid := h id
  rw [get?_map, get?_map]
  generalize first.get? id = value at hid ⊢
  generalize second.get? id = other at hid ⊢
  cases hid with
  | none => rfl
  | some hvalue => exact congrArg some hvalue

/-- What is made of ids and of what the values are mapped to is the same. -/
theorem map_toList_eq {γ : Type} {f : α → β} {shape : StreamId × α → γ}
    (h : first.map f = second.map f)
    (hshape : ∀ a b, Prod.map id f a = Prod.map id f b → shape a = shape b) :
    first.toList.map shape = second.toList.map shape := by
  have hlists : first.newestFirst.map (Prod.map id f) = second.newestFirst.map (Prod.map id f) :=
    congrArg newestFirst h
  rw [← List.forall₂_eq_eq_eq, List.forall₂_map_left_iff, List.forall₂_map_right_iff] at hlists
  have hshapes := hlists.imp hshape
  rw [← List.forall₂_map_right_iff, ← List.forall₂_map_left_iff, List.forall₂_eq_eq_eq] at hshapes
  rw [toList, toList, List.map_reverse, List.map_reverse, hshapes]

/-- What shows a map has no member for an id exactly if the map has no value there. -/
theorem ShownBy.lookup_eq_none_iff {IsShown : α → Document → Prop}
    {members : List (String × Document)} (h : first.ShownBy IsShown members) (id : StreamId) :
    members.lookup id.text = none ↔ first.get? id = none := by
  constructor
  · intro hlookup
    apply Option.eq_none_iff_forall_ne_some.2
    intro value hvalue
    obtain ⟨shown, hshown, -⟩ := h.shown _ (get?_eq_some_iff.1 hvalue)
    rw [hlookup] at hshown
    cases hshown
  · intro hget
    apply Option.eq_none_iff_forall_ne_some.2
    intro shown hlookup
    have hmem := (Json.lookup_eq_some_iff_mem (h.ascending.imp String.ne_of_lt)).1 hlookup
    have hname := h.names.mem_iff.1 (List.mem_map_of_mem hmem)
    obtain ⟨entry, hentry, htext⟩ := List.mem_map.1 hname
    rw [← StreamId.text_injective htext, get?_of_mem hentry] at hget
    cases hget

end IdMap

/-! ### Members that may be absent -/

theorem lookup_present_cons {α : Type} {name : String} {members : List (String × Option α)}
    (h : name ∉ members.map Prod.fst) (value : Option α) :
    (present ((name, value) :: members)).lookup name = value := by
  cases value with
  | some value =>
      change ((name, value) :: present members).lookup name = _
      rw [List.lookup_cons, beq_self_eq_true]
  | none =>
      change (present members).lookup name = none
      apply List.lookup_eq_none_iff.2
      intro member hmem
      apply bne_iff_ne.2
      rintro rfl
      exact h ((names_present members).subset (List.mem_map_of_mem hmem))

namespace Stream

namespace Entry

variable {entry first second : Entry} {shown : Document}

/-! ### Entries that are alike -/

/-- The last pair of a field. -/
def last? (entry : Entry) (field : Bytes) : Option (Bytes × Bytes) :=
  (entry.fields.filter (·.1 = field)).getLast?

/-- Nothing that a line tells of entries is different between the two. -/
structure Alike (first second : Entry) : Prop where
  deleted : first.deleted = second.deleted
  last : ∀ field, first.last? field = second.last? field

def IsUtf8 (entry : Entry) : Prop :=
  ∀ pair ∈ entry.fields, Text.IsUtf8 pair.1 ∧ Text.IsUtf8 pair.2

/-- No name comes twice. -/
def IsSimple (entry : Entry) : Prop :=
  (entry.fields.map Prod.fst).Nodup

theorem mem_of_last? {field : Bytes} {pair : Bytes × Bytes} (h : entry.last? field = some pair) :
    pair ∈ entry.fields ∧ pair.1 = field := by
  obtain ⟨hmem, hname⟩ := List.mem_filter.1 (List.mem_of_getLast? h)
  exact ⟨hmem, of_decide_eq_true hname⟩

theorem last?_eq_some_iff (h : entry.IsSimple) {field : Bytes} {pair : Bytes × Bytes} :
    entry.last? field = some pair ↔ pair ∈ entry.fields ∧ pair.1 = field := by
  constructor
  · exact mem_of_last?
  · rintro ⟨hmem, rfl⟩
    cases hlast : entry.last? pair.1 with
    | none =>
        have hnone := List.getLast?_eq_none_iff.1 hlast
        have hpair := List.filter_eq_nil_iff.1 hnone pair hmem
        exact absurd (decide_eq_true rfl) hpair
    | some other =>
        obtain ⟨hother, hname⟩ := mem_of_last? hlast
        exact congrArg some (List.inj_on_of_nodup_map h hother hmem hname)

/-- Without a second value for a name the order of the fields is all that entries which are alike
can differ in. -/
theorem alike_iff (hfirst : first.IsSimple) (hsecond : second.IsSimple) :
    first.Alike second ↔ first.deleted = second.deleted ∧ first.fields.Perm second.fields := by
  have hlast : (∀ field, first.last? field = second.last? field) ↔
      ∀ pair, pair ∈ first.fields ↔ pair ∈ second.fields := by
    constructor
    · intro h pair
      have hpair := congrArg (· = some pair) (h pair.1)
      simpa [last?_eq_some_iff hfirst, last?_eq_some_iff hsecond] using hpair
    · intro h field
      apply Option.ext
      intro pair
      rw [last?_eq_some_iff hfirst, last?_eq_some_iff hsecond, h]
  have hperm := List.perm_ext_iff_of_nodup (List.Nodup.of_map _ hfirst) (List.Nodup.of_map _ hsecond)
  rw [hperm, ← hlast]
  exact ⟨fun h => ⟨h.deleted, h.last⟩, fun h => ⟨h.1, h.2⟩⟩

/-- A pair that is overwritten by a later one is not told. -/
theorem alike_cons {pair : Bytes × Bytes} {fields : List (Bytes × Bytes)}
    (h : pair.1 ∈ fields.map Prod.fst) (deleted : Bool) :
    Alike ⟨deleted, pair :: fields⟩ ⟨deleted, fields⟩ := by
  refine ⟨rfl, fun field => ?_⟩
  rw [last?, last?, List.filter_cons]
  split
  · rename_i hfield
    obtain ⟨later, hmem, hlater⟩ := List.mem_map.1 h
    have hkept : later ∈ fields.filter (·.1 = field) :=
      List.mem_filter.2 ⟨hmem, decide_eq_true (hlater.trans (of_decide_eq_true hfield))⟩
    obtain ⟨first, rest, hrest⟩ := List.exists_cons_of_ne_nil (List.ne_nil_of_mem hkept)
    rw [hrest, List.getLast?_cons_cons]
  · rfl

/-! ### What is shown of an entry -/

/-- Names that are told apart as bytes are told apart as texts. -/
theorem filter_lossy (h : entry.IsUtf8) (name : String) :
    (entry.fields.filter fun pair => Text.lossy pair.1 = name).getLast? =
      entry.last? (Text.bytes name) := by
  rw [last?]
  apply congrArg List.getLast?
  apply List.filter_congr
  intro pair hmem
  rw [decide_eq_decide]
  exact (h pair hmem).1.lossy_eq_iff

theorem alike_of_isShown (hfirst : first.IsUtf8) (hsecond : second.IsUtf8)
    (h : first.IsShown shown) (hother : second.IsShown shown) : first.Alike second := by
  obtain ⟨members, -, hmembers, rfl⟩ := h
  obtain ⟨others, -, hothers, hshown⟩ := hother
  simp only [Document.object.injEq, List.cons.injEq, Prod.mk.injEq, Document.bool.injEq,
    and_true, true_and] at hshown
  obtain ⟨hdeleted, rfl⟩ := hshown
  refine ⟨hdeleted, fun field => ?_⟩
  by_cases hfield : Text.IsUtf8 field
  · have hdocuments := (hmembers (Text.lossy field)).symm.trans (hothers (Text.lossy field))
    rw [filter_lossy hfirst, filter_lossy hsecond, hfield.bytes_lossy] at hdocuments
    cases hpair : first.last? field with
    | none =>
        rw [hpair, Option.map_none, eq_comm, Option.map_eq_none_iff] at hdocuments
        exact hdocuments.symm
    | some pair =>
        rw [hpair, Option.map_some, eq_comm, Option.map_eq_some_iff] at hdocuments
        obtain ⟨other, hother, hvalue⟩ := hdocuments
        obtain ⟨hmem, hname⟩ := mem_of_last? hpair
        obtain ⟨hmem', hname'⟩ := mem_of_last? hother
        have htext := (hsecond other hmem').2.lossy_eq_iff.1 (Document.string.inj hvalue)
        rw [(hfirst pair hmem).2.bytes_lossy] at htext
        rw [hother, Prod.ext (hname.trans hname'.symm) htext.symm]
  · have hnone : ∀ {entry : Entry}, entry.IsUtf8 → entry.last? field = none := by
      intro entry hentry
      apply Option.eq_none_iff_forall_ne_some.2
      intro pair hpair
      obtain ⟨hmem, hname⟩ := mem_of_last? hpair
      exact hfield (hname ▸ (hentry pair hmem).1)
    rw [hnone hfirst, hnone hsecond]

theorem json_eq_of_alike (hfirst : first.IsUtf8) (hsecond : second.IsUtf8)
    (h : first.Alike second) : first.json = second.json := by
  have hnamed : ∀ {entry : Entry}, entry.IsUtf8 → ∀ name,
      (Json.named name (entry.fields.map fun pair =>
        (Text.lossy pair.1, textJson pair.2))).getLast? =
      (entry.last? (Text.bytes name)).map fun pair => (Text.lossy pair.1, textJson pair.2) := by
    intro entry hentry name
    rw [Json.named, List.filter_map, List.getLast?_map, ← filter_lossy hentry]
    rfl
  have hfields := Json.sorted_congr fun name =>
    ((hnamed hfirst name).trans (congrArg (Option.map _) (h.last _))).trans (hnamed hsecond name).symm
  rw [json, json, h.deleted]
  exact congrArg (fun fields => Json.sorted [("deleted", .bool second.deleted), ("fields", fields)])
    hfields

end Entry

/-! ### What is shown of a stream -/

section Shown

variable {log other : Stream} {key otherKey : Key}

/-- Names and values of the entries are UTF-8. -/
def IsUtf8 (log : Stream) : Prop :=
  ∀ entry ∈ log.entries.toList, entry.2.IsUtf8

theorem IsUtf8.of_get? (h : log.IsUtf8) {id : StreamId} {entry : Entry}
    (hentry : log.entries.get? id = some entry) : entry.IsUtf8 :=
  h (id, entry) (IdMap.get?_eq_some_iff.1 hentry)

theorem agree_of_shownBy (hlog : log.IsUtf8) (hother : other.IsUtf8)
    {members : List (String × Document)} (h : log.entries.ShownBy Entry.IsShown members)
    (hshown : other.entries.ShownBy Entry.IsShown members) :
    log.entries.Agree Entry.Alike other.entries := by
  intro id
  have hnone : log.entries.get? id = none ↔ other.entries.get? id = none :=
    (h.lookup_eq_none_iff id).symm.trans (hshown.lookup_eq_none_iff id)
  cases hfirst : log.entries.get? id with
  | none =>
      rw [hnone.1 hfirst]
      exact .none
  | some first =>
      cases hsecond : other.entries.get? id with
      | none =>
          rw [hnone.2 hsecond] at hfirst
          cases hfirst
      | some second =>
          obtain ⟨shown, hlookup, hisShown⟩ := h.shown _ (IdMap.get?_eq_some_iff.1 hfirst)
          obtain ⟨same, hsame, hotherIsShown⟩ := hshown.shown _ (IdMap.get?_eq_some_iff.1 hsecond)
          obtain rfl : shown = same := Option.some.inj (hlookup.symm.trans hsame)
          exact .some (Entry.alike_of_isShown (hlog.of_get? hfirst) (hother.of_get? hsecond)
            hisShown hotherIsShown)

/-- Entries are shown as members, and there are none of these without an entry. -/
theorem exists_shownBy_of_isShown {shown : Document} (h : log.IsShown shown)
    (hother : other.IsShown shown) :
    ∃ members, log.entries.ShownBy Entry.IsShown members ∧
      other.entries.ShownBy Entry.IsShown members := by
  obtain ⟨members, groups, hmembers, -, rfl⟩ := h
  obtain ⟨others, otherGroups, hothers, -, hshown⟩ := hother
  have hempty : ∀ {entries : IdMap Entry} {members : List (String × Document)},
      entries.ShownBy Entry.IsShown members → entries.newestFirst.isEmpty = true →
      members = [] := by
    intro entries members h hnone
    have hnames := h.names
    rw [IdMap.toList, List.isEmpty_iff.1 hnone] at hnames
    exact List.map_eq_nil_iff.1 hnames.eq_nil
  have hlookup := congrArg (List.lookup "Entries") (Document.object.inj hshown)
  rw [lookup_present_cons (by simp), lookup_present_cons (by simp)] at hlookup
  suffices hsame : members = others from ⟨members, hmembers, hsame ▸ hothers⟩
  cases hfirst : log.entries.newestFirst.isEmpty with
  | true =>
      cases hsecond : other.entries.newestFirst.isEmpty with
      | true => rw [hempty hmembers hfirst, hempty hothers hsecond]
      | false => simp [hfirst, hsecond] at hlookup
  | false =>
      cases hsecond : other.entries.newestFirst.isEmpty with
      | true => simp [hfirst, hsecond] at hlookup
      | false => simpa [hfirst, hsecond] using hlookup

/-- Streams of one line have entries that agree, whatever else is in them. -/
theorem agree_of_jsonLine_eq (hlog : log.IsUtf8) (hother : other.IsUtf8)
    (h : (Record.keyed key (.stream log)).jsonLine =
      (Record.keyed otherKey (.stream other)).jsonLine) :
    log.entries.Agree Entry.Alike other.entries := by
  obtain ⟨members, hmembers, shown, hshown, rfl⟩ := (Record.keyed key (.stream log)).exists_shown
  obtain ⟨others, hothers, otherShown, hotherShown, rfl⟩ :=
    (Record.keyed otherKey (.stream other)).exists_shown
  have hdocuments := congrArg (Document.read? ∘ String.toList) h
  simp only [Function.comp, Record.jsonLine, Json.read?_text, hmembers, hothers] at hdocuments
  have hvalues := congrArg (List.lookup "value") (Document.object.inj (Option.some.inj hdocuments))
  obtain rfl : shown = otherShown := Option.some.inj hvalues
  obtain ⟨entries, hentries, hotherEntries⟩ := exists_shownBy_of_isShown hshown hotherShown
  exact agree_of_shownBy hlog hother hentries hotherEntries

/-- A stream has the same document with entries that are alike. -/
theorem json_eq_of_agree (hlog : log.IsUtf8) (hother : other.IsUtf8)
    (h : log.entries.Agree Entry.Alike other.entries) :
    log.json = { log with entries := other.entries : Stream }.json := by
  have hagree : log.entries.Agree (fun a b => a.json = b.json) other.entries :=
    h.imp fun id a b ha hb => Entry.json_eq_of_alike (hlog.of_get? ha) (hother.of_get? hb)
  have hmaps := IdMap.map_eq_map_of_agree hagree
  have hempty : log.entries.newestFirst.isEmpty = other.entries.newestFirst.isEmpty := by
    have hempty := congrArg (List.isEmpty ∘ IdMap.newestFirst) hmaps
    simpa only [Function.comp, IdMap.map, List.isEmpty_map] using hempty
  rw [json, json, hempty, IdMap.map_toList_eq hmaps]
  rintro ⟨id, first⟩ ⟨otherId, second⟩ hsame
  obtain ⟨rfl, hjson⟩ := Prod.mk.inj hsame
  exact congrArg (Prod.mk _) hjson

end Shown

/-- **What the line of a stream tells of its entries.** All names and values are UTF-8. Streams with
the same line have entries that agree, whatever else is in them: the same ids, the same deletions
and the same last value of each name. A stream has the same line with other entries exactly if these
agree with its own, and where no name comes twice in an entry that is to say that all fields are
the same, up to their order. -/
theorem jsonLine_tells_entries {log other : Stream} (hlog : log.IsUtf8) (hother : other.IsUtf8)
    (key otherKey : Key) :
    ((Record.keyed key (.stream log)).jsonLine =
        (Record.keyed otherKey (.stream other)).jsonLine →
      log.entries.Agree Entry.Alike other.entries) ∧
    ((Record.keyed key (.stream log)).jsonLine =
        (Record.keyed key (.stream { log with entries := other.entries })).jsonLine ↔
      log.entries.Agree Entry.Alike other.entries) ∧
    ((∀ entry ∈ log.entries.toList, entry.2.IsSimple) →
      (∀ entry ∈ other.entries.toList, entry.2.IsSimple) →
      (log.entries.Agree Entry.Alike other.entries ↔
        log.entries.Agree (fun a b => a.deleted = b.deleted ∧ a.fields.Perm b.fields)
          other.entries)) := by
  refine ⟨agree_of_jsonLine_eq hlog hother, ⟨fun h => ?_, fun h => ?_⟩, fun hsimple hothers => ?_⟩
  · have hentries : ({ log with entries := other.entries } : Stream).IsUtf8 := hother
    have hagree := agree_of_jsonLine_eq hlog hentries h
    exact hagree
  · have hjson := json_eq_of_agree hlog hother h
    rw [Record.jsonLine, Record.jsonLine, Record.json, Record.json, Value.json, Value.json, hjson]
    rfl
  · have hiff : ∀ id a b, log.entries.get? id = some a → other.entries.get? id = some b →
        (a.Alike b ↔ a.deleted = b.deleted ∧ a.fields.Perm b.fields) := by
      intro id a b ha hb
      have hfirst := hsimple (id, a) (IdMap.get?_eq_some_iff.1 ha)
      have hsecond := hothers (id, b) (IdMap.get?_eq_some_iff.1 hb)
      exact Entry.alike_iff hfirst hsecond
    constructor
    · intro h
      exact h.imp fun id a b ha hb => (hiff id a b ha hb).1
    · intro h
      exact h.imp fun id a b ha hb => (hiff id a b ha hb).2

/-- A stream of one entry. -/
def ofFields (fields : List (Bytes × Bytes)) : Stream :=
  ⟨.ofList [(⟨1, 0⟩, ⟨false, fields⟩)], 1, ⟨1, 0⟩, none, none, none, []⟩

/-- An entry that has a field twice has the same line as one that has only the second value. -/
theorem jsonLine_tells_entries_overwritten :
    (ofFields [([102], [49]), ([102], [50])]).IsUtf8 ∧ (ofFields [([102], [50])]).IsUtf8 ∧
      (ofFields [([102], [49]), ([102], [50])]).entries ≠ (ofFields [([102], [50])]).entries ∧
      (Record.keyed ⟨[107], 0⟩ (.stream (ofFields [([102], [49]), ([102], [50])]))).jsonLine =
        (Record.keyed ⟨[107], 0⟩ (.stream (ofFields [([102], [50])]))).jsonLine := by
  have hfield : Text.IsUtf8 [102] := ⟨"f", by decide⟩
  have hone : Text.IsUtf8 [49] := ⟨"1", by decide⟩
  have htwo : Text.IsUtf8 [50] := ⟨"2", by decide⟩
  have hmem : ∀ {fields : List (Bytes × Bytes)} {entry},
      entry ∈ (ofFields fields).entries.toList → entry = (⟨1, 0⟩, ⟨false, fields⟩) := by
    intro fields entry hentry
    exact List.mem_singleton.1 hentry
  have htwice : (ofFields [([102], [49]), ([102], [50])]).IsUtf8 := by
    intro entry hentry pair hpair
    rw [hmem hentry] at hpair
    rcases List.mem_cons.1 hpair with rfl | hpair
    · exact ⟨hfield, hone⟩
    · rw [List.mem_singleton.1 hpair]
      exact ⟨hfield, htwo⟩
  have honce : (ofFields [([102], [50])]).IsUtf8 := by
    intro entry hentry pair hpair
    rw [hmem hentry] at hpair
    rw [List.mem_singleton.1 hpair]
    exact ⟨hfield, htwo⟩
  have hagree : (ofFields [([102], [49]), ([102], [50])]).entries.Agree Entry.Alike
      (ofFields [([102], [50])]).entries := by
    intro id
    by_cases hid : (⟨1, 0⟩ : StreamId) = id
    · subst hid
      exact .some (Entry.alike_cons (by decide) false)
    · have hnone : ∀ fields, (ofFields fields).entries.get? id = none := by
        intro fields
        apply Option.eq_none_iff_forall_ne_some.2
        intro entry hentry
        exact hid (congrArg Prod.fst (hmem (IdMap.get?_eq_some_iff.1 hentry))).symm
      rw [hnone, hnone]
      exact .none
  obtain ⟨-, hiff, -⟩ := jsonLine_tells_entries htwice honce ⟨[107], 0⟩ ⟨[107], 0⟩
  refine ⟨htwice, honce, ?_, hiff.2 hagree⟩
  intro hsame
  have hlengths := congrArg (fun entries => entries.newestFirst.map (·.2.fields.length)) hsame
  exact absurd hlengths (by decide)

end Stream

end RedisSnapshot
