import RedisSnapshot.Proofs.Summary.Tallies

/-!
# What a summary says of keys

A summary is told a key in as many records as its value has parts, and counts and judges each of them
by itself. The sizes of the parts add up to that of the value. Everything else it says is true of the
keys of which each has one part, and so of all types but lists; a list that is stored in nodes is as
many keys as it has nodes, and is big as often as one of them is.
-/

namespace RedisSnapshot

namespace Value

def elements : Value → List Bytes
  | list elements => elements
  | _ => []

/-- The value that is told in these parts. -/
def joined : List Value → Value
  | [value] => value
  | parts => .list (parts.flatMap elements)

variable {value : Value} {parts : List Value}

theorem Parts.joined_eq (h : value.Parts parts) : joined parts = value := by
  cases h with
  | whole => rfl
  | @chain nodes =>
      have hflat : (nodes.map list).flatMap elements = nodes.flatten := by
        rw [List.flatMap_map]
        exact List.flatMap_id
      match nodes with
      | [] => rfl
      | [node] => rw [List.flatten_singleton]; rfl
      | first :: second :: nodes => rw [← hflat]; rfl

theorem Parts.typeName_eq (h : value.Parts parts) {part : Value} (hmem : part ∈ parts) :
    part.typeName = value.typeName := by
  cases h with
  | whole => rw [List.mem_singleton.1 hmem]
  | chain =>
      obtain ⟨node, _, rfl⟩ := List.mem_map.1 hmem
      rfl

/-- Nothing is lost between two parts. -/
theorem Parts.size_eq (h : value.Parts parts) : value.size = (parts.map size).sum := by
  cases h with
  | whole => simp
  | @chain nodes =>
      induction nodes with
      | nil => rfl
      | cons node nodes ih =>
          have hsize : ∀ elements : List Bytes, (list elements).size = elements.flatten.length :=
            fun _ => rfl
          rw [List.map_cons, List.map_cons, List.sum_cons, ← ih, hsize, hsize, hsize,
            List.flatten_cons, List.flatten_append, List.length_append]

/-- Only lists are told in other than one part. -/
theorem Parts.eq_singleton (h : value.Parts parts)
    (hone : value.typeName = "List" → parts.length = 1) : parts = [value] := by
  cases h with
  | whole => rfl
  | @chain nodes =>
      have hlength := hone rfl
      rw [List.length_map] at hlength
      obtain ⟨node, rfl⟩ := List.length_eq_one_iff.1 hlength
      rw [List.flatten_singleton, List.map_singleton]

end Value

namespace Item

/-- A key with the parts of its value. -/
def key? : Item → Option (Bytes × List Value)
  | key name parts => some (name, parts)
  | _ => none

def selector? : Item → Option Nat
  | selectDb index => some index
  | _ => none

end Item

/-- The keys of the items are in one database: a selector stands in front of all of them, or there is
none and it is the first database. -/
inductive OneDatabase : Nat → List Item → Prop where
  | selected {front back : List Item} {index : Nat}
      (hfront : ∀ item ∈ front, item.selector? = none ∧ item.key? = none)
      (hback : ∀ item ∈ back, item.selector? = none) :
      OneDatabase index (front ++ .selectDb index :: back)
  | first {items : List Item} (h : ∀ item ∈ items, item.selector? = none) : OneDatabase 0 items

namespace Summary

/-- How often and how a key comes up. -/
def occurrencesOf (database : Nat) (key : Bytes × List Value) : List Occurrence :=
  key.2.map (Occurrence.mk database key.1)

/-- The keys whose values are of a type. -/
def ofType (typeName : String) (keys : List (Bytes × List Value)) : List (Bytes × List Value) :=
  keys.filter fun key => (Value.joined key.2).typeName = typeName

/-- A key as it should be listed. -/
def wholeBig (key : Bytes × List Value) : BigKey :=
  (Occurrence.mk 0 key.1 (Value.joined key.2)).big

/-- How a key is listed: once for each part of it that is big. -/
def listing (options : Options) (key : Bytes × List Value) : List BigKey :=
  (key.2.filter (options.IsBig ·)).map fun part => (Occurrence.mk 0 key.1 part).big

/-- What a summary says of these keys, all of which are in one database. -/
structure Describes (options : Options) (database : Nat) (keys : List (Bytes × List Value))
    (summary : Summary) : Prop where
  elsewhere : ∀ place ∈ summary.tallies.map Prod.fst, place.1 = database
  once : (summary.tallies.map Prod.fst).Nodup
  counted : options.countKeys = true → options.findBig = false → ∀ typeName,
    (summary.tallyAt (database, typeName)).count =
        ((ofType typeName keys).map fun key => key.2.length).sum ∧
      (summary.tallyAt (database, typeName)).size =
        ((ofType typeName keys).map fun key => (Value.joined key.2).size).sum
  listed : options.findBig = true → ∀ typeName,
    (summary.tallyAt (database, typeName)).big.reverse =
      (ofType typeName keys).flatMap (listing options)
  whole : ∀ typeName, (typeName = "List" → ∀ key ∈ ofType typeName keys, key.2.length = 1) →
    (options.countKeys = true → options.findBig = false →
      (summary.tallyAt (database, typeName)).count = (ofType typeName keys).length) ∧
    (options.findBig = true → (summary.tallyAt (database, typeName)).big.reverse =
      ((ofType typeName keys).filter fun key => options.IsBig (Value.joined key.2)).map wholeBig)

/-! ### From items to keys -/

theorem occurrences_values (database : Nat) (name : Bytes) (moment : Int) (parts : List Value)
    (records : List Record) :
    occurrences database (parts.map (.keyed ⟨name, moment⟩) ++ records) =
      occurrencesOf database (name, parts) ++ occurrences database records := by
  induction parts with
  | nil => rfl
  | cons part parts ih =>
      rw [List.map_cons, List.cons_append, occurrences, ih]
      rfl

theorem occurrences_items {database : Nat} {withAux : Bool} {before items : List Item}
    (h : ∀ item ∈ items, item.selector? = none) (records : List Record) :
    occurrences database (Item.recordsOf withAux before items ++ records) =
      (items.filterMap Item.key?).flatMap (occurrencesOf database) ++
        occurrences database records := by
  induction items generalizing before with
  | nil => rfl
  | cons item items ih =>
      obtain ⟨hitem, hitems⟩ := List.forall_mem_cons.1 h
      have hlater := @ih (before ++ [item]) hitems
      rw [Item.recordsOf, List.append_assoc]
      cases item with
      | key name parts =>
          have hkeys : (Item.key name parts :: items).filterMap Item.key? =
              (name, parts) :: items.filterMap Item.key? := rfl
          rw [Item.recordsBehind, occurrences_values, hlater, hkeys, List.flatMap_cons,
            List.append_assoc]
      | selectDb index => cases hitem
      | aux field value =>
          rw [Item.recordsBehind, List.filterMap_cons_none rfl, ← hlater]
          cases withAux <;> rfl
      | resizeDb keys expiring =>
          rw [Item.recordsBehind, List.filterMap_cons_none rfl, ← hlater]
          rfl
      | idle _ | frequency _ | expiry _ | library _ | ending =>
          rw [Item.recordsBehind, List.filterMap_cons_none rfl, ← hlater, List.nil_append]

theorem occurrences_of_oneDatabase {database : Nat} {withAux : Bool} {items : List Item}
    (h : OneDatabase database items) :
    occurrences 0 (Item.recordsOf withAux [] items) =
      (items.filterMap Item.key?).flatMap (occurrencesOf database) := by
  cases h with
  | first h =>
      have hall := @occurrences_items 0 withAux [] items h []
      rwa [List.append_nil, occurrences, List.append_nil] at hall
  | @selected front back _ hfront hback =>
      have hselectors : ∀ item ∈ front, item.selector? = none := fun item hmem => (hfront item hmem).1
      have hkeys : front.filterMap Item.key? = [] :=
        List.filterMap_eq_nil_iff.2 fun item hmem => (hfront item hmem).2
      have hunselected : front.any Item.isSelector = false := by
        rw [List.any_eq_false]
        intro item hmem hselector
        have hnone := hselectors item hmem
        cases item <;> simp_all [Item.isSelector, Item.selector?]
      have hall := @occurrences_items database withAux (front ++ [.selectDb database]) back hback []
      rw [List.append_nil, occurrences, List.append_nil] at hall
      rw [Item.recordsOf_append, occurrences_items hselectors, List.nil_append, Item.recordsOf,
        Item.recordsBehind, hunselected, if_neg Bool.false_ne_true, List.singleton_append, occurrences,
        hall, List.filterMap_append, hkeys, List.filterMap_cons_none rfl]
      rfl

/-! ### From keys to tallies -/

section Keys

variable {options : Options} {database : Nat} {typeName : String} {keys : List (Bytes × List Value)}

/-- What is counted for a type is what is counted of each of its keys. -/
theorem counted_occurrences
    (hparts : ∀ key ∈ keys, ∃ value : Value, value.Parts key.2) :
    counted options (database, typeName) (keys.flatMap (occurrencesOf database)) =
      (ofType typeName keys).flatMap fun key =>
        (key.2.filter options.counts).map (Occurrence.mk database key.1) := by
  induction keys with
  | nil => rfl
  | cons key keys ih =>
      obtain ⟨⟨value, hvalue⟩, hrest⟩ := List.forall_mem_cons.1 hparts
      have hjoined := hvalue.joined_eq
      have hhere : counted options (database, typeName) (occurrencesOf database key) =
          if value.typeName = typeName then
            (key.2.filter options.counts).map (Occurrence.mk database key.1)
          else [] := by
        rw [counted, occurrencesOf, List.filter_map]
        split
        · rename_i htype
          refine congrArg _ (List.filter_congr fun part hmem => ?_)
          simp [Occurrence.place, hvalue.typeName_eq hmem, htype]
        · rename_i htype
          rw [List.map_eq_nil_iff, List.filter_eq_nil_iff]
          intro part hmem
          simp [Occurrence.place, hvalue.typeName_eq hmem, htype]
      rw [List.flatMap_cons, counted_append, hhere, ih hrest, ofType, ofType, List.filter_cons, hjoined]
      split <;> simp_all

theorem ofType_parts (hparts : ∀ key ∈ keys, ∃ value : Value, value.Parts key.2) :
    ∀ key ∈ ofType typeName keys, (Value.joined key.2).Parts key.2 ∧
      (Value.joined key.2).typeName = typeName := by
  intro key hmem
  obtain ⟨hkey, htype⟩ := List.mem_filter.1 hmem
  obtain ⟨value, hvalue⟩ := hparts key hkey
  refine ⟨?_, of_decide_eq_true htype⟩
  rw [hvalue.joined_eq]
  exact hvalue

theorem Tally.big_of (hfind : options.findBig = true) (found : List Occurrence) :
    (Tally.of options found).big.reverse = found.map Occurrence.big := by
  rw [Tally.of, if_pos hfind, List.reverse_reverse]

theorem counts_of_findBig (hfind : options.findBig = true) :
    options.counts = fun value => decide (options.IsBig value) := by
  funext value
  rw [Options.counts, if_pos hfind]

theorem counts_of_countKeys (hcount : options.countKeys = true) (hfind : options.findBig = false) :
    options.counts = fun _ => true := by
  funext value
  rw [Options.counts, hfind, if_neg Bool.false_ne_true, hcount]

theorem flatMap_listing (h : ∀ key ∈ keys, key.2 = [Value.joined key.2]) :
    keys.flatMap (listing options) =
      (keys.filter fun key => options.IsBig (Value.joined key.2)).map wholeBig := by
  induction keys with
  | nil => rfl
  | cons key keys ih =>
      obtain ⟨hkey, hkeys⟩ := List.forall_mem_cons.1 h
      have hfilter : key.2.filter (options.IsBig ·) =
          if options.IsBig (Value.joined key.2) then [Value.joined key.2] else [] := by
        rw [congrArg (List.filter _) hkey, List.filter_singleton, Bool.cond_decide]
      rw [List.flatMap_cons, ih hkeys, listing, hfilter, List.filter_cons]
      by_cases hbig : options.IsBig (Value.joined key.2)
      · rw [if_pos hbig, if_pos (decide_eq_true hbig)]
        rfl
      · rw [if_neg hbig, if_neg (mt of_decide_eq_true hbig)]
        rfl

section Described

variable {summary : Summary} (hparts : ∀ key ∈ keys, ∃ value : Value, value.Parts key.2)
  (h : Accounts options (keys.flatMap (occurrencesOf database)) summary)

include hparts h

theorem Accounts.counts (hcount : options.countKeys = true) (hfind : options.findBig = false)
    (typeName : String) :
    (summary.tallyAt (database, typeName)).count =
        ((ofType typeName keys).map fun key => key.2.length).sum ∧
      (summary.tallyAt (database, typeName)).size =
        ((ofType typeName keys).map fun key => (Value.joined key.2).size).sum := by
  rw [h.tally, counted_occurrences hparts, counts_of_countKeys hcount hfind]
  constructor
  · simp [Tally.of, List.length_flatMap]
  · have hsizes : ∀ key ∈ ofType typeName keys,
        (Value.joined key.2).size = (key.2.map Value.size).sum := fun key hmem =>
      (ofType_parts hparts key hmem).1.size_eq
    rw [List.map_congr_left hsizes]
    simp [Tally.of, List.flatMap_def, List.sum_flatten, Function.comp_def]

theorem Accounts.lists (hfind : options.findBig = true) (typeName : String) :
    (summary.tallyAt (database, typeName)).big.reverse =
      (ofType typeName keys).flatMap (listing options) := by
  rw [h.tally, Tally.big_of hfind, counted_occurrences hparts, counts_of_findBig hfind,
    List.map_flatMap]
  refine List.flatMap_congr fun key _ => ?_
  rw [listing, List.map_map]
  rfl

theorem Accounts.describes : Describes options database keys summary := by
  refine ⟨?_, h.nodup, h.counts hparts, h.lists hparts, ?_⟩
  · intro place hmem
    obtain ⟨occurrence, hfound⟩ := List.exists_mem_of_ne_nil _ ((h.place place).1 hmem)
    obtain ⟨hoccurs, hplace⟩ := List.mem_filter.1 hfound
    obtain ⟨key, _, hkey⟩ := List.mem_flatMap.1 hoccurs
    obtain ⟨part, _, rfl⟩ := List.mem_map.1 hkey
    simp only [Bool.and_eq_true, decide_eq_true_eq] at hplace
    rw [← hplace.1]
    rfl
  · intro typeName hone
    have hwhole : ∀ key ∈ ofType typeName keys, key.2 = [Value.joined key.2] := by
      intro key hmem
      obtain ⟨hvalue, htype⟩ := ofType_parts hparts key hmem
      exact hvalue.eq_singleton fun hlist => hone (htype.symm.trans hlist) key hmem
    constructor
    · intro hcount hfind
      have hlengths : ∀ key ∈ ofType typeName keys, key.2.length = 1 := by
        intro key hmem
        rw [hwhole key hmem]
        rfl
      rw [(h.counts hparts hcount hfind typeName).1, List.map_congr_left hlengths]
      simp
    · intro hfind
      rw [h.lists hparts hfind, flatMap_listing hwhole]

end Described

end Keys

theorem isTakeable_of_recordsOf {withAux : Bool} {before items : List Item}
    (hserver : ∀ field value, .aux field value ∈ items → Server.Says field value) :
    ∀ record ∈ Item.recordsOf withAux before items, IsTakeable record := by
  induction items generalizing before with
  | nil => exact nofun
  | cons item items ih =>
      rw [Item.recordsOf, List.forall_mem_append]
      refine ⟨fun record hmem => ?_, ih fun field value hmem =>
        hserver field value (List.mem_cons_of_mem _ hmem)⟩
      cases record with
      | aux field value =>
          apply hserver
          cases item <;> simp_all [Item.recordsBehind]
      | keyed | selectDb | resizeDb => trivial

end Summary

/-- **Summaries of keys.** A snapshot whose keys are in one database, and in which the server's numbers
are numbers, has a summary, and it says of the keys what can be told from their parts. -/
theorem Scan.summarise_describes {options : Summary.Options} {source : Source} {items : List Item}
    {database : Nat} (honly : options.onlyServer = false) (hitems : source.HasItems items)
    (hdatabase : OneDatabase database items)
    (hserver : ∀ field value, .aux field value ∈ items → Summary.Server.Says field value) :
    ∃ banner summary, Scan.summarise options false source = .ok (banner, summary) ∧
      Summary.Describes options database (items.filterMap Item.key?) summary := by
  obtain ⟨banner, keys, offset, hrun⟩ := (Summary.takes_receiver honly).run true hitems
    (Summary.isTakeable_of_recordsOf hserver) .empty
  have haccounts := (@Summary.accounts_empty options).foldl_learn (Item.recordsOf true [] items)
  rw [List.nil_append] at haccounts
  have hparts : ∀ key ∈ items.filterMap Item.key?, ∃ value : Value, value.Parts key.2 := by
    intro key hmem
    obtain ⟨item, hitem, hkey⟩ := List.mem_filterMap.1 hmem
    obtain ⟨header, cursor, _, hat⟩ := hitems
    have hhas := hat.hasParts hitem
    cases item <;> simp_all [Item.key?, Item.HasParts]
    subst hkey
    exact hhas
  have hkeys : Summary.occurrences Summary.empty.database (Item.recordsOf true [] items) = _ :=
    Summary.occurrences_of_oneDatabase hdatabase
  rw [hkeys] at haccounts
  refine ⟨banner, _, ?_, haccounts.describes hparts⟩
  rw [Scan.summarise, StateT.run, hrun]
  rfl

/-- One key with a list of two nodes counts twice. Two elements are enough for it to be big, but it is
not listed, for neither node has two. -/
theorem Scan.summarise_describes_two_nodes :
    ∃ source : Source, ∃ items : List Item,
      source.input = headerOf 9 ++ [14, 1, 107, 2, 14, 14, 0, 0, 0, 10, 0, 0, 0, 1, 0, 0, 1, 97, 0xFF,
        14, 14, 0, 0, 0, 10, 0, 0, 0, 1, 0, 0, 1, 98, 0xFF, 0xFF] ∧
      items = [.key [107] [.list [[97]], .list [[98]]]] ∧ source.HasItems items ∧
      OneDatabase 0 items ∧
      (∀ field value, .aux field value ∈ items → Summary.Server.Says field value) ∧
      (∃ banner summary,
        Scan.summarise ⟨false, true, false, 0, []⟩ false source = .ok (banner, summary) ∧
          (summary.tallyAt (0, "List")).count = 2 ∧ (summary.tallyAt (0, "List")).size = 2) ∧
      ∃ banner summary,
        Scan.summarise ⟨false, true, true, 0, [("List", ⟨0, 2⟩)]⟩ false source =
            .ok (banner, summary) ∧
          (summary.tallyAt (0, "List")).big.reverse = [] ∧
            Summary.Options.IsBig ⟨false, true, true, 0, [("List", ⟨0, 2⟩)]⟩
              (.list [[97], [98]]) := by
  let source : Source := .ofBytes (headerOf 9 ++
    [14, 1, 107, 2, 14, 14, 0, 0, 0, 10, 0, 0, 0, 1, 0, 0, 1, 97, 0xFF,
      14, 14, 0, 0, 0, 10, 0, 0, 0, 1, 0, 0, 1, 98, 0xFF, 0xFF])
  let items : List Item := [.key [107] [.list [[97]], .list [[98]]]]
  have hheader : Decoder.header.run source.start = .done (headerOf 9) ⟨9, source.input.drop 9⟩ := rfl
  have hkey : Item.decoder.run ⟨9, source.input.drop 9⟩ =
      .done (.key [107] [.list [[97]], .list [[98]]]) ⟨43, [0xFF]⟩ := rfl
  have hending : Item.decoder.run ⟨43, [0xFF]⟩ = .done .ending ⟨44, []⟩ := rfl
  have hitems : source.HasItems items := ⟨_, _, hheader, .item hkey nofun (.ending hending)⟩
  have hdatabase : OneDatabase 0 items :=
    .first fun item hmem => by rw [List.mem_singleton.1 hmem]; rfl
  have hserver : ∀ field value, .aux field value ∈ items → Summary.Server.Says field value := by
    intro field value hmem
    cases List.mem_singleton.1 hmem
  refine ⟨source, items, rfl, rfl, hitems, hdatabase, hserver, ?_, ?_⟩
  · obtain ⟨banner, summary, hrun, hdescribes⟩ :=
      @Scan.summarise_describes ⟨false, true, false, 0, []⟩ _ _ _ rfl hitems hdatabase hserver
    obtain ⟨hcount, hsize⟩ := hdescribes.counted rfl rfl "List"
    exact ⟨banner, summary, hrun, hcount, hsize⟩
  · obtain ⟨banner, summary, hrun, hdescribes⟩ :=
      @Scan.summarise_describes ⟨false, true, true, 0, [("List", ⟨0, 2⟩)]⟩ _ _ _ rfl hitems hdatabase
        hserver
    exact ⟨banner, summary, hrun, hdescribes.listed rfl "List", by decide⟩

end RedisSnapshot
