import RedisSnapshot.Proofs.Load.Handing
import RedisSnapshot.Proofs.Load.Placed
import RedisSnapshot.Proofs.Load.Program

/-!
# Keys that arrive whole

A load that goes well may have deleted some of its parcels, and the keys in them are missing behind
it. A key whose records are all in one parcel is there whole or not at all. A list that is stored in
nodes has a record for each of them, and if these are spread over several parcels, then a parcel that
is written behind one that was deleted leaves a part of the list.
-/

namespace RedisSnapshot

theorem Value.Parts.unique {first second : Value} {parts : List Value} (hfirst : first.Parts parts)
    (hsecond : second.Parts parts) : first = second := by
  cases hfirst with
  | chain => exact (Store.eq_list_of_parts _ hsecond).symm
  | whole =>
      generalize hparts : [first] = parts at hsecond
      cases hsecond with
      | whole => exact (List.cons.inj hparts).1
      | chain => exact Store.eq_list_of_parts _ (hparts ▸ .whole)

/-- The elements of a list at a store. -/
def Store.Slot.elements? (slot : Store.Slot) : Option (List Bytes) :=
  match slot.content with
  | .list elements => some elements
  | .string _ | .set _ | .hash _ | .sortedSet _ | .stream _ => none

namespace Load

open Store

/-- What has become of a key with these parts at a moment behind the load. Its values behind the last
parcel of it that was deleted are in one database, and nothing else is there under its name. -/
def Remains (options : Options) (now : Int) (store : Store) (sent : List (Parcel × Fate))
    (name : Bytes) (parts : List Value) : Prop :=
  survivors name sent <:+ parts ∧
    ∃ (database : Nat) (moment : Int) (present : Value), present.Parts (survivors name sent) ∧
      Rebuilt options now ⟨name, moment⟩ present (seen now (store.slots database name)) ∧
        ∀ other ≠ database, seen now (store.slots other name) = none

/-- What can be seen of a key is the whole value. -/
def IsWhole (options : Options) (now : Int) (store : Store) (name : Bytes) (value : Value) : Prop :=
  ∀ database, ∀ found ∈ seen now (store.slots database name),
    found.content.Holds options.keepDeleted value

theorem Remains.isWhole {options : Options} {now : Int} {store : Store}
    {sent : List (Parcel × Fate)} {name : Bytes} {value : Value} {parts : List Value}
    (h : Remains options now store sent name parts) (hparts : value.Parts parts)
    (hall : survivors name sent = [] ∨ survivors name sent = parts) :
    IsWhole options now store name value := by
  obtain ⟨_, database, moment, present, hpresent, hslot, hothers⟩ := h
  intro other found hfound
  by_cases hother : other = database
  · rw [hother] at hfound
    rcases hall with hnone | hall
    · rw [hnone] at hpresent
      rw [eq_list_of_parts [] hpresent] at hslot
      rw [hslot.eq_none_of_list_nil] at hfound
      cases hfound
    · rw [hall] at hpresent
      rw [hpresent.unique hparts] at hslot
      rw [Option.mem_def.1 hfound] at hslot
      cases hslot with
      | held _ hcontent _ => exact hcontent
  · rw [hothers other hother] at hfound
    cases hfound

/-- How the keys of a snapshot have arrived behind a load. -/
def KeysArrive (options : Options) (clock : Nat → Int) (destination : Destination)
    (items : List Item) (records : List Record) (log : List Pipeline) : Prop :=
  ∃ sent : List (Parcel × Fate), sent.map Prod.fst = parcels options records ∧
    Fares options destination sent log ∧
      ∀ name parts, .key name parts ∈ items → ∃ value : Value, value.Parts parts ∧
        ∀ now, clock log.length ≤ now →
          Remains options now (destination.contents clock log) sent name parts ∧
            (parts.length ≤ 1 ∨ Unsplit name sent →
              IsWhole options now (destination.contents clock log) name value)

theorem keysArrive_of_sends {options : Options} {clock : Nat → Int} {destination : Destination}
    {items : List Item} {source : Source} {withAux : Bool} {log : List Pipeline}
    (hserves : destination.Serves clock) (hclock : Destination.NeverGoesBack clock) (hitems : source.HasItems items)
    (hdistinct : (items.filterMap Item.name?).Nodup)
    (h : Sends options destination (parcels options (Item.recordsOf withAux [] items)) log) :
    KeysArrive options clock destination items (Item.recordsOf withAux [] items) log := by
  obtain ⟨sent, hsent, hfares⟩ := fares_of_sends h
  refine ⟨sent, hsent, hfares, fun name parts hmem => ?_⟩
  obtain ⟨_, _, _, hat⟩ := hitems
  obtain ⟨value, hparts⟩ : ∃ value : Value, value.Parts parts := hat.hasParts hmem
  refine ⟨value, hparts, fun now hnow => ?_⟩
  obtain ⟨moment, front, back, hrecords, hfront, hback⟩ :=
    Item.recordsOf_key withAux hdistinct hmem
  obtain ⟨database, hplaces, hvalues⟩ :=
    parcels_of_key options ⟨name, moment⟩ parts hfront hback
  rw [← hrecords, ← hsent] at hplaces hvalues
  rw [List.flatMap_map] at hvalues
  have hplaced : ∀ entry ∈ sent, entry.1.Places database ⟨name, moment⟩ :=
    fun entry hentry => hplaces entry.1 (List.mem_map_of_mem hentry)
  obtain ⟨hothers, present, hpresent, hslot⟩ :=
    hfares.rebuilt hserves hclock hparts hplaced (hvalues ▸ List.prefix_rfl)
  have hsuffix : survivors name sent <:+ parts := hvalues ▸ survivors_suffix name sent
  have hremains : Remains options now (destination.contents clock log) sent name parts :=
    ⟨hsuffix, database, moment, present, hpresent, hslot.later hnow, fun other hother => by
      rw [hothers other hother]
      rfl⟩
  refine ⟨hremains, fun hcondition => hremains.isWhole hparts ?_⟩
  rcases hcondition with hone | hunsplit
  · by_cases hempty : survivors name sent = []
    · exact .inl hempty
    · refine .inr (hsuffix.eq_of_length_le ?_)
      exact Nat.le_trans hone (List.length_pos_iff.2 hempty)
  · have hkept := survivors_of_unsplit hunsplit
    rw [← hvalues]
    exact hkept

/-- **Whole or not at all.** Behind a load with one worker that has gone well, a store that was empty
has every key of a snapshot with distinct keys either whole or not at all, unless a parcel with a
part of the key was written behind one that was deleted; then it has the parts behind that. This
holds whoever takes which step when, and the program's own schedule is one of those. -/
theorem keys_arrive_whole {options : Options} {clock : Nat → Int} {destination : Destination}
    {destinations : Destinations (StateM (List Pipeline))} {source : Source} {items : List Item}
    {withAux : Bool} (hone : options.workerCount = 1) (hserves : destination.Serves clock)
    (hclock : Destination.NeverGoesBack clock) (hsend : destinations.send = destination.send)
    (hpause : destinations.pause = pure ()) (hitems : source.HasItems items)
    (hdistinct : (items.filterMap Item.name?).Nodup) :
    (∀ (handing ending : List Move) (final : System), Plain (handing ++ ending) →
      final = (System.start options).run destination (handing ++ .close :: ending) →
        final.isOver = true → final.pool.call = .returned (.ok ()) →
          final.handed = Item.recordsOf withAux [] items →
            KeysArrive options clock destination items final.handed final.log) ∧
      ∀ (banner : String) (pool : Pool) (log : List Pipeline),
        run destinations withAux source (.start options false) [] = ((.ok banner, pool), log) →
          KeysArrive options clock destination items (Item.recordsOf withAux [] items) log := by
  have hany : ∀ (handing ending : List Move) (final : System), Plain (handing ++ ending) →
      final = (System.start options).run destination (handing ++ .close :: ending) →
        final.isOver = true → final.pool.call = .returned (.ok ()) →
          final.handed = Item.recordsOf withAux [] items →
            KeysArrive options clock destination items final.handed final.log := by
    intro handing ending final hplain hfinal hover hcall hhanded
    have hsends := sends_parcels hone hplain hfinal hover hcall
    rw [hhanded] at hsends ⊢
    exact keysArrive_of_sends hserves hclock hitems hdistinct hsends
  refine ⟨hany, fun banner pool log hrun => ?_⟩
  obtain ⟨handing, ending, hplain, final, hfinal, hover, hcall, hhanded, rfl⟩ :=
    moves_of_run hsend hpause hitems hrun
  rw [← hhanded]
  exact hany handing ending final hplain hfinal hover hcall hhanded

/-- A list in three nodes and batches of one record. The second node is not written, so the key is
deleted, and then the third one is written. -/
theorem keys_arrive_whole_three_nodes :
    ∃ (banner : String) (pool : Pool) (log : List Pipeline),
      run (Destination.storing (fun _ => 0) fun log => log.length = 1).direct false
          (.ofBytes (headerOf 9 ++
            [14, 1, 107, 3, 14, 14, 0, 0, 0, 10, 0, 0, 0, 1, 0, 0, 1, 97, 0xFF,
              14, 14, 0, 0, 0, 10, 0, 0, 0, 1, 0, 0, 1, 98, 0xFF,
              14, 14, 0, 0, 0, 10, 0, 0, 0, 1, 0, 0, 1, 99, 0xFF, 0xFF]))
          (.start { batch := 1, attempts := 1 } false) [] = ((.ok banner, pool), log) ∧
        KeysArrive { batch := 1, attempts := 1 } (fun _ => 0)
          (.storing (fun _ => 0) fun log => log.length = 1)
          [.key [107] [.list [[97]], .list [[98]], .list [[99]]]]
          [.keyed ⟨[107], 0⟩ (.list [[97]]), .keyed ⟨[107], 0⟩ (.list [[98]]),
            .keyed ⟨[107], 0⟩ (.list [[99]])] log ∧
        (seen 0 (((Destination.storing (fun _ => 0) fun log => log.length = 1).contents
          (fun _ => 0) log).slots 0 [107])).bind Slot.elements? = some [[99]] := by
  let options : Options := { batch := 1, attempts := 1 }
  let destination : Destination := .storing (fun _ => 0) fun log => log.length = 1
  let source : Source := .ofBytes (headerOf 9 ++
    [14, 1, 107, 3, 14, 14, 0, 0, 0, 10, 0, 0, 0, 1, 0, 0, 1, 97, 0xFF,
      14, 14, 0, 0, 0, 10, 0, 0, 0, 1, 0, 0, 1, 98, 0xFF,
      14, 14, 0, 0, 0, 10, 0, 0, 0, 1, 0, 0, 1, 99, 0xFF, 0xFF])
  let items : List Item := [.key [107] [.list [[97]], .list [[98]], .list [[99]]]]
  have hheader : Decoder.header.run source.start = .done (headerOf 9) ⟨9, source.input.drop 9⟩ := rfl
  have hkey : Item.decoder.run ⟨9, source.input.drop 9⟩ =
      .done (.key [107] [.list [[97]], .list [[98]], .list [[99]]]) ⟨58, [0xFF]⟩ := rfl
  have hending : Item.decoder.run ⟨58, [0xFF]⟩ = .done .ending ⟨59, []⟩ := rfl
  have hitems : source.HasItems items :=
    ⟨_, _, hheader, .item hkey nofun (.ending hending)⟩
  have hdistinct : (items.filterMap Item.name?).Nodup := by decide
  obtain ⟨_, hall⟩ := @keys_arrive_whole options (fun _ => 0) destination destination.direct source
    items false rfl (Destination.serves_storing _ _) (fun _ => Int.le_refl 0) rfl rfl hitems hdistinct
  have hok : (run destination.direct false source (.start options false) []).1.1.isOk = true := by
    decide +kernel
  have hslot : (seen 0 ((destination.contents (fun _ => 0)
      (run destination.direct false source (.start options false) []).2).slots 0 [107])).bind
        Slot.elements? = some [[99]] := by
    decide +kernel
  cases hrun : run destination.direct false source (.start options false) [] with
  | mk answer log =>
      obtain ⟨result, pool⟩ := answer
      rw [hrun] at hok hslot
      cases result with
      | error error => cases hok
      | ok banner => exact ⟨banner, pool, log, rfl, hall banner pool log hrun, hslot⟩

end Load

end RedisSnapshot
