import RedisSnapshot.Proofs.Scan.Broken
import RedisSnapshot.Proofs.Scan.Watched
import RedisSnapshot.Proofs.Summary.Report

/-!
# A summary that ends early

A summary that is only about the server has nothing left to learn once it knows all four things that
it asks for, and says so by the answer that a cancelled scan gives as well. What is in force at a place
is told here by looking back over the items: of each field the last value counts. The scan ends behind
the first item where everything is known, whatever comes next. Where there is none it ends as a scan
does that hands over everything, unless a number is none.
-/

namespace RedisSnapshot

namespace Item

/-- What the item says of a field. -/
def said? (field : Bytes) : Item → Option Bytes
  | aux name value => if name = field then some value else none
  | _ => none

/-- A number that the item says about the server is one. -/
def IsSound : Item → Prop
  | aux field value => Summary.Server.Says field value
  | _ => True

end Item

namespace Summary

namespace Server

/-- The last value of a field. -/
def latest? (field : String) (items : List Item) : Option Bytes :=
  items.reverse.findSome? (Item.said? (Text.bytes field))

/-- What the server has said about itself by the end of these items. -/
def inForce (items : List Item) : Server where
  version := (latest? "redis-ver" items).getD []
  bits := ((latest? "redis-bits" items).bind (Decimal.unsigned? (Word.count 32))).getD 0
  created := ((latest? "ctime" items).bind (Decimal.signed? 64)).getD 0
  usedMemory := ((latest? "used-mem" items).bind (Decimal.signed? 64)).getD 0

structure IsKnown (server : Server) : Prop where
  version : server.version ≠ []
  bits : server.bits ≠ 0
  created : server.created ≠ 0
  usedMemory : server.usedMemory ≠ 0

theorem isComplete_iff {server : Server} : server.isComplete = true ↔ server.IsKnown := by
  rw [isComplete]
  constructor
  · intro h
    simp only [Bool.and_eq_true, bne_iff_ne, Bool.not_eq_true', List.isEmpty_eq_false_iff] at h
    exact ⟨h.1.1.1, h.1.1.2, h.1.2, h.2⟩
  · rintro ⟨hversion, hbits, hcreated, husedMemory⟩
    simp [hversion, hbits, hcreated, husedMemory]

theorem latest?_append (field : String) (items : List Item) (item : Item) :
    latest? field (items ++ [item]) =
      (item.said? (Text.bytes field)).or (latest? field items) := by
  rw [latest?, List.reverse_append, List.reverse_singleton, List.singleton_append,
    List.findSome?_cons]
  cases item.said? (Text.bytes field) <;> rfl

theorem latest?_aux (name : String) (items : List Item) (field value : Bytes) :
    latest? name (items ++ [.aux field value]) =
      if field = Text.bytes name then some value else latest? name items := by
  rw [latest?_append, Item.said?]
  split <;> rfl

/-- Only an auxiliary field changes what is in force. -/
theorem inForce_append {item : Item} (h : ∀ field, item.said? field = none) (items : List Item) :
    inForce (items ++ [item]) = inForce items := by
  have hlatest : ∀ field, latest? field (items ++ [item]) = latest? field items := by
    intro field
    rw [latest?_append, h, Option.none_or]
  simp only [inForce, hlatest]

/-- What the last field says is in force behind it. -/
theorem update_inForce {field value : Bytes} (h : Says field value) (items : List Item) :
    (inForce items).update field value = .ok (inForce (items ++ [.aux field value])) := by
  have hnames : ["redis-ver", "redis-bits", "ctime", "used-mem"].Pairwise
      fun first second => Text.bytes first ≠ Text.bytes second := by decide
  simp only [List.pairwise_cons, List.mem_cons, List.not_mem_nil, or_false, forall_eq_or_imp,
    forall_eq, false_implies, implies_true, List.Pairwise.nil, and_true] at hnames
  obtain ⟨⟨hverBits, hverCreated, hverUsed⟩, ⟨hbitsCreated, hbitsUsed⟩, hcreatedUsed⟩ := hnames
  rw [update]
  simp only [inForce, latest?_aux]
  by_cases hver : field = Text.bytes "redis-ver"
  · subst hver
    simp [hverBits, hverCreated, hverUsed]
    rfl
  · by_cases hbits : field = Text.bytes "redis-bits"
    · obtain ⟨bits, hvalue⟩ := Option.isSome_iff_exists.1 (h.bits hbits)
      subst hbits
      simp [hverBits.symm, hbitsCreated, hbitsUsed, hvalue, number]
    · by_cases hcreated : field = Text.bytes "ctime"
      · obtain ⟨created, hvalue⟩ := Option.isSome_iff_exists.1 (h.created hcreated)
        subst hcreated
        simp [hverCreated.symm, hbitsCreated.symm, hcreatedUsed, hvalue, number]
      · by_cases hused : field = Text.bytes "used-mem"
        · obtain ⟨used, hvalue⟩ := Option.isSome_iff_exists.1 (h.usedMemory hused)
          subst hused
          simp [hverUsed.symm, hbitsUsed.symm, hcreatedUsed.symm, hvalue, number]
        · simp [hver, hbits, hcreated, hused]
          rfl

/-- What is no number is refused under the name of its field. -/
theorem update_of_not_says {field value : Bytes} (h : ¬ Says field value) :
    ∃ name ∈ ["redis-bits", "ctime", "used-mem"], field = Text.bytes name ∧
      ∀ server : Server, server.update field value = .error (.format (.auxNumber name value)) := by
  have hnone : (field = Text.bytes "redis-bits" ∧ Decimal.unsigned? (Word.count 32) value = none) ∨
      (field = Text.bytes "ctime" ∧ Decimal.signed? 64 value = none) ∨
        field = Text.bytes "used-mem" ∧ Decimal.signed? 64 value = none := by
    by_contra hnone
    simp only [not_or, not_and, ← ne_eq, ← Option.isSome_iff_ne_none] at hnone
    exact h ⟨hnone.1, hnone.2.1, hnone.2.2⟩
  rcases hnone with ⟨rfl, hvalue⟩ | ⟨rfl, hvalue⟩ | ⟨rfl, hvalue⟩
  · refine ⟨_, List.mem_cons_self, rfl, fun server => ?_⟩
    rw [update, if_neg (by decide), if_pos rfl, hvalue]
    rfl
  · refine ⟨_, List.mem_cons_of_mem _ List.mem_cons_self, rfl, fun server => ?_⟩
    rw [update, if_neg (by decide), if_neg (by decide), if_pos rfl, hvalue]
    rfl
  · refine ⟨_, List.mem_cons_of_mem _ (List.mem_cons_of_mem _ List.mem_cons_self), rfl,
      fun server => ?_⟩
    rw [update, if_neg (by decide), if_neg (by decide), if_neg (by decide), if_pos rfl, hvalue]
    rfl

end Server

/-! ### What a summary has learned on the way -/

/-- The summary goes on behind these items: they are sound, and not everything is known behind any of
them. -/
structure Continues (items : List Item) : Prop where
  sound : ∀ item ∈ items, item.IsSound
  unknown : ∀ front, front <+: items → ¬ (Server.inForce front).IsKnown

/-- Behind this item everything is known for the first time. -/
structure Completes (items : List Item) (item : Item) : Prop where
  continues : Continues items
  sound : item.IsSound
  known : (Server.inForce (items ++ [item])).IsKnown

section Learned

variable {options : Options} {items : List Item} {item : Item}

theorem Continues.nil : Continues [] := by
  refine ⟨nofun, fun front hfront hknown => ?_⟩
  rw [List.prefix_nil.1 hfront] at hknown
  exact hknown.version rfl

theorem continues_append :
    Continues (items ++ [item]) ↔
      Continues items ∧ item.IsSound ∧ ¬ (Server.inForce (items ++ [item])).IsKnown := by
  constructor
  · intro h
    refine ⟨⟨fun other hmem => h.sound other (List.mem_append_left _ hmem), fun front hfront =>
      h.unknown front (hfront.trans (List.prefix_append _ _))⟩, ?_, ?_⟩
    · exact h.sound item (List.mem_append_right _ List.mem_cons_self)
    · exact h.unknown _ (List.prefix_refl _)
  · rintro ⟨⟨hsound, hunknown⟩, hitem, hlast⟩
    refine ⟨List.forall_mem_append.2 ⟨hsound, List.forall_mem_singleton.2 hitem⟩, ?_⟩
    intro front hfront
    rcases List.prefix_concat_iff.1 hfront with rfl | hfront
    · exact hlast
    · exact hunknown front hfront

theorem recordsBehind_other {item : Item} (h : ∀ field value, item ≠ .aux field value)
    (items : List Item) :
    (∀ record ∈ item.recordsBehind true items, ∀ field value, record ≠ .aux field value) ∧
      ∀ field, item.said? field = none := by
  cases item with
  | aux field value => exact absurd rfl (h field value)
  | resizeDb keys expiring =>
      refine ⟨List.forall_mem_singleton.2 fun field value hsame => ?_, fun _ => rfl⟩
      cases hsame
  | selectDb index =>
      refine ⟨?_, fun _ => rfl⟩
      rw [Item.recordsBehind]
      split
      · exact List.forall_mem_nil _
      · refine List.forall_mem_singleton.2 fun field value hsame => ?_
        cases hsame
  | key name values =>
      refine ⟨fun record hmem field value hsame => ?_, fun _ => rfl⟩
      obtain ⟨shown, _, rfl⟩ := List.mem_map.1 hmem
      cases hsame
  | idle _ | frequency _ | expiry _ | library _ | ending =>
      exact ⟨List.forall_mem_nil _, fun _ => rfl⟩

/-- Nothing but a field can complete what is known. -/
theorem Completes.exists_aux (h : Completes items item) :
    ∃ field value, item = .aux field value := by
  by_contra hother
  simp only [not_exists] at hother
  have hknown := h.known
  rw [Server.inForce_append (recordsBehind_other hother items).2] at hknown
  exact h.continues.unknown items (List.prefix_refl _) hknown

/-- The summary of all that these items have. -/
def behind (options : Options) (items : List Item) : Summary :=
  (Item.recordsOf true [] items).foldl (learn options) .empty

theorem behind_append (items : List Item) (item : Item) :
    behind options (items ++ [item]) =
      (item.recordsBehind true items).foldl (learn options) (behind options items) := by
  rw [behind, Scan.recordsOf_concat, List.foldl_append]
  rfl

theorem accounts_behind (items : List Item) :
    Accounts options (occurrences 0 (Item.recordsOf true [] items)) (behind options items) :=
  accounts_empty.foldl_learn _

/-- A record that says nothing of the server is taken, and leaves what is known of it. -/
theorem take_other {record : Record} (h : ∀ field value, record ≠ .aux field value)
    (summary : Summary) :
    (receiver options false).take record summary = (.ok (), learn options summary record) ∧
      (learn options summary record).server = summary.server ∧
        (learn options summary record).isSatisfied = summary.isSatisfied := by
  cases record with
  | keyed key value =>
      obtain ⟨tallies, hlearn⟩ := exists_tallies_learn_keyed options summary key value
      refine ⟨rfl, ?_⟩
      rw [hlearn]
      exact ⟨rfl, rfl⟩
  | selectDb index => exact ⟨rfl, rfl, rfl⟩
  | resizeDb keys expiring => exact ⟨rfl, rfl, rfl⟩
  | aux field value => exact absurd rfl (h field value)

theorem deliver_other {records : List Record} (h : ∀ record ∈ records, ∀ field value,
    record ≠ .aux field value) (summary : Summary) :
    Scan.deliver (receiver options false) records summary =
        (.ok (), records.foldl (learn options) summary) ∧
      (records.foldl (learn options) summary).server = summary.server ∧
        (records.foldl (learn options) summary).isSatisfied = summary.isSatisfied := by
  induction records generalizing summary with
  | nil => exact ⟨rfl, rfl, rfl⟩
  | cons record records ih =>
      obtain ⟨hrecord, hrest⟩ := List.forall_mem_cons.1 h
      obtain ⟨htake, hserver, hsatisfied⟩ := @take_other options record hrecord summary
      obtain ⟨hdeliver, hlater, hlast⟩ := ih hrest (learn options summary record)
      refine ⟨?_, hlater.trans hserver, hlast.trans hsatisfied⟩
      rw [Scan.deliver, Scan.bind_of_eq htake]
      exact hdeliver

section Taken

variable (honly : options.onlyServer = true) {summary : Summary}
  (hserver : summary.server = Server.inForce items)

include honly hserver

theorem take_aux {field value : Bytes} (h : Server.Says field value) :
    (receiver options false).take (.aux field value) summary =
      if (Server.inForce (items ++ [.aux field value])).isComplete then
        (.error .cancelled,
          { summary with server := Server.inForce (items ++ [.aux field value]), isSatisfied := true })
      else (.ok (), { summary with server := Server.inForce (items ++ [.aux field value]) }) := by
  change summary.add options (.aux field value) = _
  rw [add, hserver, Server.update_inForce h]
  dsimp only
  rw [honly, Bool.true_and]

/-- Behind an item that leaves something to learn the summary knows what is in force. -/
theorem deliver_unknown (hsatisfied : summary.isSatisfied = false) (hsound : item.IsSound)
    (hunknown : ¬ (Server.inForce (items ++ [item])).IsKnown) :
    Scan.deliver (receiver options false) (item.recordsBehind true items) summary =
        (.ok (), (item.recordsBehind true items).foldl (learn options) summary) ∧
      ((item.recordsBehind true items).foldl (learn options) summary).server =
          Server.inForce (items ++ [item]) ∧
        ((item.recordsBehind true items).foldl (learn options) summary).isSatisfied = false := by
  by_cases haux : ∃ field value, item = .aux field value
  · obtain ⟨field, value, rfl⟩ := haux
    have htake := take_aux honly hserver hsound
    rw [← Server.isComplete_iff] at hunknown
    rw [if_neg hunknown] at htake
    have hlearn : learn options summary (.aux field value) = _ := congrArg Prod.snd htake
    change Scan.deliver (receiver options false) [.aux field value] summary =
        (_, learn options summary _) ∧
      (learn options summary _).server = _ ∧ (learn options summary _).isSatisfied = _
    rw [hlearn, Scan.deliver, Scan.bind_of_eq htake]
    exact ⟨rfl, rfl, hsatisfied⟩
  · simp only [not_exists] at haux
    obtain ⟨hrecords, hsaid⟩ := recordsBehind_other haux items
    obtain ⟨hdeliver, hlater, hlast⟩ := @deliver_other options _ hrecords summary
    refine ⟨hdeliver, ?_, hlast.trans hsatisfied⟩
    rw [hlater, hserver, Server.inForce_append hsaid]

/-- Behind the item that completes it the summary asks for the scan to end. -/
theorem deliver_known (h : Completes items item) :
    Scan.deliver (receiver options false) (item.recordsBehind true items) summary =
        (.error .cancelled, (item.recordsBehind true items).foldl (learn options) summary) ∧
      ((item.recordsBehind true items).foldl (learn options) summary).server =
          Server.inForce (items ++ [item]) ∧
        ((item.recordsBehind true items).foldl (learn options) summary).isSatisfied = true := by
  obtain ⟨field, value, rfl⟩ := h.exists_aux
  have htake := take_aux honly hserver h.sound
  rw [if_pos (Server.isComplete_iff.2 h.known)] at htake
  have hlearn : learn options summary (.aux field value) = _ := congrArg Prod.snd htake
  change Scan.deliver (receiver options false) [.aux field value] summary =
      (_, learn options summary _) ∧
    (learn options summary _).server = _ ∧ (learn options summary _).isSatisfied = _
  rw [hlearn, Scan.deliver, Scan.bind_of_eq htake]
  exact ⟨rfl, rfl, rfl⟩

end Taken

theorem deliver_unsound {field value : Bytes} (h : ¬ Server.Says field value) :
    ∃ name ∈ ["redis-bits", "ctime", "used-mem"], field = Text.bytes name ∧
      ∀ summary, Scan.deliver (receiver options false) (Item.recordsBehind true items (.aux field value))
        summary = (.error (.format (.auxNumber name value)), summary) := by
  obtain ⟨name, hname, hfield, hupdate⟩ := Server.update_of_not_says h
  refine ⟨name, hname, hfield, fun summary => ?_⟩
  have htake : (receiver options false).take (.aux field value) summary =
      (.error (.format (.auxNumber name value)), summary) := by
    change summary.add options (.aux field value) = _
    rw [add, hupdate]
  change Scan.deliver (receiver options false) [.aux field value] summary = _
  rw [Scan.deliver, Scan.bind_of_eq htake]
  rfl

/-- As long as it goes on the summary has taken everything, and knows what is in force. -/
theorem Continues.deliver (h : Continues items) (honly : options.onlyServer = true) :
    Scan.deliver (receiver options false) (Item.recordsOf true [] items) .empty =
        (.ok (), behind options items) ∧
      (behind options items).server = Server.inForce items ∧
        (behind options items).isSatisfied = false := by
  induction items using List.reverseRecOn with
  | nil => exact ⟨rfl, rfl, rfl⟩
  | append_singleton items item ih =>
      obtain ⟨hbefore, hsound, hunknown⟩ := continues_append.1 h
      obtain ⟨hdeliver, hserver, hsatisfied⟩ := ih hbefore
      rw [behind_append, Scan.recordsOf_concat, Scan.deliver_append_of_ok hdeliver]
      exact deliver_unknown honly hserver hsatisfied hsound hunknown

/-- What the summary has taken without an objection leaves it unsatisfied. -/
theorem isSatisfied_of_taken {records : List Record} {summary last : Summary}
    (h : Scan.deliver (receiver options false) records summary = (.ok (), last)) :
    last.isSatisfied = summary.isSatisfied := by
  induction records generalizing summary with
  | nil =>
      cases h
      rfl
  | cons record records ih =>
      by_cases haux : ∃ field value, record = .aux field value
      · obtain ⟨field, value, rfl⟩ := haux
        have htake : (receiver options false).take (.aux field value) summary =
            summary.add options (.aux field value) := rfl
        rw [add] at htake
        cases hupdate : summary.server.update field value with
        | error error =>
            rw [hupdate] at htake
            rw [Scan.deliver, Scan.bind_of_eq htake] at h
            cases h
        | ok server =>
            rw [hupdate] at htake
            dsimp only at htake
            split at htake
            · rw [Scan.deliver, Scan.bind_of_eq htake] at h
              cases h
            · rw [Scan.deliver, Scan.bind_of_eq htake] at h
              have hrest : last.isSatisfied = { summary with server }.isSatisfied := ih h
              exact hrest
      · simp only [not_exists] at haux
        obtain ⟨htake, -, hsatisfied⟩ := @take_other options record haux summary
        rw [Scan.deliver, Scan.bind_of_eq htake] at h
        exact (ih h).trans hsatisfied

end Learned

end Summary

/-! ### What is reported -/

namespace Scan

open Summary

/-- What a scan has come to: that the summary was satisfied is no failure. -/
def judged (scan : Scan) (summary : Summary) : Except Error (String × Summary) :=
  match scan.result with
  | .error .cancelled =>
      if summary.isSatisfied then .ok (scan.banner.getD "", summary) else .error .cancelled
  | .error error => .error error
  | .ok () => .ok (scan.banner.getD "", summary)

theorem summarise_of_run {options : Options} {isCancelled : Bool} {source : Source} {scan : Scan}
    {summary : Summary} (h : run (receiver options isCancelled) true source .empty = (scan, summary)) :
    summarise options isCancelled source = scan.judged summary := by
  rw [summarise, StateT.run, h]
  rfl

/-- Summarises a snapshot whose scan may be cancelled at any time. -/
def summariseUnder (options : Options) (token : Nat → Bool) (source : Source) :
    Except Error (String × Summary) :=
  let found := run ((receiver options false).under token) true source (.empty, 0)
  found.1.judged found.2.1

theorem summariseUnder_constant (options : Options) (isCancelled : Bool) (source : Source) :
    summariseUnder options (fun _ => isCancelled) source = summarise options isCancelled source := by
  have hsame : ∀ state, (receiver options isCancelled).isCancelled state = (isCancelled, state) :=
    fun _ => rfl
  obtain ⟨count, hunder⟩ := run_under_constant hsame true source .empty
  have hreceiver : ((receiver options false).under fun _ => isCancelled) =
      (receiver options isCancelled).under fun _ => isCancelled := rfl
  rw [summariseUnder, hreceiver, hunder]
  exact (summarise_of_run rfl).symm

section Summarise

variable {options : Options} {source : Source} {header : Bytes} {items : List Item} {item : Item}
  {cursor : Cursor}

theorem judged_of_ne {scan : Scan} (h : scan.result ≠ .error .cancelled) (summary : Summary) :
    scan.judged summary = scan.result.map fun _ => (scan.banner.getD "", summary) := by
  rw [judged]
  split
  · rename_i hcancelled
    exact absurd hcancelled h
  · rename_i error _ herror
    rw [herror]
    rfl
  · rename_i hok
    rw [hok]
    rfl

variable (honly : options.onlyServer = true)

include honly

theorem reaches_of_continues (hpasses : Passes source header items cursor) (h : Continues items) :
    Reaches (receiver options false) true source .empty header items cursor (behind options items) :=
  .of_passes hpasses (h.deliver honly).1

theorem summarise_of_completes (hpasses : Passes source header (items ++ [item]) cursor)
    (h : Completes items item) :
    summarise options false source =
      .ok (Text.lossy header, behind options (items ++ [item])) := by
  obtain ⟨place, hbefore, hrun, hitem⟩ := hpasses.of_concat
  obtain ⟨hdeliver, -, hsatisfied⟩ := deliver_known honly (h.continues.deliver honly).2.1 h
  rw [← behind_append] at hdeliver hsatisfied
  have hended := run_eq_of_under (fun _ => rfl)
    ((reaches_of_continues honly hbefore h.continues).run_under_refused (fun _ _ => rfl) hrun hitem
      hdeliver)
  rw [summarise_of_run hended, judged]
  exact if_pos hsatisfied

theorem summarise_of_unsound {field value : Bytes}
    (hpasses : Passes source header (items ++ [.aux field value]) cursor) (h : Continues items)
    (hvalue : ¬ Server.Says field value) :
    ∃ name ∈ ["redis-bits", "ctime", "used-mem"], field = Text.bytes name ∧
      summarise options false source = .error (.format (.auxNumber name value)) := by
  obtain ⟨place, hbefore, hrun, hitem⟩ := hpasses.of_concat
  obtain ⟨name, hname, hfield, hrefused⟩ := @deliver_unsound options items _ _ hvalue
  have hended := run_eq_of_under (fun _ => rfl)
    ((reaches_of_continues honly hbefore h).run_under_refused (fun _ _ => rfl) hrun hitem
      (hrefused _))
  refine ⟨name, hname, hfield, ?_⟩
  rw [summarise_of_run hended]
  rfl

/-- A summary that goes on behind all items is one of the whole stream. -/
theorem summarise_of_continues
    (h : ∀ header items cursor, Passes source header items cursor → Continues items) :
    (∀ error, (recorded true source).1.result = .error error →
        summarise options false source = .error error) ∧
      ((recorded true source).1.result = .ok () →
        ∃ header items cursor after, Passes source header items cursor ∧
          Item.decoder.run cursor = .done .ending after ∧ Continues items ∧
          summarise options false source = .ok (Text.lossy header, behind options items)) := by
  by_cases hheader : ∃ header cursor, Decoder.header.run source.start = .done header cursor
  · obtain ⟨header, cursor, hheader⟩ := hheader
    have hstart : Reaches (receiver options false) true source .empty header [] cursor .empty :=
      .header hheader
    obtain ⟨items, cursor, state, hreaches, hlast⟩ := hstart.exists_last
    have hpasses := hreaches.passes
    have hcontinues := h _ _ _ hpasses
    cases hreaches.taken.symm.trans (hcontinues.deliver honly).1
    rcases hlast with hover | ⟨item, after, error, last, hrun, hitem, hrefused⟩
    · have hended := run_eq_of_under (fun _ => rfl)
        (hreaches.run_under_over (fun _ _ => rfl) hover rfl)
      rw [summarise_of_run hended, judged_of_ne (recorded_ne_cancelled true source)]
      refine ⟨fun error herror => by rw [herror]; rfl, fun hok => ?_⟩
      have hrecorded : recorded true source = _ := hpasses.recorded_eq
      cases hrun : Item.decoder.run cursor with
      | short need after =>
          rw [hrecorded, recordedItems_of_short hrun] at hok
          cases hok
      | failed fault after =>
          rw [hrecorded, recordedItems_of_failed hrun] at hok
          cases hok
      | done item after =>
          cases hover item after hrun
          refine ⟨header, items, cursor, after, hpasses, hrun, hcontinues, ?_⟩
          rw [hrecorded, recordedItems_of_ending hrun]
          rfl
    · -- The summary has taken the item that it is said to refuse.
      have htaken := ((h _ _ _ (hpasses.item hrun hitem)).deliver honly).1
      rw [recordsOf_concat, deliver_append_of_ok hreaches.taken, hrefused] at htaken
      cases htaken
  · simp only [not_exists] at hheader
    obtain ⟨error, offset, hrecorded⟩ := @recorded_of_no_header true source hheader
    have hended : run (receiver options false) true source .empty =
        ((recorded true source).1, .empty) := by
      rw [run_of_headless hheader]
      rfl
    rw [summarise_of_run hended, judged_of_ne (recorded_ne_cancelled true source), hrecorded]
    exact ⟨fun found hfound => by cases hfound; rfl, nofun⟩

theorem summariseUnder_of_fired {token : Nat → Bool}
    (hpasses : Passes source header items cursor) (h : Continues items)
    (hfired : token items.length = true) :
    summariseUnder options token source = .error .cancelled := by
  obtain ⟨scan, records, last, count, hresult, htaken, hrun⟩ :=
    (reaches_of_continues honly hpasses h).run_under_fired (Nat.le_refl _) hfired
  have hunsatisfied : ¬ last.isSatisfied = true := by
    rw [isSatisfied_of_taken htaken]
    exact Bool.false_ne_true
  rw [summariseUnder, hrun, judged, hresult]
  exact if_neg hunsatisfied

/-- What a scan of this summary has come past it has gone on behind. -/
theorem continues_of_reaches {state : Summary}
    (h : Reaches (receiver options false) true source .empty header items cursor state) :
    Continues items := by
  induction h with
  | header _ => exact .nil
  | @item items item cursor after state last hbefore hrun hitem htaken ih =>
      cases hbefore.taken.symm.trans (ih.deliver honly).1
      by_cases hsound : item.IsSound
      · by_cases hknown : (Server.inForce (items ++ [item])).IsKnown
        · have hrefused := (deliver_known honly (ih.deliver honly).2.1 ⟨ih, hsound, hknown⟩).1
          rw [htaken] at hrefused
          cases hrefused
        · exact continues_append.2 ⟨ih, hsound, hknown⟩
      · cases item with
        | aux field value =>
            obtain ⟨name, -, -, hrefused⟩ := @deliver_unsound options items field value hsound
            rw [hrefused] at htaken
            cases htaken
        | _ => exact absurd trivial hsound

end Summarise

end Scan

namespace Summary

open Scan (Passes)

variable {source : Source} {header : Bytes} {items : List Item} {cursor : Cursor}

/-- The summary goes on behind all items if no step of the way keeps it from going on. -/
theorem continues_of_steps (hpasses : Passes source header items cursor)
    (h : ∀ front item after, front ++ [item] <+: items →
      Passes source header (front ++ [item]) after → Continues front →
        item.IsSound ∧ ¬ Completes front item) : Continues items := by
  induction items using List.reverseRecOn generalizing cursor with
  | nil => exact .nil
  | append_singleton items item ih =>
      obtain ⟨place, hbefore, -, -⟩ := hpasses.of_concat
      have hcontinues := ih hbefore fun front other after hfront =>
        h front other after (hfront.trans (List.prefix_append _ _))
      obtain ⟨hsound, hnever⟩ := h items item cursor (List.prefix_refl _) hpasses hcontinues
      exact continues_append.2 ⟨hcontinues, hsound, fun hknown => hnever ⟨hcontinues, hsound, hknown⟩⟩

/-- Where nothing is completed every item is gone on behind, as long as all are sound. -/
theorem continues_of_not_completes (hpasses : Passes source header items cursor)
    (hsound : ∀ item ∈ items, item.IsSound)
    (h : ∀ header items item cursor, Passes source header (items ++ [item]) cursor →
      ¬ Completes items item) : Continues items :=
  continues_of_steps hpasses fun _ item _ hfront hitem _ =>
    ⟨hsound item (hfront.subset (List.mem_append_right _ List.mem_cons_self)), h _ _ _ _ hitem⟩

/-- Either everything is known behind some item, or some number is none before that, or the summary
goes on behind every item. -/
theorem completes_or_unsound_or_continues (source : Source) :
    (∃ header items item cursor, Passes source header (items ++ [item]) cursor ∧
        Completes items item) ∨
      (∃ header items field value cursor,
        Passes source header (items ++ [.aux field value]) cursor ∧ Continues items ∧
          ¬ Server.Says field value) ∨
      ∀ header items cursor, Passes source header items cursor → Continues items := by
  by_contra hnone
  simp only [not_or, not_exists, not_and] at hnone
  obtain ⟨hnever, hsound, hstops⟩ := hnone
  refine hstops fun header items cursor hpasses => continues_of_steps hpasses ?_
  intro front item after _ hitem hcontinues
  refine ⟨?_, hnever _ _ _ _ hitem⟩
  cases item with
  | aux field value => exact not_not.1 (hsound _ _ _ _ _ hitem hcontinues)
  | _ => exact trivial

/-- That it is satisfied a summary does not report as a cancelled scan. -/
theorem summarise_ne_cancelled {options : Options} (honly : options.onlyServer = true)
    (source : Source) : Scan.summarise options false source ≠ .error .cancelled := by
  rcases completes_or_unsound_or_continues source with
    ⟨header, items, item, cursor, hpasses, h⟩ |
    ⟨header, items, field, value, cursor, hpasses, h, hvalue⟩ | hcontinues
  · rw [Scan.summarise_of_completes honly hpasses h]
    exact nofun
  · obtain ⟨name, -, -, herror⟩ := Scan.summarise_of_unsound honly hpasses h hvalue
    rw [herror]
    exact nofun
  · obtain ⟨herror, hok⟩ := Scan.summarise_of_continues honly hcontinues
    cases hresult : (Scan.recorded true source).1.result with
    | error error =>
        rw [herror error hresult]
        exact fun hsame => Scan.recorded_ne_cancelled true source
          (hresult.trans (congrArg Except.error (Except.error.inj hsame)))
    | ok =>
        obtain ⟨header, items, cursor, after, -, -, -, hended⟩ := hok hresult
        rw [hended]
        exact nofun

/-- **Ending early.** A summary that is only about the server ends behind the first item where all four
things are known, with what is then in force and whatever comes next. If there is no such item, it ends
at the first number that is none, or else as a scan ends that hands over everything. If the scan may be
cancelled, then it ends as cancelled exactly where it is before one of these ends, and it does not end
so of its own accord. -/
theorem ends_early {options : Options} (honly : options.onlyServer = true) (source : Source) :
    (∀ header items item cursor, Passes source header (items ++ [item]) cursor →
      Completes items item →
        (∃ field value, item = .aux field value) ∧
        ∃ summary : Summary, summary.server = Server.inForce (items ++ [item]) ∧
          Accounts options (occurrences 0 (Item.recordsOf true [] (items ++ [item]))) summary ∧
          Scan.summarise options false source = .ok (Text.lossy header, summary) ∧
          ∀ behind failure portion,
            Scan.summarise options false
                ⟨source.input.take cursor.offset ++ behind, failure, portion⟩ =
              .ok (Text.lossy header, summary)) ∧
      ((∀ header items item cursor, Passes source header (items ++ [item]) cursor →
          ¬ Completes items item) →
        (∀ header items field value cursor,
          Passes source header (items ++ [.aux field value]) cursor →
            (∀ item ∈ items, item.IsSound) → ¬ Server.Says field value →
              ∃ name ∈ ["redis-bits", "ctime", "used-mem"], field = Text.bytes name ∧
                Scan.summarise options false source = .error (.format (.auxNumber name value))) ∧
        ((∀ header items cursor, Passes source header items cursor →
            ∀ item ∈ items, item.IsSound) →
          (∀ error, (Scan.recorded true source).1.result = .error error →
            Scan.summarise options false source = .error error) ∧
          ((Scan.recorded true source).1.result = .ok () →
            ∃ header items cursor after, Passes source header items cursor ∧
              Item.decoder.run cursor = .done .ending after ∧
              ∃ summary : Summary, summary.server = Server.inForce items ∧
                Accounts options (occurrences 0 (Item.recordsOf true [] items)) summary ∧
                Scan.summarise options false source = .ok (Text.lossy header, summary)))) ∧
      ∀ token : Nat → Bool,
        (∀ header items cursor, Passes source header items cursor → Continues items →
          token items.length = true →
            Scan.summariseUnder options token source = .error .cancelled) ∧
        ((∀ header items cursor, Passes source header items cursor → Continues items →
            token items.length = false) →
          Scan.summariseUnder options token source = Scan.summarise options false source ∧
            Scan.summarise options false source ≠ .error .cancelled) := by
  refine ⟨?_, fun hnever => ⟨?_, fun hsound => ?_⟩, fun token => ⟨?_, fun hquiet => ⟨?_, ?_⟩⟩⟩
  · intro header items item cursor hpasses h
    refine ⟨h.exists_aux, _, (deliver_known honly (h.continues.deliver honly).2.1 h).2.1, ?_, ?_, ?_⟩
    · rw [← behind_append]
      exact accounts_behind _
    · rw [← behind_append]
      exact Scan.summarise_of_completes honly hpasses h
    · intro behind failure portion
      obtain ⟨front, hinput, hlength, hagain⟩ := hpasses.exists_front
      rw [← behind_append, hinput, ← hlength, List.take_left]
      exact Scan.summarise_of_completes honly (hagain behind failure portion) h
  · intro header items field value cursor hpasses hsound hvalue
    obtain ⟨place, hbefore, -, -⟩ := hpasses.of_concat
    exact Scan.summarise_of_unsound honly hpasses
      (continues_of_not_completes hbefore hsound hnever) hvalue
  · have hcontinues : ∀ header items cursor, Passes source header items cursor → Continues items :=
      fun header items cursor hpasses =>
        continues_of_not_completes hpasses (hsound header items cursor hpasses) hnever
    obtain ⟨herror, hok⟩ := Scan.summarise_of_continues honly hcontinues
    refine ⟨herror, fun hresult => ?_⟩
    obtain ⟨header, items, cursor, after, hpasses, hrun, h, hended⟩ := hok hresult
    exact ⟨header, items, cursor, after, hpasses, hrun, _, (h.deliver honly).2.1, accounts_behind _,
      hended⟩
  · intro header items cursor hpasses h hfired
    exact Scan.summariseUnder_of_fired honly hpasses h hfired
  · rw [← Scan.summariseUnder_constant, Scan.summariseUnder, Scan.summariseUnder,
      Scan.run_under_quiet (fun _ => rfl) fun header items cursor state hreaches =>
        hquiet header items cursor hreaches.passes (Scan.continues_of_reaches honly hreaches)]
  · exact summarise_ne_cancelled honly source

/-- Four fields, the last of which completes what is known, and behind it what no item begins with. -/
def fourFields : Source :=
  .ofBytes <| headerOf 9 ++ ([0xFA, 5] ++ Text.bytes "ctime" ++ [1, 49] ++
    ([0xFA, 8] ++ Text.bytes "used-mem" ++ [1, 50] ++
      ([0xFA, 10] ++ Text.bytes "redis-bits" ++ [2, 54, 52] ++
        ([0xFA, 9] ++ Text.bytes "redis-ver" ++ [1, 55] ++ [0xC0]))))

theorem ends_early_fourFields :
    ∃ summary : Summary, summary.server = ⟨[55], 64, 1, 2⟩ ∧
      Scan.summarise ⟨true, true, false, 0, []⟩ false fourFields =
        .ok (Text.lossy (headerOf 9), summary) := by
  have hheader : Decoder.header.run fourFields.start =
      .done (headerOf 9) ⟨9, fourFields.input.drop 9⟩ := rfl
  have hcreated : Item.decoder.run ⟨9, fourFields.input.drop 9⟩ =
      .done (.aux (Text.bytes "ctime") [49]) ⟨18, fourFields.input.drop 18⟩ := rfl
  have hused : Item.decoder.run ⟨18, fourFields.input.drop 18⟩ =
      .done (.aux (Text.bytes "used-mem") [50]) ⟨30, fourFields.input.drop 30⟩ := rfl
  have hbits : Item.decoder.run ⟨30, fourFields.input.drop 30⟩ =
      .done (.aux (Text.bytes "redis-bits") [54, 52]) ⟨45, fourFields.input.drop 45⟩ := rfl
  have hversion : Item.decoder.run ⟨45, fourFields.input.drop 45⟩ =
      .done (.aux (Text.bytes "redis-ver") [55]) ⟨58, fourFields.input.drop 58⟩ := rfl
  have hpasses := ((((Passes.header hheader).item hcreated nofun).item hused nofun).item hbits
    nofun).item hversion nofun
  have hnumbers : ∀ field, ∀ value ∈ ([[49], [50], [54, 52], [55]] : List Bytes),
      Server.Says field value := by
    intro field value hvalue
    have hnumber : (Decimal.unsigned? (Word.count 32) value).isSome ∧
        (Decimal.signed? 64 value).isSome := by
      revert value
      decide
    exact ⟨fun _ => hnumber.1, fun _ => hnumber.2, fun _ => hnumber.2⟩
  have hunknown : ∀ items : List Item, (Server.inForce items).isComplete = false →
      ¬ (Server.inForce items).IsKnown := fun items h hknown =>
    Bool.false_ne_true (h.symm.trans (Server.isComplete_iff.2 hknown))
  have hcreatedOnly : Continues ([] ++ [.aux (Text.bytes "ctime") [49]]) :=
    continues_append.2 ⟨.nil, hnumbers _ _ (by decide), hunknown _ (by decide)⟩
  have hwithUsed := @continues_append _ (.aux (Text.bytes "used-mem") [50]) |>.2
    ⟨hcreatedOnly, hnumbers _ _ (by decide), hunknown _ (by decide)⟩
  have hwithBits := @continues_append _ (.aux (Text.bytes "redis-bits") [54, 52]) |>.2
    ⟨hwithUsed, hnumbers _ _ (by decide), hunknown _ (by decide)⟩
  obtain ⟨-, summary, hserver, -, hended, -⟩ :=
    (@ends_early ⟨true, true, false, 0, []⟩ rfl fourFields).1 _ _ _ _ hpasses
      ⟨hwithBits, hnumbers _ _ (by decide), Server.isComplete_iff.1 (by decide)⟩
  exact ⟨summary, hserver.trans (by rfl), hended⟩

end Summary

end RedisSnapshot
