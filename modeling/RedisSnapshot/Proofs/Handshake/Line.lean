import Mathlib.Data.List.Infix
import RedisSnapshot.Handshake

/-!
# Lines of a handshake

A line is what stands in front of the first line end, bare line feeds before it aside. Whatever
comes from a peer begins with a line, with the front of a line that is not finished, or with more
bytes than a line may have. Which of them it is does not depend on the pieces that it comes in, and
nothing behind a line is read with it.
-/

namespace RedisSnapshot

namespace Handshake

/-- The bytes can be the front of a line: they do not begin with a line feed and contain no line
end. -/
structure IsOpen (begun : Bytes) : Prop where
  head : begun.head? ≠ some 10
  inside : ¬ [13, 10] <:+: begun

/-- Any number of bare line feeds, a line and its end. -/
inductive LineForm : Bytes → Bytes → Prop where
  | mk (feeds : Nat) {line : Bytes} (hopen : IsOpen line) (hlength : line.length < lineLimit) :
      LineForm line (List.replicate feeds 10 ++ (line ++ [13, 10]))

/-- Any number of bare line feeds and the front of a line. -/
inductive Unfinished : Bytes → Prop where
  | mk (feeds : Nat) {begun : Bytes} (hopen : IsOpen begun) (hlength : begun.length ≤ lineLimit) :
      Unfinished (List.replicate feeds 10 ++ begun)

/-- Any number of bare line feeds and the front of a line, which has become too long with the last
byte. -/
inductive Overlong : Bytes → Prop where
  | mk (feeds : Nat) {begun : Bytes} (hopen : IsOpen begun)
      (hlength : begun.length = lineLimit + 1) : Overlong (List.replicate feeds 10 ++ begun)

theorem isOpen_nil : IsOpen [] :=
  ⟨by simp, by simp⟩

theorem IsOpen.of_append {front back : Bytes} (h : IsOpen (front ++ back)) : IsOpen front := by
  constructor
  · intro hhead
    apply h.head
    rw [List.head?_append, hhead, Option.some_or]
  · intro hend
    exact h.inside (hend.trans (List.prefix_append front back).isInfix)

/-- A byte keeps a line open unless it is a line feed that is skipped or that ends the line. -/
theorem isOpen_snoc_iff {begun : Bytes} {byte : UInt8} :
    IsOpen (begun ++ [byte]) ↔
      IsOpen begun ∧ ¬ (byte = 10 ∧ (begun = [] ∨ begun.getLast? = some 13)) := by
  constructor
  · intro h
    refine ⟨h.of_append, ?_⟩
    rintro ⟨rfl, rfl | hlast⟩
    · exact h.head rfl
    · obtain ⟨line, rfl⟩ := List.getLast?_eq_some_iff.1 hlast
      apply h.inside
      rw [List.append_assoc]
      exact (List.suffix_append line ([13] ++ [10])).isInfix
  · rintro ⟨h, hbyte⟩
    constructor
    · intro hhead
      by_cases hnil : begun = []
      · subst hnil
        exact hbyte ⟨by simpa using hhead, .inl rfl⟩
      · rw [List.head?_append_of_ne_nil _ hnil] at hhead
        exact h.head hhead
    · intro hend
      rcases List.infix_concat_iff.1 hend with hsuffix | hinside
      · obtain ⟨line, hline⟩ := hsuffix
        have hpair : line ++ [13] ++ [10] = begun ++ [byte] := by
          rw [← hline, List.append_assoc]
          rfl
        obtain ⟨rfl, hlast⟩ := List.append_inj' hpair rfl
        exact hbyte ⟨(List.cons.inj hlast).1.symm, .inr List.getLast?_concat⟩
      · exact h.inside hinside

/-! ### Every input has a form -/

theorem longest_open {sent : Bytes} (h : sent.head? ≠ some 10) :
    IsOpen sent ∨ ∃ line rest, IsOpen (line ++ [13]) ∧ sent = line ++ 13 :: 10 :: rest := by
  induction sent using List.reverseRecOn with
  | nil => exact .inl isOpen_nil
  | append_singleton sent byte ih =>
      have hhead : sent.head? ≠ some 10 := by
        intro hhead
        apply h
        rw [List.head?_append, hhead, Option.some_or]
      rcases ih hhead with hopen | ⟨line, rest, hline, rfl⟩
      · by_cases hbyte : byte = 10 ∧ (sent = [] ∨ sent.getLast? = some 13)
        · obtain ⟨rfl, rfl | hlast⟩ := hbyte
          · exact absurd rfl h
          · obtain ⟨line, rfl⟩ := List.getLast?_eq_some_iff.1 hlast
            exact .inr ⟨line, [], hopen, by simp⟩
        · exact .inl (isOpen_snoc_iff.2 ⟨hopen, hbyte⟩)
      · exact .inr ⟨line, rest ++ [byte], hline, by simp⟩

theorem form_of_sent (sent : Bytes) :
    (∃ line bytes rest, LineForm line bytes ∧ sent = bytes ++ rest) ∨ Unfinished sent ∨
      ∃ bytes rest, Overlong bytes ∧ sent = bytes ++ rest := by
  obtain ⟨feeds, begun, rfl, hhead⟩ : ∃ feeds begun,
      sent = List.replicate feeds 10 ++ begun ∧ begun.head? ≠ some 10 := by
    induction sent with
    | nil => exact ⟨0, [], rfl, by simp⟩
    | cons byte sent ih =>
        by_cases hbyte : byte = 10
        · obtain ⟨feeds, begun, rfl, hhead⟩ := ih
          exact ⟨feeds + 1, begun, by rw [hbyte, List.replicate_succ, List.cons_append], hhead⟩
        · exact ⟨0, byte :: sent, rfl, by simpa using hbyte⟩
  have hlong : ∀ front back, IsOpen front → lineLimit < front.length → begun = front ++ back →
      ∃ bytes rest, Overlong bytes ∧ List.replicate feeds 10 ++ begun = bytes ++ rest := by
    intro front back hopen hlength hbegun
    have hcut : front.take (lineLimit + 1) ++ front.drop (lineLimit + 1) = front :=
      List.take_append_drop _ front
    refine ⟨_, front.drop (lineLimit + 1) ++ back, .mk feeds (hcut ▸ hopen).of_append ?_, ?_⟩
    · rw [List.length_take]
      omega
    · rw [hbegun, List.append_assoc, ← List.append_assoc (front.take _), hcut]
  rcases longest_open hhead with hopen | ⟨line, rest, hopen, hline⟩
  · by_cases hlength : begun.length ≤ lineLimit
    · exact .inr (.inl (.mk feeds hopen hlength))
    · exact .inr (.inr (hlong begun [] hopen (by omega) (List.append_nil begun).symm))
  · by_cases hlength : line.length < lineLimit
    · exact .inl ⟨line, _, rest, .mk feeds hopen.of_append hlength, by simp [hline]⟩
    · refine .inr (.inr (hlong (line ++ [13]) (10 :: rest) hopen ?_ (by simp [hline])))
      rw [List.length_append, List.length_singleton]
      omega

/-! ### Scanning -/

def LineScan.result (failure : Option IoFailure) : LineScan → Except Error Bytes
  | complete line _ => .ok line
  | tooLong _ => .error (.protocol .lineLength)
  | begun _ => .error (lost failure)

def LineScan.behind : LineScan → Bytes
  | complete _ rest | tooLong rest => rest
  | begun _ => []

theorem scanLine_append (read front back : Bytes) :
    scanLine read (front ++ back) =
      match scanLine read front with
      | .complete line rest => .complete line (rest ++ back)
      | .tooLong rest => .tooLong (rest ++ back)
      | .begun read => scanLine read back := by
  fun_induction scanLine read front with
  | case1 read => rfl
  | case2 read byte rest h ih => rw [List.cons_append, scanLine, if_pos h, ih]
  | case3 read byte rest h hend => rw [List.cons_append, scanLine, if_neg h, if_pos hend]
  | case4 read byte rest h hend hlong =>
      rw [List.cons_append, scanLine, if_neg h, if_neg hend, if_pos hlong]
  | case5 read byte rest h hend hlong ih =>
      rw [List.cons_append, scanLine, if_neg h, if_neg hend, if_neg hlong, ih]

/-- What lies behind a line is the last of the bytes. -/
theorem scanLine_suffix (read sent : Bytes) : (scanLine read sent).behind <:+ sent := by
  fun_induction scanLine read sent with
  | case1 read => exact List.nil_suffix
  | case2 read byte rest h ih => exact ih.trans (List.suffix_cons byte rest)
  | case3 read byte rest h hend => exact List.suffix_cons byte rest
  | case4 read byte rest h hend hlong => exact List.suffix_cons byte rest
  | case5 read byte rest h hend hlong ih => exact ih.trans (List.suffix_cons byte rest)

theorem scanLine_feeds (feeds : Nat) (sent : Bytes) :
    scanLine [] (List.replicate feeds 10 ++ sent) = scanLine [] sent := by
  induction feeds with
  | zero => rfl
  | succ feeds ih => rw [List.replicate_succ, List.cons_append, scanLine, if_pos ⟨rfl, rfl⟩, ih]

/-- One more byte of an open line, if there is room for it. -/
theorem scanLine_step {read : Bytes} {byte : UInt8} (hopen : IsOpen (read.reverse ++ [byte]))
    (rest : Bytes) :
    scanLine read (byte :: rest) =
      if lineLimit < read.length + 1 then .tooLong rest else scanLine (byte :: read) rest := by
  have hbyte := (isOpen_snoc_iff.1 hopen).2
  rw [List.getLast?_reverse, List.reverse_eq_nil_iff] at hbyte
  rw [scanLine, if_neg fun h => hbyte ⟨h.1, .inl h.2⟩, if_neg fun h => hbyte ⟨h.1, .inr h.2⟩]

theorem scanLine_open {read begun : Bytes} (hopen : IsOpen (read.reverse ++ begun))
    (hlength : read.length + begun.length ≤ lineLimit) (rest : Bytes) :
    scanLine read (begun ++ rest) = scanLine (begun.reverse ++ read) rest := by
  induction begun generalizing read with
  | nil => rfl
  | cons byte begun ih =>
      have hnext : IsOpen ((byte :: read).reverse ++ begun) := by
        simpa using hopen
      have hstep : IsOpen (read.reverse ++ [byte]) := by
        rw [List.reverse_cons] at hnext
        exact hnext.of_append
      rw [List.length_cons] at hlength
      rw [List.cons_append, scanLine_step hstep, if_neg (by omega),
        ih hnext (by rw [List.length_cons]; omega)]
      simp

theorem scanLine_of_line {line bytes : Bytes} (h : LineForm line bytes) (rest : Bytes) :
    scanLine [] (bytes ++ rest) = .complete line rest := by
  obtain ⟨feeds, hopen, hlength⟩ := h
  have hreturn : IsOpen (line ++ [13]) := isOpen_snoc_iff.2 ⟨hopen, by simp⟩
  have hsplit : line ++ [13, 10] ++ rest = (line ++ [13]) ++ 10 :: rest := by
    simp
  rw [List.append_assoc, scanLine_feeds, hsplit, scanLine_open hreturn (by simp; omega),
    List.append_nil, List.reverse_concat]
  simp [scanLine]

theorem scanLine_of_overlong {bytes : Bytes} (h : Overlong bytes) (rest : Bytes) :
    scanLine [] (bytes ++ rest) = .tooLong rest := by
  obtain ⟨feeds, hopen, hlength⟩ := h
  rename_i begun
  obtain ⟨front, byte, rfl⟩ : ∃ front byte, begun = front ++ [byte] := by
    rcases List.eq_nil_or_concat' begun with rfl | hsnoc
    · cases hlength
    · exact hsnoc
  rw [List.length_append, List.length_singleton] at hlength
  rw [List.append_assoc, scanLine_feeds, List.append_assoc,
    @scanLine_open [] _ hopen.of_append (by simp; omega), List.append_nil, List.singleton_append,
    scanLine_step (by simpa using hopen), if_pos (by simp; omega)]

theorem scanLine_of_unfinished {bytes : Bytes} (h : Unfinished bytes) :
    ∃ read, scanLine [] bytes = .begun read := by
  obtain ⟨feeds, hopen, hlength⟩ := h
  rename_i begun
  refine ⟨begun.reverse, ?_⟩
  have hscan := @scanLine_open [] _ hopen (by simpa using hlength) []
  rw [List.append_nil, List.append_nil] at hscan
  rw [scanLine_feeds, hscan, scanLine]

/-! ### Reading from a peer -/

end Handshake

namespace Peer

open Handshake

/-- What is delivered up to the first delivery that has to wait. -/
def saidBy (due : Nat → Bool) (deliveries : List Delivery) : Bytes :=
  (deliveries.takeWhile fun delivery => due delivery.after).flatMap Delivery.content

/-- What the peer says before it has heard more than so many further commands. -/
def said (peer : Peer) (commands : Nat) : Bytes :=
  saidBy (fun after => after ≤ peer.heard.length + commands) peer.deliveries

/-- What the peer has to say in all. -/
def everything (peer : Peer) : Bytes :=
  peer.deliveries.flatMap Delivery.content

/-- The second peer is the first one behind these bytes of its own, which were read. -/
structure HasRead (before : Peer) (used : Bytes) (after : Peer) : Prop where
  heard : after.heard = before.heard
  said : ∀ commands, before.said commands = used ++ after.said commands
  everything : before.everything = used ++ after.everything

section Deliveries

variable {due : Nat → Bool} {delivery : Delivery} {rest : List Delivery}

theorem saidBy_cons_of_due (h : due delivery.after = true) :
    saidBy due (delivery :: rest) = delivery.content ++ saidBy due rest := by
  simp [saidBy, h]

theorem saidBy_cons_of_not_due (h : due delivery.after ≠ true) :
    saidBy due (delivery :: rest) = [] := by
  simp [saidBy, h]

/-- A delivery of which the front was read. -/
theorem saidBy_cut {used behind : Bytes} (hdue : due delivery.after = true)
    (hcontent : delivery.content = used ++ behind) :
    saidBy due (delivery :: rest) =
      used ++ saidBy due ({ delivery with content := behind } :: rest) := by
  have hleft : saidBy due ({ delivery with content := behind } :: rest) =
      behind ++ saidBy due rest := saidBy_cons_of_due hdue
  rw [saidBy_cons_of_due hdue, hleft, hcontent, List.append_assoc]

end Deliveries

/-- Which line is found depends only on the bytes that have come. What was read of them is gone,
however many more may come. -/
theorem lineFrom_eq (due : Nat → Bool) (holds : Bool) (read : Bytes) (deliveries : List Delivery) :
    ∃ failure used after,
      lineFrom (fun delivery => due delivery.after) holds read deliveries =
          ((scanLine read (saidBy due deliveries)).result failure, after) ∧
        saidBy due deliveries = used ++ (scanLine read (saidBy due deliveries)).behind ∧
        ∀ later : Nat → Bool, (∀ count, due count = true → later count = true) →
          saidBy later deliveries = used ++ saidBy later after := by
  induction deliveries generalizing read with
  | nil => exact ⟨_, [], [], rfl, rfl, fun _ _ => rfl⟩
  | cons delivery rest ih =>
      by_cases hdue : due delivery.after = true
      · rw [lineFrom, hdue, if_neg (by simp), saidBy_cons_of_due hdue, scanLine_append]
        cases hscan : scanLine read delivery.content with
        | complete line behind | tooLong behind =>
            obtain ⟨used, hused⟩ := scanLine_suffix read delivery.content
            rw [hscan, LineScan.behind] at hused
            refine ⟨none, used, _, rfl, ?_, fun later hlater => ?_⟩
            · rw [← hused, List.append_assoc]
              rfl
            · exact saidBy_cut (hlater _ hdue) hused.symm
        | begun read =>
            obtain ⟨failure, used, after, hline, hsaid, hlater⟩ := ih read
            refine ⟨failure, delivery.content ++ used, after, hline, ?_, fun later hdues => ?_⟩
            · rw [List.append_assoc, ← hsaid]
            · rw [saidBy_cons_of_due (hdues _ hdue), hlater later hdues, List.append_assoc]
      · refine ⟨some .deadline, [], delivery :: rest, ?_, ?_, fun _ _ => rfl⟩
        · rw [lineFrom, saidBy_cons_of_not_due hdue]
          simp [hdue, scanLine, LineScan.result]
        · rw [saidBy_cons_of_not_due hdue]
          rfl

theorem saidBy_always (deliveries : List Delivery) :
    saidBy (fun _ => true) deliveries = deliveries.flatMap Delivery.content := by
  rw [saidBy]
  induction deliveries with
  | nil => rfl
  | cons delivery rest ih => rw [List.takeWhile_cons_of_pos rfl, List.flatMap_cons, ih,
      List.flatMap_cons]

theorem readLine_eq (peer : Peer) :
    ∃ failure used after, peer.readLine = ((scanLine [] (peer.said 0)).result failure, after) ∧
      peer.said 0 = used ++ (scanLine [] (peer.said 0)).behind ∧ HasRead peer used after := by
  obtain ⟨failure, used, deliveries, hline, hsaid, hlater⟩ :=
    lineFrom_eq (fun after => after ≤ peer.heard.length + 0) peer.holds [] peer.deliveries
  refine ⟨failure, used, { peer with deliveries }, ?_, hsaid, rfl, fun commands => ?_, ?_⟩
  · have hdue : peer.isDue = fun delivery => decide (delivery.after ≤ peer.heard.length + 0) := rfl
    rw [readLine, hdue, hline]
    rfl
  · apply hlater
    intro count hcount
    rw [decide_eq_true_iff] at hcount ⊢
    omega
  · rw [everything, everything, ← saidBy_always, ← saidBy_always]
    exact hlater _ fun _ _ => rfl

section Lines

variable {peer : Peer} {bytes rest : Bytes}

theorem readLine_of_line {line : Bytes} (h : LineForm line bytes)
    (hsaid : peer.said 0 = bytes ++ rest) :
    ∃ after, peer.readLine = (.ok line, after) ∧ HasRead peer bytes after := by
  obtain ⟨failure, used, after, hline, hused, hread⟩ := readLine_eq peer
  rw [hsaid, scanLine_of_line h] at hline hused
  rw [List.append_cancel_right hused]
  exact ⟨after, hline, hread⟩

theorem readLine_of_overlong (h : Overlong bytes) (hsaid : peer.said 0 = bytes ++ rest) :
    ∃ after, peer.readLine = (.error (.protocol .lineLength), after) ∧
      HasRead peer bytes after := by
  obtain ⟨failure, used, after, hline, hused, hread⟩ := readLine_eq peer
  rw [hsaid, scanLine_of_overlong h] at hline hused
  rw [List.append_cancel_right hused]
  exact ⟨after, hline, hread⟩

theorem readLine_of_unfinished (h : Unfinished (peer.said 0)) :
    ∃ failure after, peer.readLine = (.error (.io failure), after) ∧
      HasRead peer (peer.said 0) after := by
  obtain ⟨failure, used, after, hline, hused, hread⟩ := readLine_eq peer
  obtain ⟨read, hscan⟩ := scanLine_of_unfinished h
  rw [hscan] at hline hused
  rw [LineScan.behind, List.append_nil] at hused
  rw [hused]
  exact ⟨_, after, hline, hread⟩

end Lines

end Peer

end RedisSnapshot
