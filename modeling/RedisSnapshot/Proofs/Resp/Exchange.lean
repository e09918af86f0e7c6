import Mathlib.Data.List.Infix
import RedisSnapshot.Peer
import RedisSnapshot.Proofs.Resp.Written

/-!
# Whose replies a batch gets

A peer answers its commands in order, and its bytes come in any pieces at any time behind the
commands that they answer. A batch is given the replies that have come since the last ones were
taken. These are its own as long as all batches before it got theirs. A batch that fails gives up
the replies that it has taken, and those that come later stay for the batches behind it.
-/

namespace RedisSnapshot

open Reply

/-- Every delivery waits for the commands that it has answers for. -/
def Peer.Paced (answers : List Reply) (sent : Bytes) : List Delivery → Prop
  | [] => True
  | delivery :: rest =>
      sent ++ delivery.content <+: (answers.take delivery.after).flatMap encode ∧
        Paced answers (sent ++ delivery.content) rest

/-- The peer has nothing to say but these replies, one for each command in order. -/
structure Peer.Answers (answers : List Reply) (deliveries : List Delivery) : Prop where
  written : ∀ reply ∈ answers, reply.IsWritten
  paced : Paced answers [] deliveries

def Arrival.content : Arrival → Bytes
  | .bytes content => content
  | .ceased _ => []

/-- Reading brings nothing but answers to what was heard. -/
theorem Peer.paced_readFrom {answers : List Reply} {heard : Nat} {due : Delivery → Bool}
    {holds : Bool} {sent : Bytes} {deliveries : List Delivery}
    (hdue : ∀ delivery, due delivery = true → delivery.after ≤ heard)
    (hsent : sent <+: (answers.take heard).flatMap encode) (h : Paced answers sent deliveries) :
    sent ++ (readFrom due holds deliveries).1.content <+: (answers.take heard).flatMap encode ∧
      Paced answers (sent ++ (readFrom due holds deliveries).1.content)
        (readFrom due holds deliveries).2 := by
  fun_induction readFrom due holds deliveries with
  | case1 => exact ⟨(List.append_nil sent).symm ▸ hsent, trivial⟩
  | case2 delivery rest hnot =>
      exact ⟨(List.append_nil sent).symm ▸ hsent, (List.append_nil sent).symm ▸ h⟩
  | case3 delivery rest hnot hempty ih =>
      obtain ⟨_, hrest⟩ := h
      rw [List.isEmpty_iff.1 hempty, List.append_nil] at hrest
      exact ih hrest
  | case4 delivery rest hnot hempty =>
      obtain ⟨hdelivery, hrest⟩ := h
      have hheard : delivery.after ≤ heard := hdue delivery (by simpa using hnot)
      have hcut : sent ++ delivery.content.take readSize ++ delivery.content.drop readSize =
          sent ++ delivery.content := by
        rw [List.append_assoc, List.take_append_drop]
      have hfront : sent ++ delivery.content.take readSize <+: sent ++ delivery.content :=
        ⟨delivery.content.drop readSize, hcut⟩
      have hanswers : (answers.take delivery.after).flatMap encode <+:
          (answers.take heard).flatMap encode :=
        (List.take_prefix_take_left hheard).flatMap encode
      refine ⟨(hfront.trans hdelivery).trans hanswers, ?_, ?_⟩
      · rw [Arrival.content, hcut]
        exact hdelivery
      · rw [Arrival.content, hcut]
        exact hrest

namespace Connection

/-- The replies that were taken and the bytes behind them are the front of the answers to the
commands that the peer has heard. -/
structure Follows (answers took : List Reply) (connection : Connection) : Prop where
  taken : took <+: answers.take connection.peer.heard.length
  arrived : took.flatMap encode ++ connection.received <+:
    (answers.take connection.peer.heard.length).flatMap encode
  paced : Peer.Paced answers (took.flatMap encode ++ connection.received) connection.peer.deliveries

section Follows

variable {answers took : List Reply} {peer : Peer} {received : Bytes}

theorem follows_start {deliveries : List Delivery} (h : Peer.Answers answers deliveries)
    (holds : Bool) :
    Follows answers [] (.ofPeer (.ofDeliveries deliveries holds)) :=
  ⟨List.nil_prefix, List.nil_prefix, h.paced⟩

theorem Follows.length_le {connection : Connection} (h : Follows answers took connection) :
    took.length ≤ connection.peer.heard.length :=
  h.taken.length_le.trans (List.length_take_le _ _)

theorem Follows.hear (h : Follows answers took ⟨peer, received⟩) (commands : List Command) :
    Follows answers took ⟨peer.hear commands, received⟩ := by
  have hmore : answers.take peer.heard.length <+: answers.take (peer.hear commands).heard.length :=
    List.take_prefix_take_left (by rw [Peer.hear, List.length_append]; exact Nat.le_add_left _ _)
  exact ⟨h.taken.trans hmore, h.arrived.trans (hmore.flatMap encode), h.paced⟩

theorem Follows.read (h : Follows answers took ⟨peer, received⟩) :
    Follows answers took ⟨peer.read.2, received ++ peer.read.1.content⟩ := by
  obtain ⟨harrived, hpaced⟩ := @Peer.paced_readFrom answers _ peer.isDue peer.holds _ _
    (fun delivery (hdue : peer.isDue delivery = true) => of_decide_eq_true hdue) h.arrived h.paced
  rw [List.append_assoc] at harrived hpaced
  exact ⟨h.taken, harrived, hpaced⟩

/-- Whatever has come is taken as far as it is complete. -/
theorem Follows.collect (hwritten : ∀ reply ∈ answers, reply.IsWritten) {replies : List Reply}
    (h : Follows answers (took ++ replies) ⟨peer, received⟩) (wanted : Nat) :
    ∃ found rest, Follows answers (took ++ found) ⟨peer, rest⟩ ∧
      Client.collect wanted replies received =
        if wanted ≤ found.length then .settled (.ok found) rest else .waiting found rest := by
  obtain ⟨htaken, harrived, hpaced⟩ := h
  obtain ⟨left, hleft⟩ := htaken
  have hpart : ∀ reply ∈ left, reply.IsWritten := fun reply hmem =>
    hwritten reply (List.mem_of_mem_take (hleft ▸ List.mem_append_right _ hmem))
  have hreceived : received <+: left.flatMap encode := by
    refine (List.prefix_append_right_inj ((took ++ replies).flatMap encode)).1 ?_
    rw [← List.flatMap_append, hleft]
    exact harrived
  obtain ⟨front, back, rest, rfl, rfl, hparse⟩ := parseAll_of_front hpart hreceived
  have hbytes : (took ++ (replies ++ front)).flatMap encode ++ rest =
      (took ++ replies).flatMap encode ++ (front.flatMap encode ++ rest) := by
    rw [← List.append_assoc, List.flatMap_append, List.append_assoc]
  refine ⟨replies ++ front, rest, ⟨?_, ?_, ?_⟩, ?_⟩
  · exact ⟨back, by rw [← hleft]; simp only [List.append_assoc]⟩
  · rw [hbytes]
    exact harrived
  · rw [hbytes]
    exact hpaced
  · rw [Client.collect, hparse]

theorem Follows.settled (hwritten : ∀ reply ∈ answers, reply.IsWritten) {replies : List Reply}
    (h : Follows answers (took ++ replies) ⟨peer, received⟩) {wanted : Nat}
    {result : Except Error (List Reply)} {rest : Bytes}
    (hcollect : Client.collect wanted replies received = .settled result rest) :
    ∃ more, Follows answers (took ++ more) ⟨peer, rest⟩ ∧ wanted ≤ more.length ∧
      result = .ok more := by
  obtain ⟨more, left, hmore, heq⟩ := h.collect hwritten wanted
  rw [heq] at hcollect
  split at hcollect
  · cases hcollect
    exact ⟨more, hmore, ‹_›, rfl⟩
  · cases hcollect

theorem Follows.waiting (hwritten : ∀ reply ∈ answers, reply.IsWritten) {replies found : List Reply}
    (h : Follows answers (took ++ replies) ⟨peer, received⟩) {wanted : Nat} {rest : Bytes}
    (hcollect : Client.collect wanted replies received = .waiting found rest) :
    Follows answers (took ++ found) ⟨peer, rest⟩ := by
  obtain ⟨more, left, hmore, heq⟩ := h.collect hwritten wanted
  rw [heq] at hcollect
  split at hcollect
  · cases hcollect
  · cases hcollect
    exact hmore

/-- What a batch takes is what it is given, unless it fails. -/
def Gives (wanted : Nat) (more : List Reply) (result : Except Error (List Reply)) : Prop :=
  ∀ found, result = .ok found → found = more ∧ wanted ≤ found.length

theorem follows_await (hwritten : ∀ reply ∈ answers, reply.IsWritten) {wanted : Nat}
    {replies : List Reply} (h : Follows answers (took ++ replies) ⟨peer, received⟩)
    {result : Except Error (List Reply)} {after : Connection}
    (hrun : await wanted replies received peer = (result, after)) :
    ∃ more, Follows answers (took ++ more) after ∧ after.peer.heard = peer.heard ∧
      Gives wanted more result := by
  -- Every read keeps to the answers, so the replies taken so far can be any to begin with.
  fun_induction await wanted replies received peer with
  | case1 replies received peer content later hread found rest hcollect =>
      have hlater := h.read
      rw [hread] at hlater
      obtain ⟨more, hmore, hwanted, rfl⟩ := hlater.settled hwritten hcollect
      cases hrun
      refine ⟨more, hmore, congrArg (·.2.heard) hread.symm, ?_⟩
      rintro _ ⟨⟩
      exact ⟨rfl, hwanted⟩
  | case2 replies received peer content later hread found rest hcollect ih =>
      have hlater := h.read
      rw [hread] at hlater
      obtain ⟨more, hmore, hheard, hgives⟩ := ih (hlater.waiting hwritten hcollect) hrun
      exact ⟨more, hmore, hheard.trans (congrArg (·.2.heard) hread.symm), hgives⟩
  | case3 replies received peer failure later hread =>
      have hlater := h.read
      rw [hread] at hlater
      cases hrun
      refine ⟨replies, ?_, congrArg (·.2.heard) hread.symm, nofun⟩
      rw [Arrival.content, List.append_nil] at hlater
      exact hlater

/-- A batch is told to the peer, and takes what comes until it has enough. -/
theorem follows_exchange {connection : Connection} (hwritten : ∀ reply ∈ answers, reply.IsWritten)
    (h : Follows answers took connection) {commands : List Command}
    {result : Except Error (List Reply)} {after : Connection}
    (hrun : (exchange commands).run connection = (result, after)) :
    ∃ more, Follows answers (took ++ more) after ∧
      after.peer.heard.length = connection.peer.heard.length + commands.length ∧
      Gives commands.length more result := by
  have hheard : (connection.peer.hear commands).heard.length =
      connection.peer.heard.length + commands.length := by
    rw [Peer.hear, List.length_append, List.length_reverse, Nat.add_comm]
  have htold : Follows answers (took ++ []) ⟨connection.peer.hear commands, connection.received⟩ :=
    (List.append_nil took).symm ▸ h.hear commands
  cases hcollect : Client.collect commands.length [] connection.received with
  | settled found rest =>
      simp only [exchange, StateT.run, hcollect] at hrun
      cases hrun
      obtain ⟨more, hmore, hwanted, rfl⟩ := htold.settled hwritten hcollect
      refine ⟨more, hmore, hheard, ?_⟩
      rintro _ ⟨⟩
      exact ⟨rfl, hwanted⟩
  | waiting found rest =>
      simp only [exchange, StateT.run, hcollect] at hrun
      obtain ⟨more, hmore, hafter, hgives⟩ :=
        follows_await hwritten (htold.waiting hwritten hcollect) hrun
      exact ⟨more, hmore, hafter ▸ hheard, hgives⟩

end Follows

/-- One batch after another over the same connection, whether or not those before have failed. -/
def exchangeAll : List (List Command) → StateM Connection (List (Except Error (List Reply)))
  | [] => return []
  | commands :: batches => return (← exchange commands) :: (← exchangeAll batches)

/-- The commands of the batches that were given replies. -/
def succeeded : List (List Command) → List (Except Error (List Reply)) → List Command
  | commands :: batches, .ok _ :: results => commands ++ succeeded batches results
  | _ :: batches, .error _ :: results => succeeded batches results
  | [], _ | _, [] => []

theorem succeeded_of_all {batches : List (List Command)}
    {results : List (Except Error (List Reply))} (hlength : results.length = batches.length)
    (h : ∀ result ∈ results, result.isOk = true) : succeeded batches results = batches.flatten := by
  induction batches generalizing results with
  | nil => rfl
  | cons commands batches ih =>
      cases results with
      | nil => cases hlength
      | cons result results =>
          have hlater := ih (Nat.succ.inj hlength)
            fun other hmem => h other (List.mem_cons_of_mem _ hmem)
          cases result with
          | ok found => rw [succeeded, hlater, List.flatten_cons]
          | error error => cases h _ List.mem_cons_self

theorem length_succeeded_cons {commands : List Command} {more : List Reply}
    {result : Except Error (List Reply)} (h : Gives commands.length more result)
    (batches : List (List Command)) (results : List (Except Error (List Reply))) :
    (succeeded (commands :: batches) (result :: results)).length ≤
      more.length + (succeeded batches results).length := by
  cases result with
  | ok found =>
      obtain ⟨rfl, hwanted⟩ := h found rfl
      rw [succeeded, List.length_append]
      exact Nat.add_le_add_right hwanted _
  | error error => exact Nat.le_add_left _ _

theorem follows_exchangeAll {answers took : List Reply} {connection : Connection}
    (hwritten : ∀ reply ∈ answers, reply.IsWritten) (h : Follows answers took connection)
    {batches : List (List Command)} {results : List (Except Error (List Reply))}
    {after : Connection} (hrun : (exchangeAll batches).run connection = (results, after)) :
    results.length = batches.length ∧
      ∃ more, Follows answers (took ++ more) after ∧
        after.peer.heard.length = connection.peer.heard.length + batches.flatten.length ∧
        (succeeded batches results).length ≤ more.length := by
  induction batches generalizing took connection results after with
  | nil =>
      cases hrun
      exact ⟨rfl, [], (List.append_nil took).symm ▸ h, rfl, Nat.zero_le _⟩
  | cons commands batches ih =>
      cases hfirst : (exchange commands).run connection with
      | mk result between =>
          cases hrest : (exchangeAll batches).run between with
          | mk later last =>
              have hboth : (exchangeAll (commands :: batches)).run connection =
                  (result :: later, last) := by
                rw [exchangeAll, StateT.run_bind, hfirst]
                change ((exchangeAll batches).run between).map (result :: ·) id = _
                rw [hrest]
                rfl
              cases hboth.symm.trans hrun
              obtain ⟨first, hbetween, hheard, hgives⟩ := follows_exchange hwritten h hfirst
              obtain ⟨hlength, more, hlast, hlater, hsucceeded⟩ := ih hbetween hrest
              refine ⟨congrArg (· + 1) hlength, first ++ more, ?_, ?_, ?_⟩
              · rw [← List.append_assoc]
                exact hlast
              · rw [hlater, hheard, List.flatten_cons, List.length_append, Nat.add_assoc]
              · rw [List.length_append]
                exact Nat.le_trans (length_succeeded_cons hgives _ _)
                  (Nat.add_le_add_left hsucceeded _)

/-- **Replies in step.** Whoever sends batches over one connection is given, for a batch that
succeeds, answers that follow one another. They begin at the first command of the batch if all
batches before it have succeeded, and then they are its own. Otherwise they can begin earlier, by no
more than the commands of the batches that failed. -/
theorem replies_in_step {answers : List Reply} {deliveries : List Delivery}
    (h : Peer.Answers answers deliveries) (holds : Bool) (earlier : List (List Command))
    (commands : List Command) {results : List (Except Error (List Reply))} {between : Connection}
    (hearlier : (exchangeAll earlier).run (.ofPeer (.ofDeliveries deliveries holds)) =
      (results, between)) {replies : List Reply}
    (hreplies : ((exchange commands).run between).1 = .ok replies) :
    (∃ position, (succeeded earlier results).length ≤ position ∧
        position ≤ earlier.flatten.length ∧ replies <+: answers.drop position ∧
        commands.length ≤ replies.length ∧
        position + replies.length ≤ earlier.flatten.length + commands.length) ∧
      ((∀ result ∈ results, result.isOk = true) →
        replies = (answers.drop earlier.flatten.length).take commands.length) := by
  obtain ⟨hlength, took, hbetween, hheard, hsucceeded⟩ :=
    follows_exchangeAll h.written (follows_start h holds) hearlier
  rw [List.nil_append] at hbetween
  have hbefore : between.peer.heard.length = earlier.flatten.length :=
    hheard.trans (Nat.zero_add _)
  cases hrun : (exchange commands).run between with
  | mk result after =>
      obtain ⟨more, hafter, hlater, hgives⟩ := follows_exchange h.written hbetween hrun
      rw [hrun] at hreplies
      obtain ⟨rfl, hwanted⟩ := hgives replies hreplies
      have hposition : took.length ≤ earlier.flatten.length := by
        rw [← hbefore]
        exact hbetween.length_le
      have hends : took.length + replies.length ≤ earlier.flatten.length + commands.length := by
        rw [← hbefore, ← hlater, ← List.length_append]
        exact hafter.length_le
      have hrow : replies <+: answers.drop took.length := by
        obtain ⟨rest, hrest⟩ := hafter.taken.trans (List.take_prefix _ _)
        rw [← hrest, List.append_assoc, List.drop_left]
        exact List.prefix_append replies rest
      refine ⟨⟨took.length, hsucceeded, hposition, hrow, hwanted, hends⟩, fun hall => ?_⟩
      rw [succeeded_of_all hlength hall] at hsucceeded
      have hown : took.length = earlier.flatten.length := Nat.le_antisymm hposition hsucceeded
      have hcount : replies.length = commands.length := by omega
      rw [← hown, ← hcount]
      exact List.prefix_iff_eq_take.1 hrow

/-- The second command is answered when the third has been heard. -/
def late : List Delivery :=
  [⟨2, Resp.line 43 [65]⟩, ⟨3, Resp.line 45 [66]⟩, ⟨3, Resp.line 43 [67]⟩]

/-- The reader's patience ends before the second reply has come, and the reply is then given to the
batch behind. -/
theorem replies_in_step_late :
    ∃ (results : List (Except Error (List Reply))) (between : Connection) (replies : List Reply),
      (exchangeAll [[[[1]], [[2]]]]).run (.ofPeer (.ofDeliveries late true)) = (results, between) ∧
        ((exchange [[[3]]]).run between).1 = .ok replies ∧
        (∃ position ≤ 2, replies <+: [.simple [65], .error [66], .simple [67]].drop position ∧
          1 ≤ replies.length ∧ position + replies.length ≤ 3) ∧
        replies.map encode = [Resp.line 45 [66]] ∧ ¬ ∀ result ∈ results, result.isOk = true := by
  have hanswers : Peer.Answers [.simple [65], .error [66], .simple [67]] late := by
    refine ⟨?_, by decide, by decide, by decide, trivial⟩
    simp only [List.forall_mem_cons]
    exact ⟨.simple (by decide), .error (by decide), .simple (by decide), nofun⟩
  cases hearlier : (exchangeAll [[[[1]], [[2]]]]).run (.ofPeer (.ofDeliveries late true)) with
  | mk results between =>
      have hgiven : (((exchange [[[3]]]).run ((exchangeAll [[[[1]], [[2]]]]).run
          (.ofPeer (.ofDeliveries late true))).2).1.toOption.map (·.map encode)) =
            some [Resp.line 45 [66]] := by
        decide +kernel
      rw [hearlier] at hgiven
      cases hreplies : ((exchange [[[3]]]).run between).1 with
      | error error =>
          rw [hreplies] at hgiven
          cases hgiven
      | ok replies =>
          rw [hreplies] at hgiven
          have hbytes : replies.map encode = [Resp.line 45 [66]] := Option.some.inj hgiven
          obtain ⟨⟨position, _, hposition, hrow, hwanted, hends⟩, hown⟩ :=
            replies_in_step hanswers true [[[[1]], [[2]]]] [[[3]]] hearlier hreplies
          refine ⟨results, between, replies, rfl, hreplies, ⟨position, hposition, hrow, hwanted, hends⟩,
            hbytes, fun hall => ?_⟩
          rw [hown hall] at hbytes
          cases hbytes

end Connection

end RedisSnapshot
