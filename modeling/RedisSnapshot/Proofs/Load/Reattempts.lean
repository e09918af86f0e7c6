import RedisSnapshot.CommandLine.Run
import RedisSnapshot.Peer
import RedisSnapshot.Proofs.Load.Fallback
import RedisSnapshot.Proofs.Resp.Arrival

/-!
# Behind which failures a pipeline is sent again

Another attempt follows any failure while there are attempts left, be it one that trying again may
help or not. What a destination refuses may be granted later, and so the only failures without such a
hope are those that the destination itself reports. One of them stays for good: where bytes have come
that are no reply they are never taken off, and no later pipeline gets past them.
-/

namespace RedisSnapshot

open Load

/-! ### Bytes that are no reply -/

namespace Reply

/-- No reply can be taken from these bytes, whatever comes behind them. -/
def IsSpoiled (fault : ProtocolFault) (received : Bytes) : Prop :=
  parseAll received = ⟨[], received, some fault⟩

theorem isSpoiled_rest {fault : ProtocolFault} (input : Bytes) :
    (parseAll input).fault = some fault → IsSpoiled fault (parseAll input).rest := by
  induction input using parseAll_induction with
  | hstep input ih =>
      intro hfault
      cases hrun : reader.run (.start input) with
      | done reply cursor =>
          rw [parseAll_of_done hrun] at hfault ⊢
          exact ih reply cursor hrun hfault
      | short need cursor =>
          rw [parseAll_of_short hrun] at hfault
          cases hfault
      | failed found cursor =>
          have hspoiled := parseAll_of_failed hrun
          rw [hspoiled] at hfault ⊢
          cases hfault
          exact hspoiled

end Reply

namespace Connection

variable {commands : List Command} {connection after : Connection} {fault : ProtocolFault}

theorem collect_of_fault {wanted : Nat} {replies : List Reply} {received rest : Bytes}
    (h : Client.collect wanted replies received = .settled (.error (.protocol fault)) rest) :
    Reply.IsSpoiled fault rest := by
  rw [Client.collect] at h
  cases hfault : (Reply.parseAll received).fault with
  | some found =>
      rw [hfault] at h
      cases h
      exact Reply.isSpoiled_rest received hfault
  | none =>
      rw [hfault] at h
      dsimp only at h
      split at h
      · cases h
      · cases h

theorem isSpoiled_of_await {wanted : Nat} {replies : List Reply} {received : Bytes} {peer : Peer}
    (h : await wanted replies received peer = (.error (.protocol fault), after)) :
    Reply.IsSpoiled fault after.received ∧ after.peer.heard = peer.heard := by
  fun_induction await wanted replies received peer with
  | case1 replies received peer content later hread result rest hcollect =>
      cases h
      exact ⟨collect_of_fault hcollect, congrArg (·.2.heard) hread.symm⟩
  | case2 replies received peer content later hread found rest hcollect ih =>
      obtain ⟨hspoiled, hheard⟩ := ih h
      exact ⟨hspoiled, hheard.trans (congrArg (·.2.heard) hread.symm)⟩
  | case3 replies received peer failure later hread => cases h

/-- An exchange that meets bytes which are no reply leaves them in front. -/
theorem isSpoiled_of_exchange
    (h : exchange commands connection = (.error (.protocol fault), after)) :
    Reply.IsSpoiled fault after.received ∧
      after.peer.heard = (connection.peer.hear commands).heard := by
  rw [exchange] at h
  cases hcollect : Client.collect commands.length [] connection.received with
  | settled result rest =>
      simp only [hcollect] at h
      cases h
      exact ⟨collect_of_fault hcollect, rfl⟩
  | waiting replies rest =>
      simp only [hcollect] at h
      exact isSpoiled_of_await h

/-- And any other exchange behind it sends its commands, reads nothing and fails of the same bytes. -/
theorem exchange_of_isSpoiled (h : Reply.IsSpoiled fault connection.received)
    (commands : List Command) :
    exchange commands connection =
      (.error (.protocol fault), ⟨connection.peer.hear commands, connection.received⟩) := by
  have hcollect : Client.collect commands.length [] connection.received =
      .settled (.error (.protocol fault)) connection.received := by
    rw [Client.collect, h]
  simp only [exchange, hcollect]

end Connection

namespace Peer

theorem transcript_iterate (peer : Peer) (commands : List Command) (times : Nat) :
    ((Peer.hear · commands)^[times] peer).transcript =
      peer.transcript ++ (List.replicate times (commands.flatMap Command.encode)).flatten := by
  induction times generalizing peer with
  | zero => exact (List.append_nil _).symm
  | succ times ih =>
      rw [Function.iterate_succ_apply, ih, transcript_hear, List.replicate_succ, List.flatten_cons,
        List.append_assoc]

end Peer

namespace Load

def Execution.ofResult : Except Error (List Reply) → Execution
  | .ok replies => .answered replies
  | .error error => .failed error

/-! ### Attempt after attempt -/

/-- An error that is told of answers is one that trying again may help. -/
theorem isRetryable_of_judge {commands : List Command} {execution : Execution} {error : Error}
    (h : judge commands execution = .failed error) :
    error.isRetryable = true ∨ execution = .failed error := by
  cases failsWith_of_judge h with
  | broken error => exact .inr rfl
  | miscounted hcount => exact .inl rfl
  | refused hcount hfront => exact .inl rfl

/-- Attempts follow only what trying again may help exactly if nothing else was reported. -/
theorem Reattempts.isRetryable_iff {commands : List Command} {outcomes : Nat → Execution}
    {retries failures : Nat} (h : Reattempts commands outcomes retries failures) :
    (∀ times < failures, ∃ error,
        judge commands (outcomes times) = .failed error ∧ error.isRetryable = true) ↔
      ∀ times < failures, ∀ error,
        outcomes times = .failed error → error.isRetryable = true := by
  constructor
  · intro hretryable times htimes error hreported
    obtain ⟨found, hjudge, hfound⟩ := hretryable times htimes
    rw [hreported, judge] at hjudge
    cases hjudge
    exact hfound
  · intro hreported times htimes
    obtain ⟨error, hjudge⟩ := h.earlier times htimes
    refine ⟨error, hjudge, ?_⟩
    rcases isRetryable_of_judge hjudge with hretryable | hsame
    · exact hretryable
    · exact hreported times htimes error hsame

/-! ### Over one connection -/

section Connections

variable {host : CommandLine.Host (StateM Connection)} {worker : Nat} {fault : ProtocolFault}

/-- What a worker sends goes over its connection. -/
theorem send_eq (hhost : host.exchange worker = Connection.exchange)
    (target : CommandLine.Target) (commands : List Command) (connection : Connection) :
    (host.destinations target).send worker commands connection =
      (.ofResult (Connection.exchange commands connection).1,
        (Connection.exchange commands connection).2) := by
  simp only [CommandLine.Host.destinations, hhost, bind_apply]
  cases (Connection.exchange commands connection).1 with
  | ok replies => rfl
  | error error => rfl

/-- Every attempt sends the commands once more, and none of them gets past the bytes in front. -/
theorem attempt_of_isSpoiled (hhost : host.exchange worker = Connection.exchange)
    (target : CommandLine.Target) {received : Bytes} (h : Reply.IsSpoiled fault received)
    (commands : List Command) (retries : Nat) (peer : Peer) :
    attempt ((host.destinations target).send worker) commands retries ⟨peer, received⟩ =
      (.failed (.protocol fault), ⟨(Peer.hear · commands)^[retries + 1] peer, received⟩) := by
  have hsend : ∀ peer, (host.destinations target).send worker commands ⟨peer, received⟩ =
      (.failed (.protocol fault), ⟨peer.hear commands, received⟩) := by
    intro peer
    rw [send_eq hhost, Connection.exchange_of_isSpoiled h]
    rfl
  induction retries generalizing peer with
  | zero =>
      rw [attempt, bind_apply, hsend]
      rfl
  | succ retries ih =>
      rw [attempt, bind_apply, hsend]
      exact ih (peer.hear commands)

end Connections

/-- **What another attempt follows.** Whatever the outcomes are, a pipeline is sent again behind each
attempt that has failed, up to the limit, and behind no other. All of these failures are such that
trying again may help exactly if the destination has reported no others. An error of the protocol on
a connection is followed by all the attempts that are left: each sends all commands again, and each
fails of the bytes that have stayed in front, as does anything that is sent on the connection behind
them. -/
theorem attempts_follow_failures (commands : List Command) (retries : Nat) :
    (∀ (destination : Destination) (number : Nat) (log : List Pipeline),
      ∃ failures,
        Reattempts commands (destination.again log ⟨number, commands⟩) retries failures ∧
        attempt (destination.send number) commands retries log =
          (judge commands (destination.again log ⟨number, commands⟩ failures),
            log ++ List.replicate (failures + 1) ⟨number, commands⟩) ∧
        ((∀ times < failures, ∃ error,
            judge commands (destination.again log ⟨number, commands⟩ times) = .failed error ∧
              error.isRetryable = true) ↔
          ∀ times < failures, ∀ error,
            destination.again log ⟨number, commands⟩ times = .failed error →
              error.isRetryable = true)) ∧
    ∀ (host : CommandLine.Host (StateM Connection)) (target : CommandLine.Target) (worker : Nat)
      (connection after : Connection) (fault : ProtocolFault),
      host.exchange worker = Connection.exchange →
      Connection.exchange commands connection = (.error (.protocol fault), after) →
      ∃ last : Connection,
        attempt ((host.destinations target).send worker) commands retries connection =
          (.failed (.protocol fault), last) ∧
        last.peer.transcript = connection.peer.transcript ++
          (List.replicate (retries + 1) (commands.flatMap Command.encode)).flatten ∧
        last.received = after.received ∧
        ∀ other, (Connection.exchange other last).1 = .error (.protocol fault) := by
  constructor
  · intro destination number log
    obtain ⟨failures, hreattempts, hattempt⟩ :=
      attempt_reattempts destination number commands retries log
    exact ⟨failures, hreattempts, hattempt, hreattempts.isRetryable_iff⟩
  · intro host target worker connection after fault hhost hfault
    obtain ⟨hspoiled, hheard⟩ := Connection.isSpoiled_of_exchange hfault
    have hfirst : (host.destinations target).send worker commands connection =
        (.failed (.protocol fault), after) := by
      rw [send_eq hhost, hfault]
      rfl
    have hsent : after.peer.transcript =
        connection.peer.transcript ++ commands.flatMap Command.encode := by
      rw [Peer.transcript, hheard]
      exact connection.peer.transcript_hear commands
    have hothers : ∀ (peer : Peer) other,
        (Connection.exchange other ⟨peer, after.received⟩).1 = .error (.protocol fault) := by
      intro peer other
      have hexchange := @Connection.exchange_of_isSpoiled ⟨peer, after.received⟩ _ hspoiled other
      rw [hexchange]
    cases retries with
    | zero =>
        refine ⟨after, ?_, ?_, rfl, hothers after.peer⟩
        · rw [attempt, bind_apply, hfirst]
          rfl
        · rw [hsent, List.replicate_one, List.flatten_singleton]
    | succ retries =>
        refine ⟨⟨(Peer.hear · commands)^[retries + 1] after.peer, after.received⟩, ?_, ?_, rfl,
          hothers _⟩
        · rw [attempt, bind_apply, hfirst]
          exact attempt_of_isSpoiled hhost target hspoiled commands retries after.peer
        · rw [Peer.transcript_iterate, hsent, List.append_assoc, List.replicate_succ (n := retries + 1),
            List.flatten_cons]

/-- Nothing but a connection, which every worker has. -/
def overConnection : CommandLine.Host (StateM Connection) where
  openFile _ := pure (.ok ())
  contents _ := pure (.ofBytes [])
  createFile _ := pure (.ok ())
  write _ _ := pure (.ok ())
  sync _ _ := pure (.error .cancelled)
  dial _ _ := pure (.ok ())
  exchange _ := Connection.exchange
  pause _ := pure ()

/-- The commands of a batch, and a peer that answers them with a byte that begins no reply. -/
theorem exchange_malformed :
    ∃ after, Connection.exchange [select 0, .named "SET" [[107], [118]]]
        (.ofPeer (.ofDeliveries [⟨2, [63]⟩] true)) =
      (.error (.protocol (.replyType 63)), after) := by
  have hwaiting : ∀ wanted, Client.collect (wanted + 1) [] [] = .waiting [] [] := by
    intro wanted
    rw [Client.collect, Reply.isPending_nil]
    rfl
  have hspoiled : Reply.IsSpoiled (.replyType 63) [63] := Reply.parseAll_of_failed rfl
  have hsettled : ∀ wanted, Client.collect wanted [] ([] ++ [63]) =
      .settled (.error (.protocol (.replyType 63))) [63] := by
    intro wanted
    rw [Client.collect, List.nil_append, hspoiled]
  simp only [Connection.exchange, Connection.ofPeer, List.length_cons, hwaiting]
  rw [Connection.await]
  split
  · rename_i content peer hread
    have hcontent : content = [63] := by
      cases hread
      rfl
    rw [hcontent, hsettled]
    exact ⟨_, rfl⟩
  · rename_i hread
    cases hread

/-- The peer is sent the same commands three times. -/
theorem attempts_follow_failures_malformed :
    ∃ last : Connection,
      attempt ((overConnection.destinations ⟨⟨[], .none⟩, {}⟩).send 0)
          [select 0, .named "SET" [[107], [118]]] 2 (.ofPeer (.ofDeliveries [⟨2, [63]⟩] true)) =
        (.failed (.protocol (.replyType 63)), last) ∧
      (Error.protocol (.replyType 63)).isRetryable = false ∧
      last.peer.transcript = (List.replicate 3
        ([select 0, .named "SET" [[107], [118]]].flatMap Command.encode)).flatten := by
  obtain ⟨after, hfault⟩ := exchange_malformed
  obtain ⟨-, hconnections⟩ := attempts_follow_failures [select 0, .named "SET" [[107], [118]]] 2
  obtain ⟨last, hattempt, hsent, -, -⟩ := hconnections overConnection ⟨⟨[], .none⟩, {}⟩ 0 _ _ _
    rfl hfault
  exact ⟨last, hattempt, rfl, hsent⟩

end Load

end RedisSnapshot
