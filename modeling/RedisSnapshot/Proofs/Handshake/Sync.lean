import RedisSnapshot.Proofs.Decimal
import RedisSnapshot.Proofs.Handshake.Line

/-!
# What a handshake says and reads

A handshake says no more than its two commands, and the second one only to a peer that has welcomed
the first. It reads no more than one line for each. The bytes behind the second line, whatever they
are, are left to whoever reads the snapshot.
-/

namespace RedisSnapshot

namespace Handshake

/-- What has to be said in front of SYNC: a password if there is one, and with it the name of the
user if there is one. -/
inductive Opening (credentials : Credentials) : List Command → Prop where
  | free (h : ∀ password, credentials.password = some password → password = "") :
      Opening credentials []
  | password {password : String} (hpassword : credentials.password = some password)
      (hsecret : password ≠ "") (huser : ∀ user, credentials.user = some user → user = "") :
      Opening credentials [.named "AUTH" [Text.bytes password]]
  | user {user password : String} (hpassword : credentials.password = some password)
      (hsecret : password ≠ "") (huser : credentials.user = some user) (hnamed : user ≠ "") :
      Opening credentials [.named "AUTH" [Text.bytes user, Text.bytes password]]

def syncCommand : Command :=
  .named "SYNC" []

/-- A line that announces so many bytes: a dollar sign and a decimal number, with a plus sign or
without one, which is positive and can be a signed word. -/
inductive Announces (length : Nat) : Bytes → Prop where
  | mk {sign digits bytes : Bytes} (hsign : sign = [] ∨ sign = [43])
      (hdigits : Decimal.nat? digits = some length) (hpos : 0 < length)
      (hword : length < Word.count 63) (hline : LineForm (36 :: (sign ++ digits)) bytes) :
      Announces length bytes

theorem payloadLength_eq_ok_iff {line : Bytes} {n : Nat} :
    payloadLength line = .ok n ↔
      0 < n ∧ n < Word.count 63 ∧
        ∃ sign digits, line = 36 :: (sign ++ digits) ∧ (sign = [] ∨ sign = [43]) ∧
          Decimal.nat? digits = some n := by
  unfold payloadLength
  split
  · simp
  · rename_i text
    constructor
    · intro h
      split at h
      · rename_i length hread
        split at h
        · rename_i hpos
          cases h
          have hcast : ((length.toNat : Nat) : Int) = length := Int.toNat_of_nonneg (by omega)
          rw [← hcast, Decimal.signed?_eq_some_iff (by omega)] at hread
          obtain ⟨hlt, sign, digits, rfl, hrest⟩ := hread
          exact ⟨by omega, hlt, sign, digits, rfl, hrest⟩
        · cases h
      · cases h
    · rintro ⟨hpos, hlt, sign, digits, hline, hrest⟩
      have hread : Decimal.signed? 64 text = some (n : Int) :=
        (Decimal.signed?_eq_some_iff hpos).2 ⟨hlt, sign, digits, (List.cons.inj hline).2, hrest⟩
      rw [hread]
      simp [hpos]
  · rename_i hminus hdollar
    constructor
    · intro h
      cases h
    · rintro ⟨_, _, sign, digits, hline, _⟩
      exact absurd hline (hdollar (sign ++ digits))

section Credentials

theorem filter_isEmpty {text : Option String} (h : ∀ found, text = some found → found = "") :
    text.filter (!·.isEmpty) = none := by
  rw [Option.filter_eq_none_iff]
  intro found hfound
  simp [h found hfound]

theorem filter_not_isEmpty {found : String} (h : found ≠ "") :
    (some found).filter (!·.isEmpty) = some found := by
  simp [Option.filter, h]

theorem isEmpty_or (text : Option String) :
    (∀ found, text = some found → found = "") ∨ ∃ found, text = some found ∧ found ≠ "" := by
  by_cases h : ∃ found, text = some found ∧ found ≠ ""
  · exact .inr h
  · left
    intro found hfound
    by_contra hne
    exact h ⟨found, hfound, hne⟩

theorem opening_command? (credentials : Credentials) :
    Opening credentials credentials.command?.toList := by
  rw [Credentials.command?]
  rcases isEmpty_or credentials.password with hfree | ⟨password, hpassword, hsecret⟩
  · rw [filter_isEmpty hfree]
    exact .free hfree
  · rw [hpassword, filter_not_isEmpty hsecret]
    rcases isEmpty_or credentials.user with huser | ⟨user, huser, hnamed⟩
    · rw [filter_isEmpty huser]
      exact .password hpassword hsecret huser
    · rw [huser, filter_not_isEmpty hnamed]
      exact .user hpassword hsecret huser hnamed

end Credentials

end Handshake

namespace Peer

open Handshake

/-! ### What the peer says to a handshake -/

/-- The peer lets SYNC be said, at once or with the line that these bytes bring. -/
inductive Admits (peer : Peer) : List Command → Bytes → Prop where
  | unasked : Admits peer [] []
  | welcomed {command : Command} {greeting rest : Bytes}
      (h : LineForm (Text.bytes "+OK") greeting) (hsaid : peer.said 1 = greeting ++ rest) :
      Admits peer [command] greeting

/-- These bytes are where a handshake looks for a line, after the password or after SYNC. -/
inductive Awaits (peer : Peer) : List Command → Bytes → Prop where
  | greeting {command : Command} : Awaits peer [command] (peer.said 1)
  | announcement {opening : List Command} {greeting answer : Bytes}
      (h : peer.Admits opening greeting)
      (hsaid : peer.said (opening.length + 1) = greeting ++ answer) : Awaits peer opening answer

/-- How a handshake ends that begins with these commands. -/
structure Synced (peer : Peer) (opening : List Command)
    (result : Except Error Payload) (after : Peer) : Prop where
  /-- SYNC is said to a peer that lets it be said. -/
  requested : ∀ {greeting}, peer.Admits opening greeting →
    after.transcript = peer.transcript ++ (opening ++ [syncCommand]).flatMap Command.encode
  /-- To another one it is not. -/
  unrequested : (∀ greeting, ¬ peer.Admits opening greeting) →
    after.transcript = peer.transcript ++ opening.flatMap Command.encode ∧
      ∃ error, result = .error error
  /-- A payload has the announced length, and its bytes are those behind the announcement. -/
  accepted : ∀ {payload}, result = .ok payload →
    ∃ greeting bytes, peer.Admits opening greeting ∧ Announces payload.remaining bytes ∧
      peer.said (opening.length + 1) = greeting ++ (bytes ++ payload.source.input) ∧
      payload.source = after.source ∧ peer.everything = greeting ++ (bytes ++ after.everything)
  /-- With an announcement there is a payload. -/
  announced : ∀ {greeting bytes rest length}, peer.Admits opening greeting →
    Announces length bytes → peer.said (opening.length + 1) = greeting ++ (bytes ++ rest) →
    result = .ok ⟨after.source, length⟩
  /-- A connection that ends inside a line. -/
  unfinished : ∀ {awaited}, peer.Awaits opening awaited → Unfinished awaited →
    ∃ failure, result = .error (.io failure)
  /-- A line that is too long. -/
  overlong : ∀ {bytes rest}, peer.Awaits opening (bytes ++ rest) → Overlong bytes →
    result = .error (.protocol .lineLength)

section Hearing

theorem said_hear (peer : Peer) (command : Command) (commands : Nat) :
    (peer.hear [command]).said commands = peer.said (commands + 1) := by
  simp only [said, hear, List.reverse_singleton, List.singleton_append, List.length_cons]
  rw [Nat.add_right_comm, Nat.add_assoc]

theorem HasRead.transcript_eq {before after : Peer} {used : Bytes} (h : HasRead before used after) :
    after.transcript = before.transcript := by
  rw [transcript, transcript, h.heard]

theorem source_input (peer : Peer) : peer.source.input = peer.said 0 :=
  rfl

end Hearing

/-! ### Asking for the snapshot -/

/-- The second half of a handshake. -/
def request : StateM Peer (Except Error Payload) := fun peer =>
  let (line, after) := (peer.hear [syncCommand]).readLine
  ((line >>= payloadLength).map fun length => ⟨after.source, length⟩, after)

section Request

variable {peer : Peer} {bytes rest : Bytes}

theorem request_of_line {line : Except Error Bytes} {after : Peer}
    (h : (peer.hear [syncCommand]).readLine = (line, after)) :
    request peer = ((line >>= payloadLength).map fun length => ⟨after.source, length⟩, after) := by
  rw [request, h]

theorem request_transcript (peer : Peer) :
    (request peer).2.transcript = peer.transcript ++ syncCommand.encode := by
  obtain ⟨failure, used, after, hline, _, hread⟩ := readLine_eq (peer.hear [syncCommand])
  rw [request_of_line hline, ← List.flatMap_singleton Command.encode, ← transcript_hear]
  exact hread.transcript_eq

theorem request_of_announced {length : Nat} (h : Announces length bytes)
    (hsaid : peer.said 1 = bytes ++ rest) :
    ∃ after, request peer = (.ok ⟨after.source, length⟩, after) ∧
      HasRead (peer.hear [syncCommand]) bytes after := by
  obtain ⟨hsign, hdigits, hpos, hword, hform⟩ := h
  obtain ⟨after, hline, hread⟩ := readLine_of_line hform ((said_hear ..).trans hsaid)
  refine ⟨after, ?_, hread⟩
  have hlength := payloadLength_eq_ok_iff.2 ⟨hpos, hword, _, _, rfl, hsign, hdigits⟩
  rw [request_of_line hline]
  simp only [bind, Except.bind, hlength, Except.map]

theorem request_of_unfinished (h : Unfinished (peer.said 1)) :
    ∃ failure, (request peer).1 = .error (.io failure) := by
  obtain ⟨failure, after, hline, _⟩ :=
    @readLine_of_unfinished (peer.hear [syncCommand]) ((said_hear ..).symm ▸ h)
  exact ⟨failure, by rw [request_of_line hline]; rfl⟩

theorem request_of_overlong (h : Overlong bytes) (hsaid : peer.said 1 = bytes ++ rest) :
    (request peer).1 = .error (.protocol .lineLength) := by
  obtain ⟨after, hline, _⟩ := readLine_of_overlong h ((said_hear ..).trans hsaid)
  rw [request_of_line hline]
  rfl

/-- Nothing but an announcement makes a payload. -/
theorem announced_of_request {payload : Payload} (h : (request peer).1 = .ok payload) :
    ∃ bytes rest, Announces payload.remaining bytes ∧ peer.said 1 = bytes ++ rest := by
  rcases form_of_sent (peer.said 1) with ⟨line, bytes, rest, hform, hsaid⟩ | hopen |
    ⟨bytes, rest, hlong, hsaid⟩
  · obtain ⟨after, hline, _⟩ := readLine_of_line hform ((said_hear ..).trans hsaid)
    rw [request_of_line hline] at h
    change (payloadLength line).map _ = _ at h
    cases hlength : payloadLength line with
    | error error =>
        rw [hlength] at h
        cases h
    | ok length =>
        rw [hlength] at h
        cases h
        obtain ⟨hpos, hword, sign, digits, rfl, hsign, hdigits⟩ := payloadLength_eq_ok_iff.1 hlength
        exact ⟨bytes, rest, .mk hsign hdigits hpos hword hform, hsaid⟩
  · obtain ⟨failure, hfail⟩ := request_of_unfinished hopen
    rw [hfail] at h
    cases h
  · rw [request_of_overlong hlong hsaid] at h
    cases h

end Request

/-! ### Both halves -/

section Sync

variable {credentials : Credentials} {peer : Peer}

theorem bind_apply_peer {α β : Type} (x : StateM Peer α) (f : α → StateM Peer β) (peer : Peer) :
    (x >>= f) peer = f (x peer).1 (x peer).2 :=
  rfl

theorem pure_apply_peer {α : Type} (value : α) (peer : Peer) :
    (pure value : StateM Peer α) peer = (value, peer) :=
  rfl

theorem sync_eq (credentials : Credentials) (peer : Peer) :
    sync credentials peer =
      match authenticate send readLine credentials peer with
      | (.error error, after) => (.error error, after)
      | (.ok (), after) => request after := by
  rw [sync, bind_apply_peer, Handshake.run, bind_apply_peer]
  rcases authenticate send readLine credentials peer with ⟨_ | _, after⟩
  · rfl
  · simp only [bind_apply_peer, send, pure_apply_peer, request, syncCommand]
    rcases (after.hear [Command.named "SYNC" []]).readLine with ⟨line, after⟩
    cases hlength : line >>= payloadLength with
    | error error =>
        simp only [hlength]
        rfl
    | ok length =>
        simp only [hlength]
        rfl

theorem sync_of_free (h : credentials.command? = none) :
    sync credentials peer = request peer := by
  have hfree : authenticate send readLine credentials peer = (.ok (), peer) := by
    rw [authenticate, h]
    rfl
  rw [sync_eq, hfree]

theorem sync_of_command {command : Command} (h : credentials.command? = some command) :
    sync credentials peer =
      match (peer.hear [command]).readLine with
      | (.error error, after) => (.error error, after)
      | (.ok line, after) =>
          if line = Text.bytes "+OK" then request after
          else (.error (.protocol (.authentication line)), after) := by
  rw [sync_eq, authenticate, h]
  simp only [bind_apply_peer, send]
  rcases (peer.hear [command]).readLine with ⟨_ | line, after⟩
  · rfl
  · by_cases hline : line = Text.bytes "+OK"
    · simp only [if_pos hline]
      rfl
    · simp only [if_neg hline]
      rfl

/-- Asked or not, the peer that lets SYNC be said is asked for its snapshot, and nothing was read of
it but the greeting. -/
theorem sync_of_admits {greeting : Bytes} (h : peer.Admits credentials.command?.toList greeting) :
    ∃ welcomed, sync credentials peer = request welcomed ∧
      welcomed.transcript = peer.transcript ++ credentials.command?.toList.flatMap Command.encode ∧
      (∀ commands, peer.said (credentials.command?.toList.length + commands) =
        greeting ++ welcomed.said commands) ∧
      peer.everything = greeting ++ welcomed.everything := by
  cases hcommand : credentials.command? with
  | none =>
      rw [hcommand] at h
      cases h
      refine ⟨peer, sync_of_free hcommand, (List.append_nil _).symm, fun commands => ?_, rfl⟩
      exact congrArg peer.said (Nat.zero_add commands)
  | some command =>
      rw [hcommand] at h
      obtain _ | ⟨hform, hsaid⟩ := h
      obtain ⟨welcomed, hline, hread⟩ :=
        @readLine_of_line (peer.hear [command]) _ _ _ hform ((said_hear ..).trans hsaid)
      refine ⟨welcomed, ?_, ?_, fun commands => ?_, hread.everything⟩
      · rw [sync_of_command hcommand, hline]
        exact if_pos rfl
      · rw [hread.transcript_eq, transcript_hear]
        rfl
      · have hread := hread.said commands
        rw [said_hear, Nat.add_comm] at hread
        exact hread

/-- A peer that does not let SYNC be said is asked nothing more. -/
theorem sync_of_not_admits (h : ∀ greeting, ¬ peer.Admits credentials.command?.toList greeting) :
    (sync credentials peer).2.transcript =
        peer.transcript ++ credentials.command?.toList.flatMap Command.encode ∧
      ∃ error, (sync credentials peer).1 = .error error := by
  cases hcommand : credentials.command? with
  | none =>
      rw [hcommand] at h
      exact absurd .unasked (h [])
  | some command =>
      rw [hcommand] at h
      have htranscript : ∀ {used after}, HasRead (peer.hear [command]) used after →
          after.transcript = peer.transcript ++ [command].flatMap Command.encode := by
        intro used after hread
        rw [hread.transcript_eq, transcript_hear]
      rw [sync_of_command hcommand]
      rcases form_of_sent (peer.said 1) with ⟨line, bytes, rest, hform, hsaid⟩ | hopen |
        ⟨bytes, rest, hlong, hsaid⟩
      · obtain ⟨after, hline, hread⟩ := readLine_of_line hform ((said_hear ..).trans hsaid)
        have hrefused : line ≠ Text.bytes "+OK" := by
          rintro rfl
          exact h bytes (.welcomed hform hsaid)
        rw [hline]
        simp only [if_neg hrefused]
        exact ⟨htranscript hread, _, rfl⟩
      · obtain ⟨failure, after, hline, hread⟩ :=
          @readLine_of_unfinished (peer.hear [command]) ((said_hear ..).symm ▸ hopen)
        rw [hline]
        exact ⟨htranscript hread, _, rfl⟩
      · obtain ⟨after, hline, hread⟩ := readLine_of_overlong hlong ((said_hear ..).trans hsaid)
        rw [hline]
        exact ⟨htranscript hread, _, rfl⟩

theorem sync_of_awaits {awaited : Bytes} (h : peer.Awaits credentials.command?.toList awaited) :
    (∃ command, credentials.command? = some command ∧ awaited = peer.said 1) ∨
      ∃ welcomed, sync credentials peer = request welcomed ∧ welcomed.said 1 = awaited := by
  generalize hopening : credentials.command?.toList = opening at h
  cases h with
  | greeting => exact .inl ⟨_, Option.toList_eq_singleton_iff.1 hopening, rfl⟩
  | announcement hadmits hanswer =>
      subst hopening
      obtain ⟨welcomed, hsync, -, hsaid, -⟩ := sync_of_admits hadmits
      rw [hsaid] at hanswer
      exact .inr ⟨welcomed, hsync, List.append_cancel_left hanswer⟩

theorem sync_of_unfinished {awaited : Bytes}
    (h : peer.Awaits credentials.command?.toList awaited) (hopen : Unfinished awaited) :
    ∃ failure, (sync credentials peer).1 = .error (.io failure) := by
  rcases sync_of_awaits h with ⟨command, hcommand, rfl⟩ | ⟨welcomed, hsync, rfl⟩
  · obtain ⟨failure, after, hline, -⟩ :=
      @readLine_of_unfinished (peer.hear [command]) ((said_hear ..).symm ▸ hopen)
    exact ⟨failure, by rw [sync_of_command hcommand, hline]⟩
  · rw [hsync]
    exact request_of_unfinished hopen

theorem sync_of_overlong {bytes rest : Bytes}
    (h : peer.Awaits credentials.command?.toList (bytes ++ rest)) (hlong : Overlong bytes) :
    (sync credentials peer).1 = .error (.protocol .lineLength) := by
  rcases sync_of_awaits h with ⟨command, hcommand, hsaid⟩ | ⟨welcomed, hsync, hsaid⟩
  · obtain ⟨after, hline, -⟩ := readLine_of_overlong hlong ((said_hear ..).trans hsaid.symm)
    rw [sync_of_command hcommand, hline]
  · rw [hsync]
    exact request_of_overlong hlong hsaid

/-- **A handshake says and reads no more than it has to.** It says the password that it has, if any,
and SYNC only when no password had to be said or the answer to it was `+OK`. It ends with a payload
exactly when the answer to SYNC announces one, and then every byte behind that line is still to be
read. It fails if the peer stops inside of a line or makes one too long. -/
theorem sync_exact (credentials : Credentials) (peer : Peer) :
    ∃ opening, Opening credentials opening ∧
      peer.Synced opening (sync credentials peer).1 (sync credentials peer).2 := by
  refine ⟨_, opening_command? credentials, ?_⟩
  constructor
  · intro greeting hadmits
    obtain ⟨welcomed, hsync, htranscript, -, -⟩ := sync_of_admits hadmits
    rw [hsync, request_transcript, htranscript, List.flatMap_append, List.append_assoc]
    simp
  · intro hrefused
    exact sync_of_not_admits hrefused
  · intro payload hpayload
    have hadmits : ∃ greeting, peer.Admits credentials.command?.toList greeting := by
      by_contra hnone
      obtain ⟨_, error, herror⟩ := sync_of_not_admits (not_exists.1 hnone)
      rw [herror] at hpayload
      cases hpayload
    obtain ⟨greeting, hadmits⟩ := hadmits
    obtain ⟨welcomed, hsync, -, hsaid, heverything⟩ := sync_of_admits hadmits
    rw [hsync] at hpayload ⊢
    obtain ⟨bytes, rest, hannounces, hanswer⟩ := announced_of_request hpayload
    obtain ⟨after, hrequest, hread⟩ := request_of_announced hannounces hanswer
    rw [hrequest] at hpayload ⊢
    have hsource : payload.source = after.source :=
      congrArg Payload.source (Except.ok.inj hpayload).symm
    refine ⟨greeting, bytes, hadmits, hannounces, ?_, hsource, ?_⟩
    · have hbehind := hread.said 0
      rw [said_hear] at hbehind
      rw [hsaid, hsource, hbehind, source_input]
    · rw [heverything]
      exact congrArg _ hread.everything
  · intro greeting bytes rest length hadmits hannounces hanswer
    obtain ⟨welcomed, hsync, -, hsaid, -⟩ := sync_of_admits hadmits
    rw [hsaid] at hanswer
    obtain ⟨after, hrequest, -⟩ :=
      request_of_announced hannounces (List.append_cancel_left hanswer)
    rw [hsync, hrequest]
  · intro awaited hawaits hopen
    exact sync_of_unfinished hawaits hopen
  · intro bytes rest hawaits hlong
    exact sync_of_overlong hawaits hlong

/-- The line feed behind the announcement belongs to the payload. -/
example :
    let peer : Peer := .ofDeliveries
      [⟨1, Text.bytes "\n+OK\r"⟩, ⟨1, Text.bytes "\n"⟩, ⟨2, Text.bytes "\n$+3\r\n\nab"⟩] false
    (sync ⟨none, some "secret"⟩ peer).1.toOption.map (fun payload => (payload.source.input,
      payload.remaining)) = some (Text.bytes "\nab", 3) := by
  decide +kernel

end Sync

end Peer

end RedisSnapshot
