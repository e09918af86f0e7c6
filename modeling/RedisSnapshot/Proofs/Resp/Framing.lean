import Mathlib.Data.List.Basic
import RedisSnapshot.Proofs.Resp.Written

/-!
# What is sent says where it ends

A reply is found at the front of whatever begins with it, and nothing is found where a part of it is
missing. Commands are arrays of byte strings, and are read back as such by the same reader. Every
length stands in front of what it counts, so an argument may have any bytes, those of other commands
too, and is one argument all the same.
-/

namespace RedisSnapshot

namespace Reply

open Reader

theorem parseAll_flatMap_encode {replies : List Reply} (h : ∀ reply ∈ replies, reply.IsWritten)
    (rest : Bytes) :
    parseAll (replies.flatMap encode ++ rest) = (parseAll rest).behind replies := by
  induction replies with
  | nil => rfl
  | cons reply replies ih =>
      have hreads : reader.Reads reply reply.encode := reads_encode (h reply List.mem_cons_self)
      have hlater := ih fun other hmem => h other (List.mem_cons_of_mem _ hmem)
      rw [List.flatMap_cons, List.append_assoc, parseAll_of_done (hreads 0 _), hlater]
      rfl

/-- **Replies.** Every reply that can be written is read from its bytes, whatever stands behind them,
and from nothing less. Less is no fault, but no reply either. -/
theorem parse_encode {reply : Reply} (h : reply.IsWritten) :
    (∀ suffix,
        reader.run (.start (reply.encode ++ suffix)) =
            .done reply ⟨reply.encode.length, suffix⟩ ∧
          parse (reply.encode ++ suffix) = .ok (some (reply, suffix))) ∧
      ∀ front, front <+: reply.encode → front ≠ reply.encode → parse front = .ok none := by
  have hreads := reads_encode h
  constructor
  · intro suffix
    have hrun : reader.run (.start (reply.encode ++ suffix)) =
        .done reply ⟨reply.encode.length, suffix⟩ := by
      rw [Cursor.start, hreads, Nat.zero_add]
    refine ⟨hrun, ?_⟩
    rw [parse, hrun]
  · intro front hfront hless
    obtain ⟨need, cursor, hrun⟩ := hreads.short hfront hless
    rw [parse, hrun]

/-- A line that ends in a lone carriage return, and an array inside an array. -/
def nested : Reply :=
  .array [.simple [65, 13], .integer (-7), .array [.nullBulk, .bulk [13, 10]], .nullArray]

theorem parse_encode_nested :
    nested.IsWritten ∧
      (reader.run (.start (nested.encode ++ [36])) = .done nested ⟨36, [36]⟩ ∧
        parse (nested.encode ++ [36]) = .ok (some (nested, [36]))) ∧
      parse (nested.encode.take 6) = .ok none ∧ parse (nested.encode.take 7) = .ok none := by
  have hinner : (Reply.array [.nullBulk, .bulk [13, 10]]).IsWritten := by
    refine .array (by decide) ?_
    simp only [List.forall_mem_cons]
    exact ⟨.nullBulk, .bulk (by decide), nofun⟩
  have hnested : nested.IsWritten := by
    refine .array (by decide) ?_
    simp only [List.forall_mem_cons]
    exact ⟨.simple (by decide), .integer (by decide), hinner, .nullArray, nofun⟩
  have hlength : nested.encode.length = 36 := by decide +kernel
  obtain ⟨hwhole, hless⟩ := parse_encode hnested
  have hcut : ∀ count < 36, parse (nested.encode.take count) = .ok none := by
    intro count hcount
    refine hless _ (List.take_prefix count _) fun heq => ?_
    have hshort := congrArg List.length heq
    rw [List.length_take, hlength] at hshort
    omega
  refine ⟨hnested, ?_, hcut 6 (by decide), hcut 7 (by decide)⟩
  rw [← hlength]
  exact hwhole [36]

end Reply

namespace Command

open Reply Resp

/-- What a command is to whoever reads replies. -/
def asReply (command : Command) : Reply :=
  .array (command.map .bulk)

/-- A machine has memory for fewer than `2 ^ 63` arguments, and for no longer ones. -/
def IsHeld (command : Command) : Prop :=
  command.length < Word.count 63 ∧ ∀ argument ∈ command, argument.length < Word.count 63

theorem encode_asReply (command : Command) : command.asReply.encode = command.encode := by
  rw [asReply, Reply.encode, encodeEach_eq_flatMap, List.flatMap_map, List.length_map]
  rfl

theorem isWritten_asReply {command : Command} (h : command.IsHeld) : command.asReply.IsWritten := by
  obtain ⟨hcount, harguments⟩ := h
  refine .array (by rwa [List.length_map]) fun item hitem => ?_
  obtain ⟨argument, hargument, rfl⟩ := List.mem_map.1 hitem
  exact .bulk (harguments argument hargument)

theorem asReply_injective : Function.Injective asReply := by
  intro first second h
  have hbulk : Function.Injective Reply.bulk := fun _ _ hpayload => Reply.bulk.inj hpayload
  exact List.map_injective_iff.2 hbulk (Reply.array.inj h)

theorem put_eq_append (buffer : Bytes) (command : Command) :
    command.put buffer = buffer ++ command.encode := by
  rw [put, List.foldl_append_eq_append, List.append_assoc]
  rfl

theorem foldl_put_eq_append (commands : List Command) (buffer : Bytes) :
    commands.foldl put buffer = buffer ++ commands.flatMap encode := by
  induction commands generalizing buffer with
  | nil => exact (List.append_nil buffer).symm
  | cons command commands ih =>
      rw [List.foldl_cons, ih, put_eq_append, List.append_assoc, List.flatMap_cons]

theorem parseAll_flatMap_encode {commands : List Command}
    (h : ∀ command ∈ commands, command.IsHeld) :
    parseAll (commands.flatMap encode) = ⟨commands.map asReply, [], none⟩ := by
  have hwritten : ∀ reply ∈ commands.map asReply, reply.IsWritten := by
    intro reply hreply
    obtain ⟨command, hcommand, rfl⟩ := List.mem_map.1 hreply
    exact isWritten_asReply (h command hcommand)
  have hbytes : (commands.map asReply).flatMap Reply.encode = commands.flatMap encode := by
    rw [List.flatMap_map]
    exact congrArg (commands.flatMap ·) (funext encode_asReply)
  have hparse := Reply.parseAll_flatMap_encode hwritten []
  rw [hbytes, List.append_nil, isPending_nil] at hparse
  rw [hparse, Arrived.behind, List.append_nil]

/-- **Commands.** Putting commands into a buffer leaves what it had and adds their bytes, and from
these bytes exactly the commands are read: one array for each, of its arguments in order, and not a
byte is left. So no two rows of commands have the same bytes. -/
theorem parseAll_commands {commands : List Command} (h : ∀ command ∈ commands, command.IsHeld) :
    (∀ buffer, commands.foldl put buffer = buffer ++ commands.flatMap encode) ∧
      parseAll (commands.flatMap encode) = ⟨commands.map asReply, [], none⟩ ∧
      ∀ others : List Command, (∀ other ∈ others, other.IsHeld) →
        others.flatMap encode = commands.flatMap encode → others = commands := by
  have hparse := parseAll_flatMap_encode h
  refine ⟨foldl_put_eq_append commands, hparse, fun others hothers hsame => ?_⟩
  rw [← hsame, parseAll_flatMap_encode hothers] at hparse
  exact List.map_injective_iff.2 asReply_injective (congrArg Arrived.replies hparse)

/-- No command at all, and one whose arguments are the bytes of another and nothing. -/
theorem parseAll_commands_nothing :
    Command.IsHeld [] ∧ Command.IsHeld [[42, 49, 13, 10, 36, 48], []] ∧
      [[], [[42, 49, 13, 10, 36, 48], []]].foldl put [43, 79] =
        [43, 79] ++ [[], [[42, 49, 13, 10, 36, 48], []]].flatMap encode ∧
      parseAll ([[], [[42, 49, 13, 10, 36, 48], []]].flatMap encode) =
        ⟨[.array [], .array [.bulk [42, 49, 13, 10, 36, 48], .bulk []]], [], none⟩ := by
  have hnothing : Command.IsHeld [] := ⟨by decide, nofun⟩
  have hbytes : Command.IsHeld [[42, 49, 13, 10, 36, 48], []] := by
    unfold IsHeld
    decide
  have hcommands : ∀ command ∈ [[], [[42, 49, 13, 10, 36, 48], []]], Command.IsHeld command := by
    simp only [List.forall_mem_cons]
    exact ⟨hnothing, hbytes, nofun⟩
  obtain ⟨hput, hparse, _⟩ := parseAll_commands hcommands
  exact ⟨hnothing, hbytes, hput [43, 79], hparse⟩

end Command

end RedisSnapshot
