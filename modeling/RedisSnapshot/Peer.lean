import RedisSnapshot.Resp.Client
import RedisSnapshot.Source

/-!
# The far end of a connection

A peer says what it has to say in several deliveries, each as soon as it has heard enough commands.
Behind the last one it closes its side, or else it stays silent, and a reader's patience ends. So
does that of a reader who waits for a peer that itself waits for commands.
-/

namespace RedisSnapshot

/-- Bytes that a peer sends once it has heard so many commands in all. -/
structure Delivery where
  after : Nat
  content : Bytes

structure Peer where
  deliveries : List Delivery
  /-- Whether it stays silent when all is said. -/
  holds : Bool
  /-- What was sent to it, the latest first. -/
  heard : List Command

namespace Peer

def ofDeliveries (deliveries : List Delivery) (holds : Bool) : Peer :=
  ⟨deliveries, holds, []⟩

def hear (peer : Peer) (commands : List Command) : Peer :=
  { peer with heard := commands.reverse ++ peer.heard }

def transcript (peer : Peer) : Bytes :=
  peer.heard.reverse.flatMap Command.encode

theorem transcript_hear (peer : Peer) (commands : List Command) :
    (peer.hear commands).transcript = peer.transcript ++ commands.flatMap Command.encode := by
  rw [transcript, transcript, hear, List.reverse_append, List.reverse_reverse, List.flatMap_append]

def isDue (peer : Peer) (delivery : Delivery) : Bool :=
  delivery.after ≤ peer.heard.length

/-- The most bytes that one read brings. -/
def readSize : Nat := 16384

/-- One read, which brings at most what is left of one delivery. -/
def readFrom (due : Delivery → Bool) (holds : Bool) : List Delivery → Arrival × List Delivery
  | [] => (.ceased (if holds then some .deadline else none), [])
  | delivery :: rest =>
      if !due delivery then (.ceased (some .deadline), delivery :: rest)
      else if delivery.content.isEmpty then readFrom due holds rest
      else
        (.bytes (delivery.content.take readSize),
          { delivery with content := delivery.content.drop readSize } :: rest)

def read (peer : Peer) : Arrival × Peer :=
  let (arrival, deliveries) := readFrom peer.isDue peer.holds peer.deliveries
  (arrival, { peer with deliveries })

def unsent (peer : Peer) : Nat :=
  (peer.deliveries.flatMap Delivery.content).length

theorem length_lt_of_readFrom {due : Delivery → Bool} {holds : Bool} {content : Bytes}
    {deliveries after : List Delivery}
    (h : readFrom due holds deliveries = (.bytes content, after)) :
    (after.flatMap Delivery.content).length < (deliveries.flatMap Delivery.content).length := by
  fun_induction readFrom due holds deliveries with
  | case1 => split at h <;> cases h
  | case2 => cases h
  | case3 delivery rest _ hempty ih => simpa [List.isEmpty_iff.1 hempty] using ih h
  | case4 delivery rest _ hempty =>
      cases h
      have hpos : 0 < delivery.content.length := by
        rw [List.length_pos_iff]
        simpa using hempty
      simp [readSize]
      omega

theorem unsent_lt_of_read {peer after : Peer} {content : Bytes}
    (h : peer.read = (.bytes content, after)) : after.unsent < peer.unsent := by
  unfold read at h
  generalize hread : readFrom peer.isDue peer.holds peer.deliveries = result at h
  obtain ⟨arrival, deliveries⟩ := result
  cases h
  exact length_lt_of_readFrom hread

/-- Whatever it sends without hearing more, and how that ends, as a stream. -/
def source (peer : Peer) : Source :=
  let due := peer.deliveries.takeWhile peer.isDue
  let isAll := due.length = peer.deliveries.length
  ⟨due.flatMap Delivery.content, if isAll && !peer.holds then none else some .deadline, none⟩

end Peer

/-- A client's connection to a peer. -/
structure Connection where
  peer : Peer
  /-- What has arrived and no reply was taken from yet. -/
  received : Bytes

namespace Connection

def ofPeer (peer : Peer) : Connection :=
  ⟨peer, []⟩

/-- Reads until the replies that are wanted have come. -/
def await (wanted : Nat) (replies : List Reply) (received : Bytes) (peer : Peer) :
    Except Error (List Reply) × Connection :=
  match _h : peer.read with
  | (.bytes content, peer) =>
      match Client.collect wanted replies (received ++ content) with
      | .settled result received => (result, ⟨peer, received⟩)
      | .waiting replies received => await wanted replies received peer
  | (.ceased failure, peer) => (.error (Client.lost failure), ⟨peer, received⟩)
termination_by peer.unsent
decreasing_by exact Peer.unsent_lt_of_read _h

def exchange (commands : List Command) : StateM Connection (Except Error (List Reply)) :=
  fun connection =>
    let peer := connection.peer.hear commands
    match Client.collect commands.length [] connection.received with
    | .settled result received => (result, ⟨peer, received⟩)
    | .waiting replies received => await commands.length replies received peer

end Connection

end RedisSnapshot
