/-
The two byte streams of a connection.

Whatever is sent on a connection waits in its send buffer until the socket takes
it, a part at a time, and whatever the socket gives waits in its receive buffer
until a handler removes it.  Handlers, threads that send and the poll loop take
their turns in any order here, and a record is kept beside the connection of what
was handed over at each end.  The receive buffer has no limit in this program.
-/

import DlcServer.Mbuf

namespace DlcServer

open Library

/-- Of `struct mg_connection` what the streams depend on. -/
structure MgConnection where
  recvMbuf : Mbuf
  sendMbuf : Mbuf
  connecting : Bool
  sendAndClose : Bool
  closeImmediately : Bool

def mgTcpIoSize : Nat := 1460

namespace MgConnection

/-- `mg_send`, and how many bytes are kept to be sent. -/
def send (nc : MgConnection) (data : CText) (first second : Grant) :
    Except Overstep (MgConnection × Nat) := do
  let (mbuf, stored) ← nc.sendMbuf.append data first second
  return ({ nc with sendMbuf := mbuf }, stored)

/-- What is offered to the socket, which is read from the array of the buffer. -/
def offered (nc : MgConnection) : Except Overstep CText :=
  let len := min nc.sendMbuf.len mgTcpIoSize
  if len ≤ nc.sendMbuf.size then .ok (nc.sendMbuf.buf.take len) else .error .read

/-- `mg_if_can_send_cb` when `send` of the socket returns `result`, and the bytes
that the socket has taken. -/
def canSend (nc : MgConnection) (result : Int) (grant : Grant) :
    Except Overstep (MgConnection × CText) :=
  if nc.closeImmediately ∨ nc.connecting then .ok (nc, [])
  else do
    let buf ← nc.offered
    -- the socket takes no more than it is offered
    let n := if buf = [] then 0 else min result buf.length
    if n < 0 then return ({ nc with closeImmediately := true }, [])
    else if 0 < n then
      let mbuf ← nc.sendMbuf.remove n.toNat
      return ({ nc with sendMbuf := mbuf.trim grant }, buf.take n.toNat)
    else return (nc, [])

/-- What `recv` of a socket comes to: an error, nothing for now, the end of the
stream, or bytes. -/
inductive Recv
  | failed
  | wouldBlock
  | ended
  | bytes (piece : CText)

/-- What the socket gives when there is `room` in the array.  Asked for no byte it
gives none, which is read as the end of the stream. -/
def Recv.into (recv : Recv) (room : Nat) : Recv :=
  match recv with
  | .bytes piece => if piece.take room = [] then .ended else .bytes (piece.take room)
  | _ => recv

/-- A turn of the loop of `mg_do_recv` before the handler is called, and the bytes
that are handed to it. -/
def doRecv (nc : MgConnection) (recv : Recv) (grant trimmed : Grant) :
    Except Overstep (MgConnection × CText) :=
  if nc.closeImmediately ∨ nc.connecting then .ok (nc, [])
  else
    let resized :=
      if nc.recvMbuf.size < nc.recvMbuf.len + mgTcpIoSize
        then nc.recvMbuf.resize (nc.recvMbuf.len + mgTcpIoSize) grant else nc.recvMbuf
    match recv.into (resized.size - resized.len) with
    | .failed =>
        .ok ({ nc with recvMbuf := resized.trim trimmed, closeImmediately := true }, [])
    | .wouldBlock => .ok ({ nc with recvMbuf := resized.trim trimmed }, [])
    | .ended => .ok ({ nc with recvMbuf := resized.trim trimmed, sendAndClose := true }, [])
    | .bytes piece => do
        let buf ← memcpy resized.buf resized.len piece
        let filled : Mbuf := { buf := buf, len := resized.len + piece.length }
        return ({ nc with recvMbuf := filled.trim trimmed }, piece)

/-- A handler takes bytes from the front of the receive buffer. -/
def removeReceived (nc : MgConnection) (n : Nat) : Except Overstep MgConnection := do
  return { nc with recvMbuf := ← nc.recvMbuf.remove n }

end MgConnection

/-! ### A connection and its two ends -/

inductive Closing
  | aborted
  /-- By `MG_F_SEND_AND_CLOSE`. -/
  | flushed
  deriving DecidableEq, Repr

structure Link where
  nc : MgConnection
  closed : Option Closing
  /-- What has been given to `mg_send`, and whether there was memory for it. -/
  sends : List (CText × Bool)
  /-- What the socket has taken. -/
  wire : CText
  /-- What the socket has given. -/
  heard : CText
  /-- What handlers have removed from the receive buffer. -/
  consumed : CText

def Link.fresh (connecting : Bool) : Link where
  nc :=
    { recvMbuf := .init
      sendMbuf := .init
      connecting := connecting
      sendAndClose := false
      closeImmediately := false }
  closed := none
  sends := []
  wire := []
  heard := []
  consumed := []

inductive LinkMove
  | send (data : CText) (first second : Grant)
  | canSend (result : Int) (grant : Grant)
  | recv (recv : MgConnection.Recv) (grant trimmed : Grant)
  | remove (n : Nat)
  | connected (failed : Bool)
  | flag (sendAndClose closeImmediately : Bool)
  | poll

/-- The data that a move gives to `mg_send`. -/
def LinkMove.sent : LinkMove → Option CText
  | .send data _ _ => some data
  | _ => none

/-- There is memory for what is sent. -/
def LinkMove.Granted : LinkMove → Prop
  | .send _ first _ => first ≠ none
  | _ => True

/-- What has been given to `mg_send` and kept, in one piece. -/
def Link.said (link : Link) : CText :=
  ((link.sends.filter Prod.snd).map Prod.fst).flatten

/-- A move of the connection, which is over before the next one begins; a closed one
is gone, and nothing is asked of it. -/
def Link.step (link : Link) (move : LinkMove) : Except Overstep Link :=
  if link.closed.isSome then .ok link
  else
    match move with
    | .send data first second => do
        let (nc, stored) ← link.nc.send data first second
        return { link with nc := nc, sends := link.sends ++ [(data, stored == data.length)] }
    | .canSend result grant => do
        let (nc, taken) ← link.nc.canSend result grant
        return { link with nc := nc, wire := link.wire ++ taken }
    | .recv recv grant trimmed => do
        let (nc, piece) ← link.nc.doRecv recv grant trimmed
        return { link with nc := nc, heard := link.heard ++ piece }
    | .remove n => do
        let nc ← link.nc.removeReceived n
        let gone := link.nc.recvMbuf.len - nc.recvMbuf.len
        return { link with
          nc := nc
          consumed := link.consumed ++ link.nc.recvMbuf.buf.take gone }
    | .connected failed =>
        .ok { link with nc := { link.nc with
          connecting := false
          closeImmediately := link.nc.closeImmediately || failed } }
    | .flag sendAndClose closeImmediately =>
        .ok { link with nc := { link.nc with
          sendAndClose := link.nc.sendAndClose || sendAndClose
          closeImmediately := link.nc.closeImmediately || closeImmediately } }
    | .poll =>
        if link.nc.closeImmediately then .ok { link with closed := some .aborted }
        else if link.nc.sendAndClose ∧ link.nc.sendMbuf.len = 0 then
          .ok { link with closed := some .flushed }
        else .ok link

def Link.run (link : Link) (moves : List LinkMove) : Except Overstep Link :=
  moves.foldlM Link.step link

/-! ### What is kept -/

/-- Nothing is lost between `mg_send` and the socket, nor between the socket and
the handlers. -/
structure Link.Sound (link : Link) : Prop where
  sending : ∃ waiting, link.nc.sendMbuf.Holds waiting ∧ link.said = link.wire ++ waiting ∧
    (link.closed = some .flushed → waiting = [])
  receiving : ∃ waiting, link.nc.recvMbuf.Holds waiting ∧ link.heard = link.consumed ++ waiting

private theorem Link.fresh_sound (connecting : Bool) : (Link.fresh connecting).Sound :=
  ⟨⟨[], .init, rfl, fun _ => rfl⟩, ⟨[], .init, rfl⟩⟩

namespace MgConnection

variable {nc : MgConnection} {waiting : CText}

private theorem send_holds (holds : nc.sendMbuf.Holds waiting) (data : CText) (first second : Grant) :
    ∃ after stored, nc.send data first second = .ok (after, stored) ∧
      after.recvMbuf = nc.recvMbuf ∧
      (after.sendMbuf.Holds (if stored == data.length then waiting ++ data else waiting)) ∧
      (first ≠ none → stored = data.length) := by
  obtain ⟨mbuf, stored, done, outcome⟩ := holds.append data first second
  unfold send
  rw [done, overstep_bind_ok]
  refine ⟨_, _, rfl, rfl, ?_, ?_⟩
  · rcases outcome with ⟨rfl, stores⟩ | ⟨rfl, stores, _⟩
    · rw [if_pos (beq_self_eq_true _)]
      exact stores
    · split
      · next none_ =>
          have empty : data = [] := List.eq_nil_of_length_eq_zero (beq_iff_eq.mp none_).symm
          rw [empty, List.append_nil]
          exact stores
      · exact stores
  · intro granted
    rcases outcome with ⟨rfl, _⟩ | ⟨_, _, refused, _⟩
    · rfl
    · exact absurd refused granted

private theorem offered_holds (holds : nc.sendMbuf.Holds waiting) :
    nc.offered = .ok (waiting.take mgTcpIoSize) := by
  have inside := holds.inside
  have front := congrArg (List.take (min waiting.length mgTcpIoSize)) holds.front
  rw [List.take_take, min_eq_left (min_le_left _ _)] at front
  unfold offered
  dsimp only
  rw [holds.len, if_pos ((min_le_left _ _).trans inside), front]
  congr 1
  rcases le_total waiting.length mgTcpIoSize with short | long
  · rw [min_eq_left short, List.take_length, List.take_of_length_le short]
  · rw [min_eq_right long]

private theorem canSend_holds (holds : nc.sendMbuf.Holds waiting) (result : Int) (grant : Grant) :
    ∃ after taken left, nc.canSend result grant = .ok (after, taken) ∧
      after.recvMbuf = nc.recvMbuf ∧ after.sendMbuf.Holds left ∧ waiting = taken ++ left := by
  unfold canSend
  split
  · exact ⟨nc, [], waiting, rfl, rfl, holds, rfl⟩
  · rw [offered_holds holds, overstep_bind_ok]
    dsimp only
    generalize counted : (if waiting.take mgTcpIoSize = [] then (0 : Int)
      else min result (waiting.take mgTcpIoSize).length) = n
    by_cases failed : n < 0
    · rw [if_pos failed]
      exact ⟨_, [], waiting, rfl, rfl, holds, rfl⟩
    rw [if_neg failed]
    by_cases some_ : 0 < n
    · rw [if_pos some_]
      have upTo : n.toNat ≤ (waiting.take mgTcpIoSize).length := by
        split at counted
        · omega
        · have bound := min_le_right result ((waiting.take mgTcpIoSize).length : Int)
          omega
      rw [List.length_take] at upTo
      obtain ⟨mbuf, removed, left⟩ := holds.remove n.toNat
      rw [removed, overstep_bind_ok]
      have isLeft : mbufRemove waiting n.toNat = waiting.drop n.toNat := by
        unfold mbufRemove
        rw [if_pos (by omega)]
      rw [isLeft] at left
      refine ⟨_, _, waiting.drop n.toNat, rfl, rfl, left.trim grant, ?_⟩
      rw [List.take_take, min_eq_left (by omega), List.take_append_drop]
    · rw [if_neg some_]
      exact ⟨nc, [], waiting, rfl, rfl, holds, rfl⟩

private theorem Recv.into_fits {recv : Recv} {room : Nat} {piece : CText}
    (gives : recv.into room = .bytes piece) : piece.length ≤ room := by
  cases recv with
  | failed => cases gives
  | wouldBlock => cases gives
  | ended => cases gives
  | bytes whole =>
      unfold into at gives
      dsimp only at gives
      split at gives
      · cases gives
      · cases gives
        exact List.length_take_le _ _

private theorem doRecv_holds (holds : nc.recvMbuf.Holds waiting) (recv : Recv) (grant trimmed : Grant) :
    ∃ after piece, nc.doRecv recv grant trimmed = .ok (after, piece) ∧
      after.sendMbuf = nc.sendMbuf ∧ after.recvMbuf.Holds (waiting ++ piece) := by
  unfold doRecv
  split
  · exact ⟨nc, [], rfl, rfl, by rw [List.append_nil]; exact holds⟩
  · have resized : (if nc.recvMbuf.size < nc.recvMbuf.len + mgTcpIoSize
        then nc.recvMbuf.resize (nc.recvMbuf.len + mgTcpIoSize) grant
        else nc.recvMbuf).Holds waiting := by
      split
      · exact holds.resize (holds.len ▸ Nat.le_add_right _ _) grant
      · exact holds
    dsimp only
    generalize (if nc.recvMbuf.size < nc.recvMbuf.len + mgTcpIoSize
      then nc.recvMbuf.resize (nc.recvMbuf.len + mgTcpIoSize) grant else nc.recvMbuf) = mbuf
      at resized
    have trims : (mbuf.trim trimmed).Holds (waiting ++ []) := by
      rw [List.append_nil]
      exact resized.trim trimmed
    generalize gives : recv.into (mbuf.size - mbuf.len) = given
    cases given with
    | failed => exact ⟨_, [], rfl, rfl, trims⟩
    | wouldBlock => exact ⟨_, [], rfl, rfl, trims⟩
    | ended => exact ⟨_, [], rfl, rfl, trims⟩
    | bytes taken =>
        have inside := resized.inside
        have front := resized.front
        have sameLen := resized.len
        have fits := Recv.into_fits gives
        dsimp only
        have room : waiting.length + taken.length ≤ mbuf.buf.length := by
          unfold Mbuf.size at inside fits
          omega
        obtain ⟨buf, copied, _, isFront⟩ := memcpy_inside room
        rw [sameLen, copied, overstep_bind_ok]
        refine ⟨_, taken, rfl, rfl, Mbuf.Holds.trim ?_ trimmed⟩
        rw [front] at isFront
        exact ⟨(List.length_append).symm, by rw [List.length_append]; exact isFront⟩

private theorem removeReceived_holds (holds : nc.recvMbuf.Holds waiting) (n : Nat) :
    ∃ after, nc.removeReceived n = .ok after ∧ after.sendMbuf = nc.sendMbuf ∧
      ∃ left, after.recvMbuf.Holds left ∧
        waiting = nc.recvMbuf.buf.take (nc.recvMbuf.len - after.recvMbuf.len) ++ left := by
  obtain ⟨mbuf, removed, left⟩ := holds.remove n
  unfold removeReceived
  rw [removed, overstep_bind_ok]
  refine ⟨_, rfl, rfl, _, left, ?_⟩
  dsimp only
  rw [left.len, holds.len]
  have front := congrArg (List.take (waiting.length - (mbufRemove waiting n).length)) holds.front
  rw [List.take_take, min_eq_left (Nat.sub_le _ _)] at front
  rw [front]
  unfold mbufRemove
  split
  · next some_ =>
      rw [List.length_drop, Nat.sub_sub_self some_.2, List.take_append_drop]
  · rw [Nat.sub_self, List.take_zero, List.nil_append]

end MgConnection

namespace Link

variable {link : Link}

private theorem said_concat (link : Link) (data : CText) (kept : Bool) :
    ((((link.sends ++ [(data, kept)]).filter Prod.snd).map Prod.fst).flatten : CText) =
      link.said ++ if kept then data else [] := by
  unfold said
  rw [List.filter_append, List.map_append, List.flatten_append]
  cases kept with
  | false => rfl
  | true => simp

/-- What one move adds to the record of what is sent. -/
structure Adds (link : Link) (move : LinkMove) (next : Link) : Prop where
  given : next.sends.map Prod.fst = link.sends.map Prod.fst ++ move.sent.toList
  kept : move.Granted → (∀ send ∈ link.sends, send.2 = true) → ∀ send ∈ next.sends, send.2 = true

private theorem adds_nothing {move : LinkMove} {next : Link} (same : next.sends = link.sends)
    (quiet : move.sent = none) : link.Adds move next where
  given := by rw [same, quiet, Option.toList_none, List.append_nil]
  kept := fun _ all => same ▸ all

private theorem step_closed (closed : link.closed ≠ none) (move : LinkMove) : link.step move = .ok link :=
  if_pos (Option.isSome_iff_ne_none.mpr closed)

private theorem step_open (isOpen : link.closed = none) (sound : link.Sound) (move : LinkMove) :
    ∃ next, link.step move = .ok next ∧ next.Sound ∧ link.Adds move next := by
  obtain ⟨⟨waiting, sends, said, _⟩, ⟨unread, receives, heard⟩⟩ := sound
  have notClosed : ¬link.closed.isSome = true := by
    rw [isOpen]
    exact Bool.false_ne_true
  have never {state : Prop} (isFlushed : link.closed = some .flushed) : state := by
    rw [isOpen] at isFlushed
    cases isFlushed
  unfold step
  rw [if_neg notClosed]
  cases move with
  | send data first second =>
      obtain ⟨after, stored, done, same, holds, granted⟩ :=
        MgConnection.send_holds sends data first second
      dsimp only
      rw [done, overstep_bind_ok]
      refine ⟨_, rfl, ⟨⟨_, holds, ?_, never⟩, unread, same ▸ receives, heard⟩, ?_, ?_⟩
      · refine (said_concat link data _).trans ?_
        rw [said]
        split
        · rw [List.append_assoc]
        · rw [List.append_nil]
      · rw [List.map_append]
        rfl
      · intro isGranted all
        rw [List.forall_mem_append, List.forall_mem_singleton]
        exact ⟨all, beq_iff_eq.mpr (granted isGranted)⟩
  | canSend result grant =>
      obtain ⟨after, taken, left, done, same, holds, split⟩ :=
        MgConnection.canSend_holds sends result grant
      dsimp only
      rw [done, overstep_bind_ok]
      refine ⟨_, rfl, ⟨⟨left, holds, ?_, never⟩, unread, same ▸ receives, heard⟩,
        adds_nothing rfl rfl⟩
      change link.said = _
      rw [said, split, List.append_assoc]
  | recv recv grant trimmed =>
      obtain ⟨after, piece, done, same, holds⟩ :=
        MgConnection.doRecv_holds receives recv grant trimmed
      dsimp only
      rw [done, overstep_bind_ok]
      refine ⟨_, rfl, ⟨⟨waiting, same ▸ sends, said, never⟩, _, holds, ?_⟩, adds_nothing rfl rfl⟩
      dsimp only
      rw [heard, List.append_assoc]
  | remove n =>
      obtain ⟨after, done, same, left, holds, split⟩ :=
        MgConnection.removeReceived_holds receives n
      dsimp only
      rw [done, overstep_bind_ok]
      refine ⟨_, rfl, ⟨⟨waiting, same ▸ sends, said, never⟩, left, holds, ?_⟩, adds_nothing rfl rfl⟩
      dsimp only
      rw [List.append_assoc, ← split]
      exact heard
  | connected failed =>
      exact ⟨_, rfl, ⟨⟨waiting, sends, said, never⟩, unread, receives, heard⟩, adds_nothing rfl rfl⟩
  | flag sendAndClose closeImmediately =>
      exact ⟨_, rfl, ⟨⟨waiting, sends, said, never⟩, unread, receives, heard⟩, adds_nothing rfl rfl⟩
  | poll =>
      dsimp only
      split
      · exact ⟨_, rfl, ⟨⟨waiting, sends, said, fun isFlushed => by cases isFlushed⟩, unread,
          receives, heard⟩, adds_nothing rfl rfl⟩
      · split
        · next empty =>
            have none_ : waiting = [] := List.eq_nil_of_length_eq_zero (sends.len ▸ empty.2)
            exact ⟨_, rfl, ⟨⟨waiting, sends, said, fun _ => none_⟩, unread, receives, heard⟩,
              adds_nothing rfl rfl⟩
        · exact ⟨link, rfl, ⟨⟨waiting, sends, said, never⟩, unread, receives, heard⟩,
            adds_nothing rfl rfl⟩

private theorem run_closed (closed : link.closed ≠ none) (moves : List LinkMove) :
    link.run moves = .ok link := by
  induction moves with
  | nil => rfl
  | cons move moves ih =>
      unfold run at ih ⊢
      rw [List.foldlM_cons, step_closed closed, overstep_bind_ok, ih]

private theorem run_sound (sound : link.Sound) (moves : List LinkMove) :
    ∃ last, link.run moves = .ok last ∧ last.Sound ∧
      (∃ given, last.sends.map Prod.fst = link.sends.map Prod.fst ++ given ∧
        given <+: moves.filterMap LinkMove.sent ∧
        (last.closed = none → given = moves.filterMap LinkMove.sent)) ∧
      ((∀ move ∈ moves, move.Granted) → (∀ send ∈ link.sends, send.2 = true) →
        ∀ send ∈ last.sends, send.2 = true) := by
  induction moves generalizing link with
  | nil =>
      exact ⟨link, rfl, sound, ⟨[], (List.append_nil _).symm, List.nil_prefix, fun _ => rfl⟩,
        fun _ all => all⟩
  | cons move moves ih =>
      by_cases isOpen : link.closed = none
      · obtain ⟨next, stepped, nextSound, adds⟩ := step_open isOpen sound move
        obtain ⟨last, ran, lastSound, ⟨given, more, isPrefix, whole⟩, kept⟩ := ih nextSound
        have first : (move :: moves).filterMap LinkMove.sent =
            move.sent.toList ++ moves.filterMap LinkMove.sent := by
          rw [List.filterMap_cons]
          cases move.sent with
          | none => rfl
          | some data => rfl
        refine ⟨last, ?_, lastSound, ⟨move.sent.toList ++ given, ?_, ?_, ?_⟩, ?_⟩
        · unfold run at ran ⊢
          rw [List.foldlM_cons, stepped, overstep_bind_ok, ran]
        · rw [more, adds.given, List.append_assoc]
        · rw [first]
          exact (List.prefix_append_right_inj _).mpr isPrefix
        · intro stillOpen
          rw [first, whole stillOpen]
        · intro granted all
          rw [List.forall_mem_cons] at granted
          exact kept granted.2 (adds.kept granted.1 all)
      · refine ⟨link, run_closed isOpen _, sound, ⟨[], (List.append_nil _).symm, List.nil_prefix,
          fun stillOpen => absurd stillOpen isOpen⟩, fun _ all => all⟩

end Link

/-- In every order of sends, polls, receptions and removals nothing is read or
written outside an array, what was sent is what the socket has taken and what
still waits for it, in order, and what was received is what the handlers have
removed and what is still there.  A connection that is closed once everything is
sent has sent everything. -/
theorem link_streams (connecting : Bool) (moves : List LinkMove) :
    ∃ last, (Link.fresh connecting).run moves = .ok last ∧
      (∃ waiting, last.nc.sendMbuf.Holds waiting ∧ last.said = last.wire ++ waiting ∧
        (last.closed = some .flushed → waiting = [])) ∧
      (∃ waiting, last.nc.recvMbuf.Holds waiting ∧ last.heard = last.consumed ++ waiting) ∧
      last.sends.map Prod.fst <+: moves.filterMap LinkMove.sent ∧
      (last.closed = none → last.sends.map Prod.fst = moves.filterMap LinkMove.sent) ∧
      ((∀ move ∈ moves, move.Granted) → ∀ send ∈ last.sends, send.2 = true) := by
  obtain ⟨last, ran, sound, ⟨given, isGiven, isPrefix, whole⟩, kept⟩ :=
    Link.run_sound (Link.fresh_sound connecting) moves
  have isSame : last.sends.map Prod.fst = given := isGiven
  refine ⟨last, ran, sound.sending, sound.receiving, isSame ▸ isPrefix, ?_, ?_⟩
  · intro stillOpen
    rw [isSame, whole stillOpen]
  · exact fun granted => kept granted (fun _ member => absurd member List.not_mem_nil)

end DlcServer
