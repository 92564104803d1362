/-
What the handler of a connection does with any bytes at all.

It never looks outside the receive buffer, and what it hands over lies in there.
A round that goes on has made the buffer shorter, but for one head: where
`Content-Length` takes back just the length of the head, the message has no
length, nothing is removed, and the handler never comes back.
-/

import DlcServer.HttpDelivery

namespace DlcServer

open Library

variable {leaves : HttpEvent → Bool}

/-! ### Chunks -/

theorem mgHttpParseChunk_inside {buf data : CText} {n : Nat}
    (parsed : mgHttpParseChunk buf = some (data, n)) : data.length + 5 ≤ n ∧ n ≤ buf.length := by
  unfold mgHttpParseChunk at parsed
  dsimp only at parsed
  split at parsed
  · cases parsed
  split at parsed
  · cases parsed
  · next start =>
      obtain ⟨some_, _⟩ := not_or.mp start
      have positive := List.length_pos_of_ne_nil some_
      generalize buf.takeWhile isXdigit = digits at *
      split at parsed
      · cases parsed
      · next ended =>
          rw [not_not] at ended
          have both := congrArg List.length ended
          rw [List.length_take, List.length_drop] at both
          obtain ⟨rfl, rfl⟩ := Prod.mk.inj (Option.some.inj parsed)
          rw [List.length_take, List.length_drop]
          simp only [List.length_cons, List.length_nil] at both
          omega

/-- All bytes of the chunks are accounted for, and the sizes take five of each at
the least. -/
theorem collapseChunks_inside {fuel : Nat} {buf : CText} (enough : buf.length < fuel) :
    ∃ decoded left zeroChunkReceived,
      collapseChunks fuel buf = .ok (decoded, left, zeroChunkReceived) ∧
        (left = buf ∧ decoded = [] ∧ zeroChunkReceived = false ∨
          decoded.length + left.length < buf.length) := by
  induction fuel generalizing buf with
  | zero => omega
  | succ fuel ih =>
      rw [collapseChunks]
      cases parsed : mgHttpParseChunk buf with
      | none => exact ⟨[], buf, false, rfl, .inl ⟨rfl, rfl, rfl⟩⟩
      | some found =>
          obtain ⟨data, n⟩ := found
          have inside := mgHttpParseChunk_inside parsed
          dsimp only
          by_cases last : data = []
          · rw [if_pos last]
            refine ⟨[], buf.drop n, true, rfl, .inr ?_⟩
            rw [List.length_drop, List.length_nil]
            omega
          · rw [if_neg last]
            obtain ⟨more, left, zero, collapsed, accounted⟩ :=
              @ih (buf.drop n) (by rw [List.length_drop]; omega)
            rw [collapsed, overstep_bind_ok]
            refine ⟨data ++ more, left, zero, rfl, .inr ?_⟩
            rw [List.length_drop] at accounted
            rw [List.length_append]
            rcases accounted with ⟨rfl, rfl, _⟩ | shorter
            · rw [List.length_drop, List.length_nil]
              omega
            · omega

/-! ### One round -/

/-- What the handler of a connection may look at lies in the receive buffer. -/
structure HttpEvent.Inside (event : HttpEvent) : Prop where
  body : event.hm.body.p + event.hm.body.len ≤ event.buf.length
  line : ∀ str ∈ [event.hm.method, event.hm.uri, event.hm.proto, event.hm.respStatusMsg,
    event.hm.queryString], str.p + str.len ≤ event.buf.length
  headers : ∀ header ∈ event.hm.headers, header.1.p + header.1.len ≤ event.buf.length ∧
    header.2.p + header.2.len ≤ event.buf.length

/-- A message with other lengths. -/
def HttpMessage.resized (hm : HttpMessage) (message body : Nat) : HttpMessage :=
  { hm with
    message := { hm.message with len := message }
    body := { hm.body with len := body } }

theorem WithinHead.inside {last message body : Nat} {hm : HttpMessage} {buf : CText}
    (within : WithinHead last hm) (fits : last + body ≤ buf.length) (ev : HttpEv) :
    HttpEvent.Inside { ev := ev, hm := hm.resized message body, buf := buf } where
  body := by
    change hm.body.p + body ≤ buf.length
    rw [within.body]
    exact fits
  line := fun str member => (within.line str member).trans (le_of_add_le_left fits)
  headers := fun header member =>
    have inside := (within.headers header member).2.2
    ⟨inside.1.trans (le_of_add_le_left fits), inside.2.trans (le_of_add_le_left fits)⟩

/-- The head of a message that has no length. -/
def Endless (isReq : Bool) (io : CText) : Prop :=
  ∃ (len : Nat) (hm : HttpMessage), mgParseHttp io isReq = .ok ((len : Int), hm) ∧ 0 < len ∧
    hm.message.len = 0

section Rounds

variable {isReq : Bool} {reqLen : Nat} {io : CText} {hm : HttpMessage}

private theorem mgHandleChunked_inside (within : WithinHead reqLen hm) (inside : reqLen ≤ io.length) :
    ∃ after message body events,
      mgHandleChunked io reqLen hm = .ok (after, hm.resized message body, events) ∧
        reqLen ≤ after.length ∧ (∀ event ∈ events, event.Inside) ∧
        (after = io ∧ message = hm.message.len ∨ after.length < io.length) := by
  unfold mgHandleChunked
  dsimp only
  obtain ⟨decoded, left, zero, collapsed, accounted⟩ :=
    @collapseChunks_inside ((io.drop reqLen).length + 1) (io.drop reqLen) (Nat.lt_succ_self _)
  rw [collapsed, overstep_bind_ok]
  dsimp only
  rcases accounted with ⟨rfl, rfl, rfl⟩ | shorter
  · rw [if_neg (lt_irrefl _)]
    exact ⟨io, hm.message.len, hm.body.len, [], rfl, inside,
      fun _ member => absurd member List.not_mem_nil, .inl ⟨rfl, rfl⟩⟩
  · rw [if_pos (by omega)]
    rw [List.length_drop] at shorter
    have long : (io.take reqLen ++ decoded ++ left).length =
        reqLen + decoded.length + left.length := by
      rw [List.length_append, List.length_append, List.length_take, min_eq_left inside]
    have event : ∀ event ∈ [HttpEvent.mk .chunk (hm.resized hm.message.len decoded.length)
        (io.take reqLen ++ decoded ++ left)], event.Inside := by
      rw [List.forall_mem_singleton]
      exact within.inside (by omega) _
    cases zero with
    | false =>
        exact ⟨_, hm.message.len, decoded.length, _, rfl, by omega, event, .inr (by omega)⟩
    | true =>
        exact ⟨_, decoded.length + left.length + reqLen, decoded.length, _, rfl, by omega, event,
          .inr (by omega)⟩

private theorem mbufRemove_length (io : CText) (n : Nat) :
    (mbufRemove io n).length ≤ io.length ∧
      (n = 0 ∨ io.length < n ∨ (mbufRemove io n).length < io.length) := by
  unfold mbufRemove
  split
  · rw [List.length_drop]
    omega
  · omega

private theorem mgHttpRound_inside (leaves : HttpEvent → Bool) (isReq : Bool) (io : CText) :
    ∃ round events, mgHttpRound leaves isReq io = .ok (round, events) ∧
      (∀ event ∈ events, event.Inside) ∧
      ∀ left, round = .again left → left.length < io.length ∨ left = io ∧ Endless isReq io := by
  obtain ⟨len, hm, parsed, outcome⟩ := mgParseHttp_within io isReq
  unfold mgHttpRound
  rw [parsed, overstep_bind_ok]
  dsimp only
  by_cases bad : len < 0 ∨ len = 0 ∧ maxHttpRequestSize ≤ io.length
  · rw [if_pos bad]
    exact ⟨_, [], rfl, fun _ member => absurd member List.not_mem_nil, fun _ same => by cases same⟩
  rw [if_neg bad]
  by_cases none_ : len = 0
  · rw [if_pos none_]
    exact ⟨_, [], rfl, fun _ member => absurd member List.not_mem_nil, fun _ same => by cases same⟩
  rw [if_neg none_]
  rcases outcome with ⟨zero, _⟩ | minus | ⟨last, rfl, headAt, within⟩
  · exact absurd zero none_
  · omega
  have inside := headAt.inside
  have headed : 0 < last := by omega
  rw [Int.toNat_natCast]
  unfold mgHttpMessage
  obtain ⟨chunked, isChunked_⟩ := isChunked_within within inside
  rw [isChunked_, overstep_bind_ok]
  obtain ⟨after, message, body, events, handled, headFits, eventsInside, progress⟩ :
      ∃ after message body events,
        reassemble chunked last io hm =
            .ok (after, hm.resized message body, events) ∧
          last ≤ after.length ∧ (∀ event ∈ events, HttpEvent.Inside event) ∧
          (after = io ∧ message = hm.message.len ∨ after.length < io.length) := by
    cases chunked with
    | true => exact mgHandleChunked_inside within inside
    | false =>
        exact ⟨io, hm.message.len, hm.body.len, [], rfl, inside,
          fun _ member => absurd member List.not_mem_nil, .inl ⟨rfl, rfl⟩⟩
  rw [handled, overstep_bind_ok]
  dsimp only
  have delivered (ev : HttpEv) : HttpEvent.Inside
      { ev := ev, hm := deliverChunk after last (hm.resized message body), buf := after } :=
    within.inside (by omega) ev
  split
  · refine ⟨_, _, rfl, ?_, fun _ same => by cases same⟩
    rw [List.forall_mem_append, List.forall_mem_singleton]
    exact ⟨eventsInside, delivered _⟩
  · next arrived =>
      refine ⟨_, _, rfl, ?_, ?_⟩
      · rw [List.forall_mem_append]
        exact ⟨eventsInside, List.forall_mem_cons.mpr
          ⟨delivered _, List.forall_mem_singleton.mpr (delivered _)⟩⟩
      · intro left again
        split at again
        · cases again
          have removed := mbufRemove_length after message
          change ¬io.length < message at arrived
          change (mbufRemove after message).length < io.length ∨ mbufRemove after message = io ∧ _
          rcases progress with ⟨rfl, same⟩ | shorter
          · rcases removed.2 with zero | beyond | less
            · refine .inr ⟨?_, last, hm, parsed, headed, same ▸ zero⟩
              unfold mbufRemove
              rw [if_neg (by omega)]
            · exact absurd beyond arrived
            · exact .inl less
          · exact .inl (by omega)
        · cases again

end Rounds

/-! ### Runs -/

/-- What is received here keeps the handler going for good: it gets to a head
without end whose handler leaves no answer under way, and changes nothing any more. -/
inductive Spins (leaves : HttpEvent → Bool) (isReq : Bool) : CText → Prop
  | stuck {io : CText} {events : List HttpEvent} (endless : Endless isReq io)
      (round : mgHttpRound leaves isReq io = .ok (.again io, events)) : Spins leaves isReq io
  | next {io left : CText} {events : List HttpEvent}
      (round : mgHttpRound leaves isReq io = .ok (.again left, events)) (spins : Spins leaves isReq left) :
      Spins leaves isReq io

example : Spins (fun _ => false) false (text "HTTP/1.1 200 OK\r\nContent-Length: -40\r\n\r\n") :=
  .stuck ⟨40, _, rfl, by decide, rfl⟩ rfl

theorem Spins.never {isReq : Bool} {io : CText} (spins : Spins leaves isReq io) (fuel : Nat) :
    mgHttpRecv leaves isReq fuel io = .error .fuel := by
  induction fuel generalizing io with
  | zero => rfl
  | succ fuel ih =>
      cases spins with
      | stuck endless round =>
          rw [mgHttpRecv, round, overstep_bind_ok]
          dsimp only
          rw [ih (.stuck endless round)]
          rfl
      | next round spins =>
          rw [mgHttpRecv, round, overstep_bind_ok]
          dsimp only
          rw [ih spins]
          rfl

private theorem mgHttpRecv_inside {isReq : Bool} {io : CText} {fuel : Nat} (enough : io.length < fuel) :
    Spins leaves isReq io ∨ ∃ receiver events,
      mgHttpRecv leaves isReq fuel io = .ok (receiver, events) ∧
        ∀ event ∈ events, event.Inside := by
  induction fuel generalizing io with
  | zero => omega
  | succ fuel ih =>
      obtain ⟨round, events, done, inside, progress⟩ := mgHttpRound_inside leaves isReq io
      rw [mgHttpRecv, done, overstep_bind_ok]
      cases round with
      | rest receiver => exact .inr ⟨receiver, events, rfl, inside⟩
      | again left =>
          rcases progress left rfl with shorter | ⟨rfl, endless⟩
          · rcases @ih left (by omega) with spins | ⟨receiver, more, recv, moreInside⟩
            · exact .inl (.next done spins)
            · dsimp only
              rw [recv, overstep_bind_ok]
              exact .inr ⟨receiver, events ++ more, rfl,
                List.forall_mem_append.mpr ⟨inside, moreInside⟩⟩
          · exact .inl (.stuck endless done)

/-- One of the pieces keeps the handler going for good. -/
def Hangs (leaves : HttpEvent → Bool) (isReq : Bool) (receiver : Receiver) (pieces : List CText) : Prop :=
  ∃ before piece after between events, pieces = before ++ piece :: after ∧
    receiver.recvAll leaves isReq before = .ok (between, events) ∧ between.closing = false ∧
    Spins leaves isReq (between.recvMbuf ++ piece)

theorem Hangs.never {isReq : Bool} {receiver : Receiver} {pieces : List CText}
    (hangs : Hangs leaves isReq receiver pieces) : receiver.recvAll leaves isReq pieces = .error .fuel := by
  obtain ⟨before, piece, after, between, events, rfl, recv, isOpen, spins⟩ := hangs
  induction before generalizing receiver events with
  | nil =>
      obtain ⟨rfl, _⟩ := Prod.mk.inj (Except.ok.inj recv)
      rw [List.nil_append, Receiver.recvAll, Receiver.recv, isOpen, if_neg (by decide),
        spins.never]
      rfl
  | cons first before ih =>
      rw [Receiver.recvAll] at recv
      obtain ⟨⟨one, early⟩, isOne, recv⟩ := overstep_bind_eq_ok recv
      obtain ⟨⟨last, late⟩, isLast, recv⟩ := overstep_bind_eq_ok recv
      obtain ⟨rfl, _⟩ := Prod.mk.inj (Except.ok.inj recv)
      have stuck := ih late isLast
      rw [List.cons_append, Receiver.recvAll, isOne, overstep_bind_ok]
      dsimp only
      rw [stuck]
      rfl

private theorem recvAll_inside (leaves : HttpEvent → Bool) (isReq : Bool) (receiver : Receiver)
    (pieces : List CText) :
    Hangs leaves isReq receiver pieces ∨ ∃ last events,
      receiver.recvAll leaves isReq pieces = .ok (last, events) ∧ ∀ event ∈ events, event.Inside := by
  induction pieces generalizing receiver with
  | nil => exact .inr ⟨receiver, [], rfl, fun _ member => absurd member List.not_mem_nil⟩
  | cons piece pieces ih =>
      have one : (receiver.closing = false ∧ Spins leaves isReq (receiver.recvMbuf ++ piece)) ∨
          ∃ next events, receiver.recv leaves isReq piece = .ok (next, events) ∧
            ∀ event ∈ events, event.Inside := by
        unfold Receiver.recv
        cases closing : receiver.closing with
        | true => exact .inr ⟨receiver, [], rfl, fun _ member => absurd member List.not_mem_nil⟩
        | false =>
            rcases @mgHttpRecv_inside leaves isReq (receiver.recvMbuf ++ piece) _ (Nat.lt_succ_self _)
              with spins | done
            · exact .inl ⟨rfl, spins⟩
            · exact .inr done
      rcases one with ⟨isOpen, spins⟩ | ⟨next, events, recv, inside⟩
      · exact .inl ⟨[], piece, pieces, receiver, [], rfl, rfl, isOpen, spins⟩
      · rw [Receiver.recvAll, recv, overstep_bind_ok]
        rcases ih next with hangs | ⟨last, more, recvMore, moreInside⟩
        · obtain ⟨before, bad, after, between, early, rfl, recvBefore, isOpen, spins⟩ := hangs
          refine .inl ⟨piece :: before, bad, after, between, events ++ early, rfl, ?_, isOpen, spins⟩
          rw [Receiver.recvAll, recv, overstep_bind_ok]
          dsimp only
          rw [recvBefore]
          rfl
        · dsimp only
          rw [recvMore, overstep_bind_ok]
          exact .inr ⟨last, events ++ more, rfl, List.forall_mem_append.mpr ⟨inside, moreInside⟩⟩

private theorem mgHttpClose_inside (isReq : Bool) (io : CText) :
    ∃ events, mgHttpClose isReq io = .ok events ∧ ∀ event ∈ events, event.Inside := by
  obtain ⟨len, hm, parsed, outcome⟩ := mgParseHttp_within io isReq
  unfold mgHttpClose
  rw [parsed, overstep_bind_ok]
  dsimp only
  split
  · next headed =>
      refine ⟨_, rfl, ?_⟩
      rcases outcome with ⟨zero, _⟩ | minus | ⟨last, rfl, headAt, within⟩
      · omega
      · omega
      · have inside := headAt.inside
        have event (ev : HttpEv) :
            HttpEvent.Inside ⟨ev, hm.resized io.length (io.length - last), io⟩ :=
          within.inside (by omega) ev
        exact List.forall_mem_cons.mpr ⟨event _, List.forall_mem_singleton.mpr (event _)⟩
  · exact ⟨[], rfl, fun _ member => absurd member List.not_mem_nil⟩

/-- Whatever a connection receives, and in whatever pieces, its handler looks at
the receive buffer only and comes back from each of them, unless one brings it to
a head that makes its message no longer than nothing and leaves no answer under way:
it never comes back then. -/
theorem httpConnection_inside (leaves : HttpEvent → Bool) (isReq : Bool) (pieces : List CText) :
    (¬Hangs leaves isReq ⟨[], false⟩ pieces ∧ ∃ events,
      httpConnection leaves isReq pieces = .ok events ∧ ∀ event ∈ events, event.Inside) ∨
    (Hangs leaves isReq ⟨[], false⟩ pieces ∧ httpConnection leaves isReq pieces = .error .fuel) := by
  unfold httpConnection
  rcases recvAll_inside leaves isReq ⟨[], false⟩ pieces with hangs | ⟨last, events, recv, inside⟩
  · rw [hangs.never]
    exact .inr ⟨hangs, rfl⟩
  · have comes : ¬Hangs leaves isReq ⟨[], false⟩ pieces := by
      intro hangs
      rw [hangs.never] at recv
      cases recv
    obtain ⟨closing, close, closeInside⟩ := mgHttpClose_inside isReq last.recvMbuf
    rw [recv, overstep_bind_ok]
    dsimp only
    rw [close, overstep_bind_ok]
    exact .inl ⟨comes, events ++ closing, rfl, List.forall_mem_append.mpr ⟨inside, closeInside⟩⟩

end DlcServer
