/-
The loops of `process_read`, call by call.

A round of the outer loop reads a block and builds its packet in `m_buffer`, the
inner loop hands what is there to `sendto` until `wait_for_ack` is content, three
times at most.  `send_error` builds its packet in the same buffer.
-/

import DlcServer.TftpClients

namespace DlcServer

open Library

namespace Tftp

variable {Address : Type}

/-! ### The calls of the loops -/

inductive ReadCall (Address : Type)
  /-- `on_read_data`, with the bytes it has read; without any it returns -1. -/
  | onReadData (data : List UInt8)
  /-- The `sendto` of the inner loop in the round of `blockNum`, failed or not. -/
  | transmitted (blockNum : Nat) (packet : List UInt8)
  /-- The `recvfrom` of `wait_for_ack`. -/
  | heard (received : Received Address)
  deriving DecidableEq

namespace Received

/-- `sizeRead` is 4 and the opcode is ACK. -/
def isAck : Received Address → Bool
  | .failed _ => false
  | .datagram _ bytes => Tftp.isAck bytes

def acknowledges (blockNum : Nat) : Received Address → Bool
  | .failed _ => false
  | .datagram _ bytes => Tftp.acknowledges blockNum bytes

/-- A failed `recvfrom` leaves `m_client` alone. -/
def setClient (received : Received Address) (tftp : Members Address) : Members Address :=
  match received with
  | .failed _ => tftp
  | .datagram source _ => tftp.setClient source

end Received

structure ReadLoop (Address : Type) where
  tftp : Members Address
  turn : ReadTurn
  log : List (ReadCall Address)

namespace ReadLoop

/-- The `sendto` of the inner loop. -/
def transmit (log : List (ReadCall Address)) (tftp : Members Address) (blockNum r : Nat)
    (sends : Bool) : ReadLoop Address :=
  let packet := tftp.buffer.take (tftp.dataSize + 4)
  { tftp := tftp.sendto packet
    turn := if sends then .waits blockNum r else .returned (-1)
    log := log ++ [.transmitted blockNum packet] }

/-- A round of the outer loop, up to the first `sendto`. -/
def nextBlock (log : List (ReadCall Address)) (tftp : Members Address) (blockNum : Nat)
    (sends : Bool) : ReadLoop Address :=
  let head := header cmdData blockNum
  let data := tftp.filefdR.take blockSize
  if data = [] then
    { tftp := { tftp with buffer := head ++ tftp.buffer.drop 4 }.sendError errIllegalOperation
        (text "failed to read file")
      turn := .returned (-1)
      log := log ++ [.onReadData data] }
  else
    transmit (log ++ [.onReadData data])
      { tftp with
        buffer := head ++ (data ++ tftp.buffer.drop (4 + data.length))
        dataSize := data.length
        filefdR := tftp.filefdR.drop blockSize
        fetched := tftp.fetched ++ data }
      blockNum 0 sends

/-- The inner loop after a wait that did not bring the acknowledgement. -/
def tryAgain (log : List (ReadCall Address)) (tftp : Members Address) (blockNum r : Nat)
    (sends : Bool) : ReadLoop Address :=
  if r + 1 < 3 then transmit log tftp blockNum (r + 1) sends
  else { tftp := tftp, turn := .returned (-1), log := log }

/-- `wait_for_ack`, and the loops up to the next one. -/
def hear (log : List (ReadCall Address)) (tftp : Members Address) (blockNum r : Nat)
    (event : Event Address) : ReadLoop Address :=
  let log := log ++ [.heard event.received]
  let known := event.received.setClient tftp
  if !event.received.isAck then
    tryAgain log (known.sendError errNotDefined (text "incorrect ack")) blockNum r event.sends
  else if !event.received.acknowledges blockNum then
    tryAgain log known blockNum r event.sends
  else if known.dataSize < blockSize then
    { tftp := known, turn := .returned 0, log := log }
  else nextBlock log known (blockNum + 1) event.sends

def step (loop : ReadLoop Address) (event : Event Address) : Option (ReadLoop Address) :=
  match loop.turn with
  | .waits blockNum r => some (hear loop.log loop.tftp blockNum r event)
  | .returned _ => none

end ReadLoop

/-- `process_read`, once `parse_rrq` has opened the file; `sends` is the outcome of
the first `sendto`. -/
def readLoop (opened : Members Address) (sends : Bool) :
    Machine (ReadLoop Address) (Event Address) where
  initial := .nextBlock [] opened 1 sends
  step := ReadLoop.step

/-! ### What a reply leads to -/

inductive ReplyCase (log : List (ReadCall Address)) (tftp : Members Address) (blockNum r : Nat)
    (event : Event Address) : ReadLoop Address → Prop
  | incorrect (wrong : event.received.isAck = false) :
      ReplyCase log tftp blockNum r event
        (.tryAgain (log ++ [.heard event.received])
          ((event.received.setClient tftp).sendError errNotDefined (text "incorrect ack"))
          blockNum r event.sends)
  | outOfOrder (ack : event.received.isAck = true)
      (other : event.received.acknowledges blockNum = false) :
      ReplyCase log tftp blockNum r event
        (.tryAgain (log ++ [.heard event.received]) (event.received.setClient tftp)
          blockNum r event.sends)
  | complete (ack : event.received.isAck = true)
      (right : event.received.acknowledges blockNum = true)
      (last : (event.received.setClient tftp).dataSize < blockSize) :
      ReplyCase log tftp blockNum r event
        { tftp := event.received.setClient tftp
          turn := .returned 0
          log := log ++ [.heard event.received] }
  | goesOn (ack : event.received.isAck = true)
      (right : event.received.acknowledges blockNum = true)
      (full : blockSize ≤ (event.received.setClient tftp).dataSize) :
      ReplyCase log tftp blockNum r event
        (.nextBlock (log ++ [.heard event.received]) (event.received.setClient tftp)
          (blockNum + 1) event.sends)

namespace ReadLoop

private theorem hear_cases (log : List (ReadCall Address)) (tftp : Members Address) (blockNum r : Nat)
    (event : Event Address) :
    ReplyCase log tftp blockNum r event (hear log tftp blockNum r event) := by
  unfold hear
  dsimp only
  cases ack : event.received.isAck with
  | false =>
      rw [if_pos (by decide)]
      exact .incorrect ack
  | true =>
      rw [if_neg (by decide)]
      cases right : event.received.acknowledges blockNum with
      | false =>
          rw [if_pos (by decide)]
          exact .outOfOrder ack right
      | true =>
          rw [if_neg (by decide)]
          by_cases last : (event.received.setClient tftp).dataSize < blockSize
          · rw [if_pos last]
            exact .complete ack right last
          · rw [if_neg last]
            exact .goesOn ack right (Nat.le_of_not_lt last)

/-- A step is made in a wait, and is what the reply leads to. -/
theorem step_cases {loop next : ReadLoop Address} {event : Event Address}
    (taken : loop.step event = some next) :
    ∃ blockNum r, loop.turn = .waits blockNum r ∧
      ReplyCase loop.log loop.tftp blockNum r event next := by
  unfold step at taken
  cases turn : loop.turn with
  | waits blockNum r =>
      simp only [turn, Option.some.injEq] at taken
      subst taken
      exact ⟨blockNum, r, rfl, hear_cases _ _ _ _ _⟩
  | returned result => simp [turn] at taken

end ReadLoop

@[simp] theorem setClient_dataSize (received : Received Address) (tftp : Members Address) :
    (received.setClient tftp).dataSize = tftp.dataSize := by
  cases received with
  | failed again => rfl
  | datagram source bytes => rfl

@[simp] theorem setClient_filefdR (received : Received Address) (tftp : Members Address) :
    (received.setClient tftp).filefdR = tftp.filefdR := by
  cases received with
  | failed again => rfl
  | datagram source bytes => rfl

@[simp] theorem setClient_buffer (received : Received Address) (tftp : Members Address) :
    (received.setClient tftp).buffer = tftp.buffer := by
  cases received with
  | failed again => rfl
  | datagram source bytes => rfl

@[simp] theorem setClient_sent (received : Received Address) (tftp : Members Address) :
    (received.setClient tftp).sent = tftp.sent := by
  cases received with
  | failed again => rfl
  | datagram source bytes => rfl

/-! ### The loops and the server -/

namespace ReadLoop

/-- Where the loops are, without the calls. -/
def turned (loop : ReadLoop Address) : Members Address × ReadTurn :=
  (loop.tftp, loop.turn)

private theorem nextBlock_turned (log : List (ReadCall Address)) (tftp : Members Address)
    (blockNum : Nat) (sends : Bool) :
    (nextBlock log tftp blockNum sends).turned = processRead tftp blockNum sends := by
  unfold nextBlock processRead
  by_cases ended : tftp.filefdR.take blockSize = []
  · simp only [if_pos ended, turned]
  · simp only [if_neg ended, turned, transmit, sendBlock]

private theorem tryAgain_turned (log : List (ReadCall Address)) (tftp : Members Address)
    (blockNum r : Nat) (sends : Bool) :
    (tryAgain log tftp blockNum r sends).turned = retry tftp blockNum r sends := by
  unfold tryAgain retry
  by_cases more : r + 1 < 3
  · rw [if_pos more, if_pos more]
    rfl
  · rw [if_neg more, if_neg more]
    rfl

private theorem hear_turned (log : List (ReadCall Address)) (tftp : Members Address) (blockNum r : Nat)
    (event : Event Address) :
    (hear log tftp blockNum r event).turned = waitForAck tftp blockNum r event := by
  unfold hear waitForAck
  cases received : event.received with
  | failed again =>
      simp only [Received.isAck, Bool.not_false, if_true, tryAgain_turned, Received.setClient]
  | datagram source bytes =>
      have client : (Received.datagram source bytes).setClient tftp = tftp.setClient source := rfl
      have size : (tftp.setClient source).dataSize = tftp.dataSize := rfl
      cases ack : isAck bytes with
      | false => simp [Received.isAck, client, ack, tryAgain_turned]
      | true =>
          cases right : acknowledges blockNum bytes with
          | false =>
              simp [Received.isAck, Received.acknowledges, client, ack, right, tryAgain_turned]
          | true =>
              simp only [Received.isAck, Received.acknowledges, client, ack, right, size,
                Bool.not_true, Bool.false_eq_true, if_false]
              by_cases last : tftp.dataSize < blockSize
              · rw [if_pos last, if_pos last]
                rfl
              · rw [if_neg last, if_neg last, nextBlock_turned]

private theorem step_serves {loop next : ReadLoop Address} {event : Event Address}
    (taken : loop.step event = some next) :
    (Server.reading loop.turned).step event = some (Server.reading next.turned) := by
  unfold step at taken
  cases waits : loop.turn with
  | waits blockNum r =>
      simp only [waits, Option.some.injEq] at taken
      subst taken
      rw [hear_turned, turned, waits]
      rfl
  | returned result => simp [waits] at taken

end ReadLoop

/-- From the opened file on, the server goes where the loops go. -/
theorem readLoop_serves (start : Start Address) (opened : Members Address) (sends : Bool)
    {events : List (Event Address)} {loop : ReadLoop Address}
    (ran : (readLoop opened sends).run (readLoop opened sends).initial events = some loop) :
    (tftpd start).run (Server.reading (processRead opened 1 sends)) events =
      some (Server.reading loop.turned) := by
  have first : Server.reading (processRead opened 1 sends) =
      Server.reading (readLoop opened sends).initial.turned := by
    rw [readLoop, ReadLoop.nextBlock_turned]
  have follows : ∀ (state : ReadLoop Address) server event next,
      server = Server.reading state.turned → True →
        (readLoop opened sends).step state event = some next →
          ∃ after, (tftpd start).step server event = some after ∧
            after = Server.reading next.turned := by
    rintro state _ event next rfl _ taken
    exact ⟨_, ReadLoop.step_serves taken, rfl⟩
  obtain ⟨after, served, rfl⟩ := @Machine.run_simulates _ _ (readLoop opened sends) _ _
    (tftpd start) (fun state server => server = Server.reading state.turned) (fun _ => True) id
    follows events (fun _ _ => trivial) _ _ _ first ran
  rw [← served, List.map_id]

/-! ### The calls and what is sent -/

/-- What a call makes the server send. -/
def ReadCall.packets : ReadCall Address → List (List UInt8)
  | .onReadData [] => [errorPacket errIllegalOperation (text "failed to read file")]
  | .onReadData (_ :: _) => []
  | .transmitted _ packet => [packet]
  | .heard received =>
      if received.isAck then [] else [errorPacket errNotDefined (text "incorrect ack")]

/-- The calls account for all that has been sent since the file was opened. -/
def Accounted (opened tftp : Members Address) (log : List (ReadCall Address)) : Prop :=
  tftp.sent.map Prod.snd = opened.sent.map Prod.snd ++ log.flatMap ReadCall.packets

section Sent

variable {opened tftp : Members Address} {log : List (ReadCall Address)}

theorem Accounted.sendto (accounted : Accounted opened tftp log) (packet : List UInt8)
    {call : ReadCall Address} (isPacket : call.packets = [packet]) :
    Accounted opened (tftp.sendto packet) (log ++ [call]) := by
  unfold Accounted Members.sendto at *
  rw [List.map_append, accounted, List.flatMap_append, List.flatMap_singleton, isPacket,
    List.append_assoc]
  rfl

theorem Accounted.silent (accounted : Accounted opened tftp log) {call : ReadCall Address}
    (quiet : call.packets = []) : Accounted opened tftp (log ++ [call]) := by
  unfold Accounted at *
  rw [accounted, List.flatMap_append, List.flatMap_singleton, quiet, List.append_nil]

theorem Accounted.nextBlock (accounted : Accounted opened tftp log) (blockNum : Nat)
    (sends : Bool) :
    Accounted opened (ReadLoop.nextBlock log tftp blockNum sends).tftp
      (ReadLoop.nextBlock log tftp blockNum sends).log := by
  unfold ReadLoop.nextBlock
  dsimp only
  by_cases ended : tftp.filefdR.take blockSize = []
  · rw [if_pos ended, ended]
    exact accounted.sendto _ rfl
  · rw [if_neg ended]
    obtain ⟨byte, more, some_⟩ := List.exists_cons_of_ne_nil ended
    have quiet : (ReadCall.onReadData (byte :: more) : ReadCall Address).packets = [] := rfl
    rw [some_]
    exact (accounted.silent quiet).sendto _ rfl

theorem Accounted.tryAgain (accounted : Accounted opened tftp log) (blockNum r : Nat)
    (sends : Bool) :
    Accounted opened (ReadLoop.tryAgain log tftp blockNum r sends).tftp
      (ReadLoop.tryAgain log tftp blockNum r sends).log := by
  unfold ReadLoop.tryAgain
  by_cases more : r + 1 < 3
  · rw [if_pos more]
    exact accounted.sendto _ rfl
  · rw [if_neg more]
    exact accounted

end Sent

private theorem accounted_step {opened : Members Address} {loop next : ReadLoop Address}
    {event : Event Address} (accounted : Accounted opened loop.tftp loop.log)
    (taken : loop.step event = some next) : Accounted opened next.tftp next.log := by
  obtain ⟨blockNum, r, _, reply⟩ := ReadLoop.step_cases taken
  have known : Accounted opened (event.received.setClient loop.tftp) loop.log := by
    unfold Accounted
    rw [setClient_sent]
    exact accounted
  have silent (ack : event.received.isAck = true) :
      Accounted opened (event.received.setClient loop.tftp)
        (loop.log ++ [.heard event.received]) :=
    known.silent (if_pos ack)
  cases reply with
  | incorrect wrong =>
      have told : (ReadCall.heard event.received).packets =
          [errorPacket errNotDefined (text "incorrect ack")] := by
        rw [ReadCall.packets, wrong]
        rfl
      have refused : Accounted opened
          ((event.received.setClient loop.tftp).sendError errNotDefined (text "incorrect ack"))
          (loop.log ++ [.heard event.received]) := known.sendto _ told
      exact refused.tryAgain blockNum r event.sends
  | outOfOrder ack _ => exact (silent ack).tryAgain blockNum r event.sends
  | complete ack _ _ => exact silent ack
  | goesOn ack _ _ => exact (silent ack).nextBlock (blockNum + 1) event.sends

/-- What `process_read` has sent are the packets of its calls, in their order. -/
theorem accounted_of_reachable {opened : Members Address} {sends : Bool}
    {loop : ReadLoop Address} (reached : (readLoop opened sends).Reachable loop) :
    Accounted opened loop.tftp loop.log := by
  have start : Accounted opened opened [] := (List.append_nil _).symm
  induction reached with
  | initial => exact start.nextBlock 1 sends
  | step _ _ taken ih => exact accounted_step ih taken

def openedByte : Members Nat where
  client := 7
  buffer := List.replicate dataSizeMax 0
  dataSize := 0
  files := fun _ => none
  filefd := none
  filefdR := [42]
  fetched := []
  sent := []

end Tftp

end DlcServer
