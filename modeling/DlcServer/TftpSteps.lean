/-
What one step of the TFTP server does.

Every packet goes to the sender of the datagram received last, and the server
comes to wait for a block in two ways only: a write request has opened the file,
or `process_write` has gone round its loop.
-/

import DlcServer.TftpRequests

namespace DlcServer

open Library

namespace Tftp

variable {Address : Type}

/-! ### Who is answered -/

/-- Between `tftp` and `after` packets have been sent to the client only. -/
structure Answers (tftp after : Members Address) : Prop where
  client : after.client = tftp.client
  sent : ∃ news, after.sent = tftp.sent ++ news ∧ ∀ packet ∈ news, packet.1 = tftp.client

namespace Answers

private theorem of_eq {tftp after : Members Address} (client : after.client = tftp.client)
    (sent : after.sent = tftp.sent) : Answers tftp after :=
  ⟨client, [], by rw [sent, List.append_nil], by simp⟩

theorem trans {tftp between after : Members Address} (first : Answers tftp between)
    (second : Answers between after) : Answers tftp after := by
  obtain ⟨news, added, toClient⟩ := first.sent
  obtain ⟨more, addedToo, toSame⟩ := second.sent
  refine ⟨second.client.trans first.client, news ++ more, ?_, ?_⟩
  · rw [addedToo, added, List.append_assoc]
  · intro packet member
    rcases List.mem_append.mp member with old | new
    · exact toClient packet old
    · exact (toSame packet new).trans first.client

theorem sendto (tftp : Members Address) (packet : List UInt8) :
    Answers tftp (tftp.sendto packet) :=
  ⟨rfl, [(tftp.client, packet)], rfl, by simp⟩

theorem sendError (tftp : Members Address) (code : Nat) (message : CText) :
    Answers tftp (tftp.sendError code message) :=
  ⟨rfl, [(tftp.client, errorPacket code message)], rfl, by simp⟩

end Answers

@[simp] theorem onWriteData_sent (tftp : Members Address) (data : List UInt8) :
    (tftp.onWriteData data).sent = tftp.sent := by
  unfold Members.onWriteData
  cases tftp.filefd with
  | none => rfl
  | some filename => rfl

@[simp] theorem onWriteData_client (tftp : Members Address) (data : List UInt8) :
    (tftp.onWriteData data).client = tftp.client := by
  unfold Members.onWriteData
  cases tftp.filefd with
  | none => rfl
  | some filename => rfl

private theorem processWrite_answers {tftp after : Members Address} {nextBlockNum : Nat}
    {turn : WriteTurn} (done : processWrite tftp nextBlockNum = (after, turn)) :
    Answers tftp after := by
  cases processWrite_cases done with
  | requestRepeated isRequest first => exact .sendto _ _
  | otherPacket notData notRepeated => exact .of_eq rfl rfl
  | duplicate isData old turned => exact .sendto _ _
  | headless isData new short => exact .sendto _ _
  | written isData new whole turned =>
      have acked := Answers.sendto tftp (ackPacket (number tftp.buffer))
      exact acked.trans (.of_eq (onWriteData_client _ _) (onWriteData_sent _ _))

private theorem processRead_answers (tftp : Members Address) (blockNum : Nat) (sends : Bool) :
    Answers tftp (processRead tftp blockNum sends).1 := by
  unfold processRead
  by_cases ended : tftp.filefdR.take blockSize = []
  · simp only [if_pos ended]
    exact ⟨rfl, _, rfl, by simp⟩
  · simp only [if_neg ended]
    exact ⟨rfl, _, rfl, by simp⟩

private theorem retry_answers (tftp : Members Address) (blockNum r : Nat) (sends : Bool) :
    Answers tftp (retry tftp blockNum r sends).1 := by
  unfold retry
  by_cases more : r + 1 < 3
  · rw [if_pos more]
    exact .sendto _ _
  · rw [if_neg more]
    exact .of_eq rfl rfl

private theorem reading_answers {tftp : Members Address} {turned : Members Address × ReadTurn}
    (answers : Answers tftp turned.1) : Answers tftp (Server.reading turned).tftp := by
  obtain ⟨after, turn⟩ := turned
  cases turn with
  | waits blockNum r => exact answers
  | returned result => exact answers.trans (.of_eq rfl rfl)

private theorem parseWrq_answers {tftp after : Members Address} {opens : Bool}
    (parsed : parseWrq tftp opens = .accepted after ∨ parseWrq tftp opens = .refused after) :
    Answers tftp after := by
  have outcome := parseWrq_cases tftp opens
  rcases parsed with accepted | refused
  · rw [accepted] at outcome
    cases outcome with
    | accepted found seen => exact ⟨rfl, _, rfl, by simp [Members.created]⟩
  · rw [refused] at outcome
    cases outcome with
    | refused found => exact .sendError _ _ _

private theorem parseRrq_answers {tftp after : Members Address} {opens : Bool}
    (parsed : parseRrq tftp opens = .accepted after ∨ parseRrq tftp opens = .refused after) :
    Answers tftp after := by
  have outcome := parseRrq_cases tftp opens
  rcases parsed with accepted | refused
  · rw [accepted] at outcome
    cases outcome with
    | accepted found read =>
        rcases onRead_eq_some.mp read with ⟨content, _, _, rfl⟩
        exact .of_eq rfl rfl
  · rw [refused] at outcome
    cases outcome with
    | refused found closed => exact .sendError _ _ _

private theorem parseRq_answers (tftp : Members Address) (result : Int) (opens sends : Bool) :
    Answers tftp (Server.parseRq tftp result opens sends).tftp := by
  unfold Server.parseRq
  by_cases isWrite : command tftp.buffer = cmdWrq
  · rw [if_pos isWrite]
    cases parsed : parseWrq tftp opens with
    | accepted opened => exact parseWrq_answers (.inl parsed)
    | refused answered => exact parseWrq_answers (.inr parsed)
    | fault => exact .of_eq rfl rfl
  · rw [if_neg isWrite]
    by_cases isRead : command tftp.buffer = cmdRrq
    · rw [if_pos isRead]
      cases parsed : parseRrq tftp opens with
      | accepted opened =>
          exact reading_answers
            ((parseRrq_answers (.inl parsed)).trans (processRead_answers _ _ _))
      | refused answered => exact parseRrq_answers (.inr parsed)
      | fault => exact .of_eq rfl rfl
    · rw [if_neg isRead]
      by_cases returns : result ≤ 0
      · rw [if_pos returns]
        exact .of_eq rfl rfl
      · rw [if_neg returns]
        exact .of_eq rfl rfl

private theorem writing_answers {tftp : Members Address} {turned : Members Address × WriteTurn}
    (answers : Answers tftp turned.1) (opens sends : Bool) :
    Answers tftp (Server.writing turned opens sends).tftp := by
  obtain ⟨after, turn⟩ := turned
  cases turn with
  | again nextBlockNum => exact answers
  | fault => exact answers
  | returned result =>
      have closed : Answers tftp after.onCloseW := answers.trans (.of_eq rfl rfl)
      simp only [Server.writing]
      by_cases returns : result ≤ 0
      · rw [if_pos returns]
        exact closed
      · rw [if_neg returns]
        exact closed.trans (parseRq_answers _ _ _ _)

/-- Every packet of a step goes to the sender of the datagram it is made on. -/
theorem step_answers {server next : Server Address} {event : Event Address} {source : Address}
    {bytes : List UInt8} (arrived : event.received = .datagram source bytes)
    (taken : server.step event = some next) :
    Answers (server.tftp.setClient source) next.tftp := by
  have received : Answers (server.tftp.setClient source) (server.tftp.receive source bytes) :=
    .of_eq rfl rfl
  unfold Server.step at taken
  cases control : server.control with
  | listens =>
      simp only [control, arrived, Option.some.injEq] at taken
      subst taken
      exact received.trans (parseRq_answers _ _ _ _)
  | writes nextBlockNum =>
      simp only [control, arrived, Option.some.injEq] at taken
      subst taken
      exact writing_answers (received.trans (processWrite_answers rfl)) _ _
  | reads blockNum r =>
      simp only [control, Option.some.injEq] at taken
      subst taken
      refine reading_answers ?_
      have turned := waitForAck_cases server.tftp blockNum r event
      generalize waitForAck server.tftp blockNum r event = turn at turned
      cases turned with
      | failed again failed =>
          rw [arrived] at failed
          contradiction
      | incorrect _ _ there wrong =>
          obtain ⟨rfl, rfl⟩ := Received.datagram.inj (arrived.symm.trans there)
          exact (Answers.sendError _ _ _).trans (retry_answers _ _ _ _)
      | outOfOrder _ _ there ack other =>
          obtain ⟨rfl, rfl⟩ := Received.datagram.inj (arrived.symm.trans there)
          exact retry_answers _ _ _ _
      | complete _ _ there right last =>
          obtain ⟨rfl, rfl⟩ := Received.datagram.inj (arrived.symm.trans there)
          exact .of_eq rfl rfl
      | goesOn _ _ there right full =>
          obtain ⟨rfl, rfl⟩ := Received.datagram.inj (arrived.symm.trans there)
          exact processRead_answers _ _ _
  | stopped => simp [control] at taken
  | spins => simp [control] at taken
  | faulted => simp [control] at taken

theorem step_failed_answers {server next : Server Address} {event : Event Address} {again : Bool}
    (failed : event.received = .failed again) (taken : server.step event = some next) :
    Answers server.tftp next.tftp := by
  unfold Server.step at taken
  cases control : server.control with
  | listens =>
      simp only [control, failed, Option.some.injEq] at taken
      subst taken
      exact .of_eq rfl rfl
  | writes nextBlockNum =>
      simp only [control, failed, Option.some.injEq] at taken
      subst taken
      exact .of_eq rfl rfl
  | reads blockNum r =>
      simp only [control, waitForAck, failed, Option.some.injEq] at taken
      subst taken
      exact reading_answers ((Answers.sendError _ _ _).trans (retry_answers _ _ _ _))
  | stopped => simp [control] at taken
  | spins => simp [control] at taken
  | faulted => simp [control] at taken

theorem step_sent {server next : Server Address} {event : Event Address}
    (taken : server.step event = some next) : server.tftp.sent <+: next.tftp.sent := by
  cases arrived : event.received with
  | failed again =>
      obtain ⟨news, added, _⟩ := (step_failed_answers arrived taken).sent
      exact ⟨news, added.symm⟩
  | datagram source bytes =>
      obtain ⟨news, added, _⟩ := (step_answers arrived taken).sent
      exact ⟨news, added.symm⟩

/-! ### How the server comes to wait for a block -/

/-- A write request has opened `filename` and has been answered. -/
structure Opened (tftp opened : Members Address) : Prop where
  request : command tftp.buffer = cmdWrq
  filename : ∃ filename afterName, cString (tftp.buffer.drop 2) = some (filename, afterName) ∧
    opened.filefd = some filename ∧ opened.files filename = some []
  answer : ∃ answer, opened.sent = tftp.sent ++ [answer] ∧
    (answer.2 = ackPacket 0 ∨ answer.2 = blksizePacket)

private theorem parseWrq_opened {tftp opened : Members Address} {opens : Bool}
    (isWrite : command tftp.buffer = cmdWrq)
    (parsed : parseWrq tftp opens = .accepted opened) : Opened tftp opened := by
  have outcome := parseWrq_cases tftp opens
  rw [parsed] at outcome
  cases outcome with
  | @accepted filename ptr asked found seen =>
      rcases requestIn_eq_some found with ⟨afterName, mode, named, moded⟩
      constructor
      · exact isWrite
      · exact ⟨filename, afterName, named, rfl, Function.update_self _ _ _⟩
      · refine ⟨_, rfl, ?_⟩
        cases asked with
        | false => exact .inl rfl
        | true => exact .inr rfl

private theorem runReturns_ne_writes (tftp : Members Address) (result : Int) (nextBlockNum : Nat) :
    (Server.runReturns tftp result).control ≠ .writes nextBlockNum := by
  rcases Server.runReturns_control tftp result with stopped | listens
  · simp [stopped]
  · simp [listens]

private theorem reading_ne_writes (turned : Members Address × ReadTurn) (nextBlockNum : Nat) :
    (Server.reading turned).control ≠ .writes nextBlockNum := by
  rcases Server.reading_control turned with ⟨blockNum, r, reads⟩ | stopped | listens
  · simp [reads]
  · simp [stopped]
  · simp [listens]

private theorem parseRq_writes {tftp : Members Address} {result : Int} {opens sends : Bool}
    {nextBlockNum : Nat}
    (writes : (Server.parseRq tftp result opens sends).control = .writes nextBlockNum) :
    nextBlockNum = 1 ∧ Opened tftp (Server.parseRq tftp result opens sends).tftp := by
  unfold Server.parseRq at writes ⊢
  by_cases isWrite : command tftp.buffer = cmdWrq
  · rw [if_pos isWrite] at writes ⊢
    cases parsed : parseWrq tftp opens with
    | accepted opened =>
        simp only [parsed, Control.writes.injEq] at writes ⊢
        exact ⟨writes.symm, parseWrq_opened isWrite parsed⟩
    | refused answered =>
        simp only [parsed] at writes
        exact absurd writes (runReturns_ne_writes _ _ _)
    | fault => simp [parsed] at writes
  · rw [if_neg isWrite] at writes
    by_cases isRead : command tftp.buffer = cmdRrq
    · rw [if_pos isRead] at writes
      cases parsed : parseRrq tftp opens with
      | accepted opened =>
          simp only [parsed] at writes
          exact absurd writes (reading_ne_writes _ _)
      | refused answered =>
          simp only [parsed] at writes
          exact absurd writes (runReturns_ne_writes _ _ _)
      | fault => simp [parsed] at writes
    · rw [if_neg isRead] at writes
      by_cases returns : result ≤ 0
      · rw [if_pos returns] at writes
        exact absurd writes (runReturns_ne_writes _ _ _)
      · simp [returns] at writes

/-- The server waits for a block because a datagram has opened the file, or
because `process_write` has gone round its loop. -/
theorem step_writes {server next : Server Address} {event : Event Address} {nextBlockNum : Nat}
    (taken : server.step event = some next) (writes : next.control = .writes nextBlockNum) :
    ∃ source bytes, event.received = .datagram source bytes ∧
      ((nextBlockNum = 1 ∧ Opened (server.tftp.receive source bytes) next.tftp) ∨
        ∃ expected, server.control = .writes expected ∧
          processWrite (server.tftp.receive source bytes) expected =
            (next.tftp, .again nextBlockNum)) := by
  unfold Server.step at taken
  cases control : server.control with
  | listens =>
      simp only [control] at taken
      cases arrived : event.received with
      | failed again =>
          simp only [arrived, Option.some.injEq] at taken
          subst taken
          exact absurd writes (runReturns_ne_writes _ _ _)
      | datagram source bytes =>
          simp only [arrived, Option.some.injEq] at taken
          subst taken
          exact ⟨source, bytes, rfl, .inl (parseRq_writes writes)⟩
  | writes expected =>
      simp only [control] at taken
      cases arrived : event.received with
      | failed again =>
          simp only [arrived, Option.some.injEq] at taken
          subst taken
          exact absurd writes (runReturns_ne_writes _ _ _)
      | datagram source bytes =>
          simp only [arrived, Option.some.injEq] at taken
          generalize done : processWrite (server.tftp.receive source bytes) expected = turned
            at taken
          obtain ⟨after, turn⟩ := turned
          refine ⟨source, bytes, rfl, ?_⟩
          cases turn with
          | again following =>
              subst taken
              cases writes
              exact .inr ⟨expected, rfl, done⟩
          | fault =>
              subst taken
              cases writes
          | returned result =>
              simp only [Server.writing] at taken
              by_cases returns : result ≤ 0
              · rw [if_pos returns] at taken
                subst taken
                exact absurd writes (runReturns_ne_writes _ _ _)
              · rw [if_neg returns] at taken
                subst taken
                obtain ⟨first, opened⟩ := parseRq_writes writes
                refine .inl ⟨first, ?_⟩
                cases processWrite_cases done with
                | otherPacket notData notRepeated =>
                    exact ⟨opened.request, opened.filename, opened.answer⟩
                | duplicate isData old turned =>
                    obtain ⟨rfl, _⟩ := afterData_eq_returned turned
                    exact absurd (Int.le_refl 0) returns
                | written isData new whole turned =>
                    obtain ⟨rfl, _⟩ := afterData_eq_returned turned
                    exact absurd (Int.le_refl 0) returns
  | reads blockNum r =>
      simp only [control, Option.some.injEq] at taken
      subst taken
      exact absurd writes (reading_ne_writes _ _)
  | stopped => simp [control] at taken
  | spins => simp [control] at taken
  | faulted => simp [control] at taken

end Tftp

end DlcServer
