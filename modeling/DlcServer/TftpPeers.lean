/-
Datagrams from strangers in the middle of a transfer.

The server keeps the address of the last datagram as its client and looks at no
address.  Two runs are compared here: one with the datagrams of the client
alone, and one with datagrams from other addresses in between.
-/

import DlcServer.TftpDownload
import DlcServer.TftpUpload

namespace DlcServer

open Library

namespace Tftp

variable {Address : Type}

/-! ### Two runs of a transfer -/

def Control.inTransfer : Control → Bool
  | .listens => false
  | .writes _ => true
  | .reads _ _ => true
  | .stopped => false
  | .spins => false
  | .faulted => false

namespace Server

def advance (server : Server Address) (event : Event Address) : Server Address :=
  (server.step event).getD server

/-- The transfer takes what is received until it is over. -/
def serve : Server Address → List (Event Address) → Server Address
  | server, [] => server
  | server, event :: rest =>
      if server.control.inTransfer then (server.advance event).serve rest else server

private theorem serve_of_over {server : Server Address} (over_ : server.control.inTransfer = false)
    (events : List (Event Address)) : server.serve events = server := by
  cases events with
  | nil => rfl
  | cons event rest => simp [serve, over_]

end Server

/-- A datagram that does not come from `client`. -/
def Event.foreign [DecidableEq Address] (client : Address) (event : Event Address) : Bool :=
  match event.received with
  | .failed _ => false
  | .datagram source _ => decide (source ≠ client)

/-- From `before` to `after` all DATA and ACK packets have gone to `client`. -/
def Directed (client : Address) (before after : Server Address) : Prop :=
  ∃ news, after.tftp.sent = before.tftp.sent ++ news ∧
    ∀ packet ∈ news, command packet.2 = cmdData ∨ command packet.2 = cmdAck →
      packet.1 = client

/-- The datagrams from other addresses have no effect on the transfer. -/
structure NoEffect [DecidableEq Address] (client : Address) (start : Server Address)
    (events : List (Event Address)) : Prop where
  directed : Directed client start (start.serve events)
  files : (start.serve events).tftp.files =
    (start.serve (events.filter (fun event => !event.foreign client))).tftp.files
  fetched : (start.serve events).tftp.fetched =
    (start.serve (events.filter (fun event => !event.foreign client))).tftp.fetched

/-! ### What a transfer can bear -/

def Event.acknowledges (event : Event Address) (blockNum : Nat) : Bool :=
  match event.received with
  | .failed _ => false
  | .datagram _ bytes => Tftp.acknowledges blockNum bytes

/-- The third wait for a block ends without its acknowledgement. -/
def LosesLastWait (server : Server Address) (event : Event Address) : Prop :=
  ∃ blockNum r, server.control = .reads blockNum r ∧ 3 ≤ r + 1 ∧
    event.acknowledges blockNum = false

/-- A wait of `process_read` is spent on a datagram that is no acknowledgement,
and another one is left. -/
def Bearable (server : Server Address) (event : Event Address) : Prop :=
  ∃ blockNum r source bytes, server.control = .reads blockNum r ∧ r + 1 < 3 ∧
    event.received = .datagram source bytes ∧ isAck bytes = false ∧ event.sends = true

/-- Every datagram from another address can be borne, and no block is given up
because of one: what loses the last wait in the second run loses it in the first. -/
def Unharmed [DecidableEq Address] (client : Address) :
    Server Address → Server Address → List (Event Address) → Prop
  | _, _, [] => True
  | alone, mixed, event :: rest =>
      mixed.control.inTransfer = true →
        if event.foreign client then
          Bearable mixed event ∧ Unharmed client alone (mixed.advance event) rest
        else
          (LosesLastWait mixed event → LosesLastWait alone event) ∧
            Unharmed client (alone.advance event) (mixed.advance event) rest

/-! ### The two runs side by side -/

/-- Both runs wait for the acknowledgement of one block, the second one perhaps
for a later time; buffers and addresses may differ. -/
structure BothRead (alone mixed : Server Address) : Prop where
  waits : ∃ blockNum r later, alone.control = .reads blockNum r ∧
    mixed.control = .reads blockNum later ∧ r ≤ later
  dataSize : mixed.tftp.dataSize = alone.tftp.dataSize
  unread : mixed.tftp.filefdR = alone.tftp.filefdR

structure Tracks (alone mixed : Server Address) : Prop where
  files : mixed.tftp.files = alone.tftp.files
  fetched : mixed.tftp.fetched = alone.tftp.fetched
  stage : mixed = alone ∨ BothRead alone mixed ∨
    (alone.control.inTransfer = false ∧ mixed.control.inTransfer = false)

theorem Tracks.refl (server : Server Address) : Tracks server server :=
  ⟨rfl, rfl, .inl rfl⟩

private theorem Tracks.inTransfer {alone mixed : Server Address} (tracks : Tracks alone mixed) :
    mixed.control.inTransfer = alone.control.inTransfer := by
  rcases tracks.stage with rfl | reads | ⟨first, second⟩
  · rfl
  · obtain ⟨blockNum, r, later, first, second, _⟩ := reads.waits
    rw [first, second]
    rfl
  · rw [first, second]

private theorem runReturns_over (tftp : Members Address) (result : Int) :
    (Server.runReturns tftp result).control.inTransfer = false := by
  rcases Server.runReturns_control tftp result with stopped | listens
  · rw [stopped]
    rfl
  · rw [listens]
    rfl

/-- Two members of which a wait sees the same. -/
structure Alike (alone mixed : Members Address) : Prop where
  files : mixed.files = alone.files
  fetched : mixed.fetched = alone.fetched
  dataSize : mixed.dataSize = alone.dataSize
  unread : mixed.filefdR = alone.filefdR

namespace Alike

theorem sendto {alone mixed : Members Address} (alike : Alike alone mixed)
    (first second : List UInt8) : Alike (alone.sendto first) (mixed.sendto second) :=
  ⟨alike.files, alike.fetched, alike.dataSize, alike.unread⟩

theorem sendError {alone mixed : Members Address} (alike : Alike alone mixed) (code : Nat)
    (message : CText) : Alike (alone.sendError code message) (mixed.sendError code message) :=
  ⟨alike.files, alike.fetched, alike.dataSize, alike.unread⟩

theorem setClient {alone mixed : Members Address} (alike : Alike alone mixed)
    (source : Address) : Alike (alone.setClient source) (mixed.setClient source) :=
  ⟨alike.files, alike.fetched, alike.dataSize, alike.unread⟩

end Alike

private theorem tracks_returned {alone mixed : Members Address} (alike : Alike alone mixed)
    (result : Int) :
    Tracks (Server.reading (alone, .returned result)) (Server.reading (mixed, .returned result)) :=
  ⟨alike.files, alike.fetched, .inr (.inr ⟨runReturns_over _ _, runReturns_over _ _⟩)⟩

private theorem tracks_sendBlock {alone mixed : Members Address} (alike : Alike alone mixed)
    {blockNum r later : Nat} (behind : r ≤ later) (sends : Bool) :
    Tracks (Server.reading (sendBlock alone blockNum r sends))
      (Server.reading (sendBlock mixed blockNum later sends)) := by
  have sent := alike.sendto (alone.buffer.take (alone.dataSize + 4))
    (mixed.buffer.take (mixed.dataSize + 4))
  cases sends with
  | false => exact tracks_returned sent (-1)
  | true =>
      exact ⟨sent.files, sent.fetched, .inr (.inl ⟨⟨blockNum, r, later, rfl, rfl, behind⟩,
        sent.dataSize, sent.unread⟩)⟩

private theorem tracks_retry {alone mixed : Members Address} (alike : Alike alone mixed)
    {blockNum r later : Nat} (behind : r ≤ later) (same : 3 ≤ later + 1 → 3 ≤ r + 1)
    (sends : Bool) :
    Tracks (Server.reading (retry alone blockNum r sends))
      (Server.reading (retry mixed blockNum later sends)) := by
  unfold retry
  by_cases more : later + 1 < 3
  · rw [if_pos more, if_pos (by omega)]
    exact tracks_sendBlock alike (Nat.succ_le_succ behind) sends
  · rw [if_neg more, if_neg (by omega)]
    exact tracks_returned alike (-1)

private theorem tracks_processRead {alone mixed : Members Address} (alike : Alike alone mixed)
    (blockNum : Nat) (sends : Bool) :
    Tracks (Server.reading (processRead alone blockNum sends))
      (Server.reading (processRead mixed blockNum sends)) := by
  unfold processRead
  simp only [alike.unread]
  by_cases ended : alone.filefdR.take blockSize = []
  · simp only [if_pos ended]
    refine tracks_returned (Alike.sendError ?_ _ _) (-1)
    exact ⟨alike.files, alike.fetched, alike.dataSize, rfl⟩
  · simp only [if_neg ended]
    refine tracks_sendBlock ?_ (Nat.le_refl 0) sends
    exact ⟨alike.files, by simp only [alike.fetched], rfl, rfl⟩

private theorem tracks_waitForAck {alone mixed : Members Address} (alike : Alike alone mixed)
    {blockNum r later : Nat} (behind : r ≤ later) {event : Event Address}
    (same : 3 ≤ later + 1 → event.acknowledges blockNum = false → 3 ≤ r + 1) :
    Tracks (Server.reading (waitForAck alone blockNum r event))
      (Server.reading (waitForAck mixed blockNum later event)) := by
  unfold waitForAck
  cases received : event.received with
  | failed again =>
      refine tracks_retry (alike.sendError _ _) behind ?_ _
      intro last
      exact same last (by simp [Event.acknowledges, received])
  | datagram source bytes =>
      have heard := alike.setClient source
      have lost : acknowledges blockNum bytes = false → 3 ≤ later + 1 → 3 ≤ r + 1 := by
        intro wrong last
        exact same last (by simp [Event.acknowledges, received, wrong])
      cases ack : isAck bytes with
      | false =>
          simp only [ack, Bool.not_false, if_true]
          refine tracks_retry (heard.sendError _ _) behind (lost ?_) _
          simp [acknowledges, ack]
      | true =>
          simp only [ack, Bool.not_true, Bool.false_eq_true, if_false]
          cases right : acknowledges blockNum bytes with
          | false =>
              simp only [Bool.not_false, if_true]
              exact tracks_retry heard behind (lost right) _
          | true =>
              simp only [Bool.not_true, Bool.false_eq_true, if_false, alike.dataSize]
              by_cases last : alone.dataSize < blockSize
              · simp only [if_pos last]
                exact tracks_returned heard 0
              · simp only [if_neg last]
                exact tracks_processRead heard _ _

/-! ### Where the packets go -/

namespace Directed

theorem refl (client : Address) (server : Server Address) : Directed client server server :=
  ⟨[], by simp, by simp⟩

theorem trans {client : Address} {first second third : Server Address}
    (one : Directed client first second) (two : Directed client second third) :
    Directed client first third := by
  obtain ⟨news, added, toClient⟩ := one
  obtain ⟨more, addedToo, toClientToo⟩ := two
  refine ⟨news ++ more, ?_, ?_⟩
  · rw [addedToo, added, List.append_assoc]
  · intro packet member
    rcases List.mem_append.mp member with old | new
    · exact toClient packet old
    · exact toClientToo packet new

private theorem of_answers {client : Address} {before after : Server Address}
    (answers : Answers (before.tftp.setClient client) after.tftp) :
    Directed client before after := by
  obtain ⟨news, added, toClient⟩ := answers.sent
  exact ⟨news, added, fun packet member _ => toClient packet member⟩

end Directed

private theorem directed_of_incorrect {client : Address} {before : Server Address}
    {heard : Members Address} (sameSent : heard.sent = before.tftp.sent) (blockNum r : Nat)
    (sends : Bool) :
    Directed client before
      (Server.reading (retry (heard.sendError errNotDefined (text "incorrect ack")) blockNum r
        sends)) := by
  have notAsked : ∀ packet : List UInt8, command packet = cmdError →
      ¬ (command packet = cmdData ∨ command packet = cmdAck) := by
    intro packet isError
    rw [isError]
    decide
  have error := errorPacket_command errNotDefined (text "incorrect ack") []
  rw [List.append_nil] at error
  unfold retry
  by_cases more : r + 1 < 3
  · rw [if_pos more]
    refine ⟨[(heard.client, errorPacket errNotDefined (text "incorrect ack")),
      (heard.client, (heard.sendError errNotDefined (text "incorrect ack")).buffer.take
        (heard.dataSize + 4))], ?_, ?_⟩
    · rw [← sameSent]
      cases sends with
      | false => exact List.append_assoc heard.sent [_] [_]
      | true => exact List.append_assoc heard.sent [_] [_]
    · intro packet member asked
      rcases List.mem_cons.mp member with rfl | second
      · exact absurd asked (notAsked _ error)
      · rw [List.mem_singleton.mp second] at asked
        refine absurd asked (notAsked _ ?_)
        rw [command_take (by omega)]
        exact errorPacket_command _ _ _
  · rw [if_neg more]
    refine ⟨[(heard.client, errorPacket errNotDefined (text "incorrect ack"))], ?_, ?_⟩
    · rw [← sameSent]
      rfl
    · intro packet member asked
      rw [List.mem_singleton.mp member] at asked
      exact absurd asked (notAsked _ error)

/-! ### Steps of the two runs -/

private theorem advance_reads {server : Server Address} {blockNum r : Nat}
    (control : server.control = .reads blockNum r) (event : Event Address) :
    server.advance event = Server.reading (waitForAck server.tftp blockNum r event) := by
  simp [Server.advance, Server.step, control]

private theorem step_of_inTransfer {server : Server Address} (serves : server.control.inTransfer = true)
    (event : Event Address) : server.step event = some (server.advance event) := by
  unfold Server.advance Server.step
  cases control : server.control with
  | listens => simp [control, Control.inTransfer] at serves
  | writes nextBlockNum => cases received : event.received <;> rfl
  | reads blockNum r => rfl
  | stopped => simp [control, Control.inTransfer] at serves
  | spins => simp [control, Control.inTransfer] at serves
  | faulted => simp [control, Control.inTransfer] at serves

theorem Tracks.alike {alone mixed : Server Address} (tracks : Tracks alone mixed)
    (reads : BothRead alone mixed) : Alike alone.tftp mixed.tftp :=
  ⟨tracks.files, tracks.fetched, reads.dataSize, reads.unread⟩

private theorem tracks_own {alone mixed : Server Address} {event : Event Address}
    (tracks : Tracks alone mixed) (serves : mixed.control.inTransfer = true)
    (same : LosesLastWait mixed event → LosesLastWait alone event) :
    Tracks (alone.advance event) (mixed.advance event) := by
  rcases tracks.stage with rfl | reads | ⟨_, over_⟩
  · exact .refl _
  · obtain ⟨blockNum, r, later, first, second, behind⟩ := reads.waits
    rw [advance_reads first, advance_reads second]
    refine tracks_waitForAck (tracks.alike reads) behind ?_
    intro last wrong
    obtain ⟨_, _, control, lost, _⟩ := same ⟨blockNum, later, second, last, wrong⟩
    rw [first] at control
    cases control
    exact lost
  · rw [serves] at over_
    contradiction

private theorem tracks_foreign {client : Address} {alone mixed : Server Address} {event : Event Address}
    (tracks : Tracks alone mixed) (bearable : Bearable mixed event) :
    Tracks alone (mixed.advance event) ∧ Directed client mixed (mixed.advance event) := by
  obtain ⟨blockNum, r, source, bytes, control, left, received, wrong, sends⟩ := bearable
  have turned : mixed.advance event = Server.reading (retry
      ((mixed.tftp.setClient source).sendError errNotDefined (text "incorrect ack"))
      blockNum r event.sends) := by
    rw [advance_reads control, waitForAck, received]
    simp only [wrong, Bool.not_false, if_true]
  have waiting : ∃ earlier, alone.control = .reads blockNum earlier ∧ earlier ≤ r ∧
      mixed.tftp.dataSize = alone.tftp.dataSize ∧ mixed.tftp.filefdR = alone.tftp.filefdR := by
    rcases tracks.stage with rfl | reads | ⟨_, over_⟩
    · exact ⟨r, control, Nat.le_refl r, rfl, rfl⟩
    · obtain ⟨_, earlier, later, first, second, behind⟩ := reads.waits
      rw [control] at second
      cases second
      exact ⟨earlier, first, behind, reads.dataSize, reads.unread⟩
    · rw [control] at over_
      contradiction
  obtain ⟨earlier, first, behind, dataSize, unread⟩ := waiting
  rw [turned]
  refine ⟨?_, @directed_of_incorrect _ client mixed (mixed.tftp.setClient source) rfl _ _ _⟩
  rw [retry, if_pos left, sends]
  exact ⟨tracks.files, tracks.fetched, .inr (.inl ⟨⟨blockNum, earlier, r + 1, first, rfl,
    Nat.le_succ_of_le behind⟩, dataSize, unread⟩)⟩

section Strangers

variable [DecidableEq Address] {client : Address}

private theorem Event.of_not_foreign {event : Event Address} (own : event.foreign client = false) :
    (∃ again, event.received = .failed again) ∨
      ∃ bytes, event.received = .datagram client bytes := by
  unfold Event.foreign at own
  cases received : event.received with
  | failed again => exact .inl ⟨again, rfl⟩
  | datagram source bytes =>
      simp only [received, decide_eq_false_iff_not, ne_eq, not_not] at own
      exact .inr ⟨bytes, by rw [own]⟩

private theorem advance_client {server : Server Address} {event : Event Address}
    (own : event.foreign client = false) (peer : server.tftp.client = client)
    (serves : server.control.inTransfer = true) :
    (server.advance event).tftp.client = client := by
  have taken := step_of_inTransfer serves event
  rcases Event.of_not_foreign own with ⟨again, failed⟩ | ⟨bytes, arrived⟩
  · rw [(step_failed_answers failed taken).client, peer]
  · exact (step_answers arrived taken).client

private theorem directed_own {alone mixed : Server Address} {event : Event Address}
    (own : event.foreign client = false) (peer : alone.tftp.client = client)
    (tracks : Tracks alone mixed) (serves : mixed.control.inTransfer = true) :
    Directed client mixed (mixed.advance event) := by
  have taken := step_of_inTransfer serves event
  rcases Event.of_not_foreign own with ⟨again, failed⟩ | ⟨bytes, arrived⟩
  · cases control : mixed.control with
    | reads blockNum r =>
        rw [advance_reads control, waitForAck, failed]
        exact directed_of_incorrect rfl _ _ _
    | writes nextBlockNum =>
        have same : mixed = alone := by
          rcases tracks.stage with same | reads | ⟨_, over_⟩
          · exact same
          · obtain ⟨_, _, _, _, second, _⟩ := reads.waits
            rw [control] at second
            contradiction
          · rw [serves] at over_
            contradiction
        have answers := step_failed_answers failed taken
        obtain ⟨news, added, toClient⟩ := answers.sent
        refine ⟨news, added, fun packet member _ => ?_⟩
        rw [toClient packet member, same, peer]
    | listens => simp [control, Control.inTransfer] at serves
    | stopped => simp [control, Control.inTransfer] at serves
    | spins => simp [control, Control.inTransfer] at serves
    | faulted => simp [control, Control.inTransfer] at serves
  · exact .of_answers (step_answers arrived taken)

private theorem tracks_serve {alone mixed : Server Address} {events : List (Event Address)}
    (tracks : Tracks alone mixed) (peer : alone.tftp.client = client)
    (unharmed : Unharmed client alone mixed events) :
    Tracks (alone.serve (events.filter (fun event => !event.foreign client)))
        (mixed.serve events) ∧
      Directed client mixed (mixed.serve events) := by
  induction events generalizing alone mixed with
  | nil => exact ⟨tracks, .refl _ _⟩
  | cons event rest ih =>
      cases serves : mixed.control.inTransfer with
      | false =>
          have over_ : alone.control.inTransfer = false := tracks.inTransfer ▸ serves
          rw [Server.serve_of_over serves, Server.serve_of_over over_]
          exact ⟨tracks, .refl _ _⟩
      | true =>
          have servesToo : alone.control.inTransfer = true := tracks.inTransfer ▸ serves
          have rule := unharmed serves
          cases own : event.foreign client with
          | true =>
              rw [if_pos own] at rule
              obtain ⟨kept, directed⟩ := @tracks_foreign _ client _ _ _ tracks rule.1
              obtain ⟨keptOn, directedOn⟩ := ih kept peer rule.2
              simp only [List.filter_cons, own, Bool.not_true, Bool.false_eq_true, if_false,
                Server.serve, serves, if_true]
              exact ⟨keptOn, directed.trans directedOn⟩
          | false =>
              rw [if_neg (by simp [own])] at rule
              have kept := tracks_own tracks serves rule.1
              have directed := directed_own own peer tracks serves
              obtain ⟨keptOn, directedOn⟩ := ih kept (advance_client own peer servesToo) rule.2
              simp only [List.filter_cons, own, Bool.not_false, if_true, Server.serve, serves,
                servesToo]
              exact ⟨keptOn, directed.trans directedOn⟩

/-- In every run that is unharmed the strangers have no effect. -/
theorem noEffect_of_unharmed {start : Server Address} {events : List (Event Address)}
    (peer : start.tftp.client = client) (unharmed : Unharmed client start start events) :
    NoEffect client start events := by
  obtain ⟨tracks, directed⟩ := tracks_serve (.refl start) peer unharmed
  exact ⟨directed, tracks.files, tracks.fetched⟩

end Strangers

/-- A stranger heard by `process_write` is acknowledged, or it ends the upload. -/
theorem stranger_heard {server : Server Address} {nextBlockNum : Nat} {event : Event Address}
    {client source : Address} {bytes : List UInt8} (writing : server.control = .writes nextBlockNum)
    (arrived : event.received = .datagram source bytes) (stranger : source ≠ client) :
    ¬ Directed client server (server.advance event) ∨
      (processWrite (server.tftp.receive source bytes) nextBlockNum).2 = .returned 1 := by
  generalize done : processWrite (server.tftp.receive source bytes) nextBlockNum = turned
  obtain ⟨after, turn⟩ := turned
  have moved : server.advance event = Server.writing (after, turn) event.opens event.sends := by
    simp only [Server.advance, Server.step, writing, arrived, done, Option.getD_some]
  have acked : ∀ blockNum, after.sent = server.tftp.sent ++ [(source, ackPacket blockNum)] →
      turn ≠ .returned 1 → ¬ Directed client server (server.advance event) := by
    intro blockNum sent goesOn directed
    obtain ⟨news, added, toClient⟩ := directed
    have stays : (server.advance event).tftp.sent = after.sent := by
      rw [moved]
      cases turn with
      | again following => rfl
      | fault => rfl
      | returned result =>
          cases processWrite_cases done with
          | otherPacket notData notRepeated => exact absurd rfl goesOn
          | duplicate isData old turned =>
              obtain ⟨rfl, _⟩ := afterData_eq_returned turned
              rfl
          | written isData new whole turned =>
              obtain ⟨rfl, _⟩ := afterData_eq_returned turned
              rfl
    rw [stays, sent, List.append_right_inj] at added
    have packet : ((source, ackPacket blockNum) : Address × List UInt8) ∈ news := by simp [← added]
    exact stranger (toClient _ packet (.inr (ackPacket_command blockNum)))
  cases processWrite_cases done with
  | requestRepeated isRequest first => exact .inl (acked 0 rfl WriteTurn.noConfusion)
  | otherPacket notData notRepeated => exact .inr rfl
  | duplicate isData old turned =>
      refine .inl (acked _ rfl ?_)
      rintro rfl
      exact absurd (afterData_eq_returned turned).1 (by decide)
  | headless isData new short => exact .inl (acked _ rfl WriteTurn.noConfusion)
  | written isData new whole turned =>
      refine .inl (acked _ (onWriteData_sent _ _) ?_)
      rintro rfl
      exact absurd (afterData_eq_returned turned).1 (by decide)

/-! ### Two transfers -/

/-- A server that has sent its only block to address 7. -/
def sendsOneByte : Server Nat :=
  (Server.mk (hostWith [42]).members .listens).advance (readEvent 7 requestForF)

set_option maxRecDepth 8192 in
/-- A stray datagram between the block and its acknowledgement. -/
theorem stray_datagram_borne :
    NoEffect 7 sendsOneByte [arrival 9 [0, 0, 0], arrival 7 (ackPacket 1)] := by
  refine noEffect_of_unharmed rfl ?_
  intro _
  rw [if_pos (by decide)]
  refine ⟨⟨1, 0, 9, [0, 0, 0], rfl, by decide, rfl, by decide, rfl⟩, ?_⟩
  intro _
  rw [if_neg (by decide)]
  refine ⟨?_, trivial⟩
  rintro ⟨blockNum, r, control, last, _⟩
  cases control
  contradiction

/-- A server that waits for the first block of the file of address 7. -/
def expectsFirstBlock : Server Nat :=
  (Server.mk emptyHost.members .listens).advance
    ((uploaderOf [42]).arrival ((uploaderOf [42]).request.bytes cmdWrq) true)

set_option maxRecDepth 8192 in
/-- Another address uploads the block the client has not sent yet. -/
theorem strangers_block_written :
    ¬ ∀ (client : Nat) (start : Server Nat) (events : List (Event Nat)),
      start.control.inTransfer = true → start.tftp.client = client →
        NoEffect client start events := by
  intro always
  have noEffect := always 7 expectsFirstBlock [arrival 9 (dataPacket [66] 0)] rfl rfl
  have files := congrFun noEffect.files (text "f")
  have mixed : (expectsFirstBlock.serve [arrival 9 (dataPacket [66] 0)]).tftp.files
      (text "f") = some [66] := rfl
  rw [mixed] at files
  contradiction

end Tftp

end DlcServer
