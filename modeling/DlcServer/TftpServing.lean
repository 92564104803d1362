/-
When the TFTP server ends its service.

`main` serves as long as `run` returns no negative value.  This file finds, for
each place where the server waits, the datagrams after which `run` returns one
although every call of `recvfrom` and `sendto` has succeeded, and those after
which it does not return at all.
-/

import DlcServer.TftpRequests

namespace DlcServer

open Library

namespace Tftp

variable {Address : Type}

/-! ### What ends the service -/

/-- Neither `recvfrom` nor the `sendto` of a DATA packet fails. -/
def Event.Succeeds (event : Event Address) : Prop :=
  event.sends = true ∧ ∃ source bytes, event.received = .datagram source bytes

/-- The packet in the buffer is a read request for a name that opens and gives no byte. -/
def RequestsEmptyFile (tftp : Members Address) (opens : Bool) : Prop :=
  command tftp.buffer = cmdRrq ∧ opens = true ∧
    ∃ filename afterName, cString (tftp.buffer.drop 2) = some (filename, afterName) ∧
      (cString afterName).isSome ∧ tftp.files filename = some []

/-- The datagram makes the server give up in the state it finds it in. -/
def EndsService (server : Server Address) (event : Event Address) : Prop :=
  ∃ source bytes, event.received = .datagram source bytes ∧
    let tftp := server.tftp.receive source bytes
    match server.control with
    | .listens =>
        (command tftp.buffer ≠ cmdWrq ∧ command tftp.buffer ≠ cmdRrq) ∨
          RequestsEmptyFile tftp event.opens
    | .writes _ => RequestsEmptyFile tftp event.opens
    | .reads blockNum r =>
        if acknowledges blockNum bytes then
          blockSize ≤ server.tftp.dataSize ∧ server.tftp.filefdR = []
        else 3 ≤ r + 1
    | .stopped => False
    | .spins => False
    | .faulted => False

/-! ### The return values -/

private theorem runReturns_stopped_iff {tftp : Members Address} {result : Int} :
    (Server.runReturns tftp result).control = .stopped ↔ result < 0 := by
  unfold Server.runReturns
  by_cases negative : result < 0
  · simp [negative]
  · simp [negative]

private theorem reading_stopped_iff {tftp : Members Address} {turn : ReadTurn} :
    (Server.reading (tftp, turn)).control = .stopped ↔
      ∃ result, turn = .returned result ∧ result < 0 := by
  cases turn with
  | waits blockNum r => simp [Server.reading]
  | returned result => simp [Server.reading, runReturns_stopped_iff]

private theorem processRead_stopped_iff {tftp : Members Address} {blockNum : Nat} :
    (Server.reading (processRead tftp blockNum true)).control = .stopped ↔
      tftp.filefdR = [] := by
  have nothing : tftp.filefdR.take blockSize = [] ↔ tftp.filefdR = [] := by
    simp [blockSize, List.take_eq_nil_iff]
  unfold processRead
  by_cases ended : tftp.filefdR.take blockSize = []
  · simp [reading_stopped_iff, nothing.mp ended]
  · have remains : tftp.filefdR ≠ [] := fun none_ => ended (nothing.mpr none_)
    simp [ended, sendBlock, reading_stopped_iff, remains]

private theorem retry_stopped_iff {tftp : Members Address} {blockNum r : Nat} :
    (Server.reading (retry tftp blockNum r true)).control = .stopped ↔ 3 ≤ r + 1 := by
  unfold retry
  by_cases more : r + 1 < 3
  · simp only [if_pos more, sendBlock, reading_stopped_iff]
    constructor
    · rintro ⟨result, waits, _⟩
      cases waits
    · intro last
      omega
  · simp only [if_neg more, reading_stopped_iff]
    constructor
    · intro _
      omega
    · intro _
      exact ⟨-1, rfl, by decide⟩

private theorem parseRrq_accepted_iff {tftp opened : Members Address} {opens : Bool} :
    parseRrq tftp opens = .accepted opened ↔
      ∃ filename afterName content,
        cString (tftp.buffer.drop 2) = some (filename, afterName) ∧
          (cString afterName).isSome ∧ tftp.files filename = some content ∧
            opens = true ∧ opened = { tftp with filefdR := content } := by
  constructor
  · intro accepted
    have outcome := parseRrq_cases tftp opens
    rw [accepted] at outcome
    cases outcome with
    | @accepted filename ptr _ found read =>
        rcases requestIn_eq_some found with ⟨afterName, mode, named, moded⟩
        rcases onRead_eq_some.mp read with ⟨content, stored, can, same⟩
        exact ⟨filename, afterName, content, named, by simp [moded], stored, can, same⟩
  · rintro ⟨filename, afterName, content, named, moded, stored, rfl, rfl⟩
    rcases Option.isSome_iff_exists.mp moded with ⟨⟨mode, ptr⟩, moded⟩
    have read := onRead_eq_some.mpr ⟨content, stored, rfl, rfl⟩
    simp only [parseRrq_eq, requestIn_of_strings named moded, read]

private theorem parseRq_stopped_iff {tftp : Members Address} {result : Int} {opens : Bool} :
    (Server.parseRq tftp result opens true).control = .stopped ↔
      (command tftp.buffer ≠ cmdWrq ∧ command tftp.buffer ≠ cmdRrq ∧ result < 0) ∨
        RequestsEmptyFile tftp opens := by
  unfold Server.parseRq
  by_cases isWrite : command tftp.buffer = cmdWrq
  · have notRead : command tftp.buffer ≠ cmdRrq := by rw [isWrite]; decide
    have unread : ¬ RequestsEmptyFile tftp opens := fun empty => notRead empty.1
    cases parsed : parseWrq tftp opens with
    | accepted opened => simp [isWrite, unread]
    | refused answered => simp [isWrite, unread, runReturns_stopped_iff]
    | fault => simp [isWrite, unread]
  · by_cases isRead : command tftp.buffer = cmdRrq
    · rw [if_neg isWrite, if_pos isRead]
      cases parsed : parseRrq tftp opens with
      | accepted opened =>
          obtain ⟨filename, afterName, content, named, moded, stored, can, rfl⟩ :=
            parseRrq_accepted_iff.mp parsed
          simp [processRead_stopped_iff, RequestsEmptyFile, isRead, named, moded, stored, can]
      | refused answered =>
          have unread : ¬ RequestsEmptyFile tftp opens := by
            rintro ⟨_, can, filename, afterName, named, moded, stored⟩
            have accepted := parseRrq_accepted_iff.mpr
              ⟨filename, afterName, [], named, moded, stored, can, rfl⟩
            rw [parsed] at accepted
            contradiction
          simp [isRead, unread, runReturns_stopped_iff]
      | fault =>
          have unread : ¬ RequestsEmptyFile tftp opens := by
            rintro ⟨_, can, filename, afterName, named, moded, stored⟩
            have accepted := parseRrq_accepted_iff.mpr
              ⟨filename, afterName, [], named, moded, stored, can, rfl⟩
            rw [parsed] at accepted
            contradiction
          simp [isRead, unread]
    · have unread : ¬ RequestsEmptyFile tftp opens := fun empty => isRead empty.1
      rw [if_neg isWrite, if_neg isRead]
      by_cases returns : result ≤ 0
      · simp [returns, runReturns_stopped_iff, isWrite, isRead, unread]
      · have notNegative : ¬ result < 0 := by omega
        simp [returns, unread, notNegative]

private theorem writing_stopped_iff {tftp : Members Address} {nextBlockNum : Nat} {opens : Bool} :
    (Server.writing (processWrite tftp nextBlockNum) opens true).control = .stopped ↔
      RequestsEmptyFile tftp opens := by
  generalize done : processWrite tftp nextBlockNum = turned
  obtain ⟨after, turn⟩ := turned
  have unread : command tftp.buffer ≠ cmdRrq → ¬ RequestsEmptyFile tftp opens :=
    fun other empty => other empty.1
  have served : ∀ (next : Nat) (written : Members Address),
      (Server.writing (written, afterData tftp next) opens true).control ≠ .stopped := by
    intro next written
    unfold afterData
    by_cases short : tftp.dataSize < dataSizeMax
    · simp [short, Server.writing, runReturns_stopped_iff]
    · simp [short, Server.writing]
  cases processWrite_cases done with
  | requestRepeated isRequest first =>
      refine iff_of_false ?_ (unread (by rw [isRequest]; decide))
      simp [Server.writing]
  | otherPacket notData notRepeated =>
      simp only [Server.writing]
      rw [if_neg (by decide), parseRq_stopped_iff]
      simp [RequestsEmptyFile, Members.onCloseW]
  | duplicate isData old turned =>
      rw [turned]
      exact iff_of_false (served _ _) (unread (by rw [isData]; decide))
  | headless isData new short =>
      refine iff_of_false ?_ (unread (by rw [isData]; decide))
      simp [Server.writing]
  | written isData new whole turned =>
      rw [turned]
      exact iff_of_false (served _ _) (unread (by rw [isData]; decide))

private theorem waitForAck_stopped_iff {tftp : Members Address} {blockNum r : Nat}
    {event : Event Address} {source : Address} {bytes : List UInt8}
    (arrived : event.received = .datagram source bytes) (sends : event.sends = true) :
    (Server.reading (waitForAck tftp blockNum r event)).control = .stopped ↔
      if acknowledges blockNum bytes then blockSize ≤ tftp.dataSize ∧ tftp.filefdR = []
      else 3 ≤ r + 1 := by
  have wrongAck : isAck bytes = false → acknowledges blockNum bytes = false := by
    intro wrong
    simp [acknowledges, wrong]
  have turned := waitForAck_cases tftp blockNum r event
  generalize waitForAck tftp blockNum r event = turn at turned
  cases turned with
  | failed again received =>
      rw [arrived] at received
      contradiction
  | incorrect _ _ received wrong =>
      obtain ⟨rfl, rfl⟩ := Received.datagram.inj (arrived.symm.trans received)
      simp [sends, wrongAck wrong, retry_stopped_iff]
  | outOfOrder _ _ received ack other =>
      obtain ⟨rfl, rfl⟩ := Received.datagram.inj (arrived.symm.trans received)
      simp [sends, other, retry_stopped_iff]
  | complete _ _ received right last =>
      obtain ⟨rfl, rfl⟩ := Received.datagram.inj (arrived.symm.trans received)
      simp [right, reading_stopped_iff, Nat.not_le_of_lt last]
  | goesOn _ _ received right full =>
      obtain ⟨rfl, rfl⟩ := Received.datagram.inj (arrived.symm.trans received)
      simp [sends, right, processRead_stopped_iff, full, Members.setClient]

/-! ### Runs -/

private theorem step_stopped_iff {server next : Server Address} {event : Event Address}
    (succeeds : event.Succeeds) (taken : server.step event = some next) :
    next.control = .stopped ↔ EndsService server event := by
  obtain ⟨sends, source, bytes, arrived⟩ := succeeds
  have same : EndsService server event ↔ _ :=
    ⟨fun ⟨_, _, there, ends⟩ => by
      obtain ⟨rfl, rfl⟩ := Received.datagram.inj (arrived.symm.trans there)
      exact ends, fun ends => ⟨source, bytes, arrived, ends⟩⟩
  rw [same]
  unfold Server.step at taken
  cases control : server.control with
  | listens =>
      simp only [control, arrived, sends, Option.some.injEq] at taken
      rw [← taken, parseRq_stopped_iff]
      simp
  | writes nextBlockNum =>
      simp only [control, arrived, sends, Option.some.injEq] at taken
      rw [← taken, writing_stopped_iff]
  | reads blockNum r =>
      simp only [control, Option.some.injEq] at taken
      rw [← taken, waitForAck_stopped_iff arrived sends]
  | stopped => simp [control] at taken
  | spins => simp [control] at taken
  | faulted => simp [control] at taken

private theorem runReturns_ne_spins (tftp : Members Address) (result : Int) :
    (Server.runReturns tftp result).control ≠ .spins := by
  rcases Server.runReturns_control tftp result with stopped | listens
  · simp [stopped]
  · simp [listens]

private theorem reading_ne_spins (turned : Members Address × ReadTurn) :
    (Server.reading turned).control ≠ .spins := by
  rcases Server.reading_control turned with ⟨blockNum, r, reads⟩ | stopped | listens
  · simp [reads]
  · simp [stopped]
  · simp [listens]

theorem parseRq_spins_iff {tftp : Members Address} {result : Int} {opens sends : Bool} :
    (Server.parseRq tftp result opens sends).control = .spins ↔
      command tftp.buffer ≠ cmdWrq ∧ command tftp.buffer ≠ cmdRrq ∧ 0 < result := by
  unfold Server.parseRq
  by_cases isWrite : command tftp.buffer = cmdWrq
  · cases parsed : parseWrq tftp opens with
    | accepted opened => simp [isWrite]
    | refused answered => simp [isWrite, runReturns_ne_spins]
    | fault => simp [isWrite]
  · rw [if_neg isWrite]
    by_cases isRead : command tftp.buffer = cmdRrq
    · cases parsed : parseRrq tftp opens with
      | accepted opened => simp [isRead, reading_ne_spins]
      | refused answered => simp [isRead, runReturns_ne_spins]
      | fault => simp [isRead]
    · rw [if_neg isRead]
      by_cases returns : result ≤ 0
      · have notPositive : ¬ 0 < result := by omega
        simp [returns, runReturns_ne_spins, notPositive]
      · have positive : 0 < result := by omega
        simp [returns, isWrite, isRead, positive]

private theorem writing_spins_iff {tftp : Members Address} {nextBlockNum : Nat} {opens sends : Bool} :
    (Server.writing (processWrite tftp nextBlockNum) opens sends).control = .spins ↔
      command tftp.buffer ≠ cmdWrq ∧ command tftp.buffer ≠ cmdRrq ∧
        command tftp.buffer ≠ cmdData := by
  generalize done : processWrite tftp nextBlockNum = turned
  obtain ⟨after, turn⟩ := turned
  have ends : ∀ (next : Nat) (written : Members Address),
      (Server.writing (written, afterData tftp next) opens sends).control ≠ .spins := by
    intro next written
    unfold afterData
    by_cases short : tftp.dataSize < dataSizeMax
    · simp [short, Server.writing, runReturns_ne_spins]
    · simp [short, Server.writing]
  cases processWrite_cases done with
  | requestRepeated isRequest first =>
      simp [Server.writing, isRequest]
  | otherPacket notData notRepeated =>
      simp only [Server.writing]
      rw [if_neg (by decide), parseRq_spins_iff]
      simp [Members.onCloseW, notData]
  | duplicate isData old turned =>
      simp [turned, ends, isData]
  | headless isData new short =>
      simp [Server.writing, isData]
  | written isData new whole turned =>
      simp [turned, ends, isData]

/-- The server stays in `parse_rq` for good exactly after an unknown packet in
the middle of an upload. -/
theorem step_spins_iff {server next : Server Address} {event : Event Address}
    (taken : server.step event = some next) :
    next.control = .spins ↔
      ∃ nextBlockNum source bytes, server.control = .writes nextBlockNum ∧
        event.received = .datagram source bytes ∧
          let packet := (server.tftp.receive source bytes).buffer
          command packet ≠ cmdWrq ∧ command packet ≠ cmdRrq ∧ command packet ≠ cmdData := by
  unfold Server.step at taken
  cases control : server.control with
  | listens =>
      cases arrived : event.received with
      | failed again =>
          simp only [control, arrived, Option.some.injEq] at taken
          simp [← taken, runReturns_ne_spins]
      | datagram source bytes =>
          simp only [control, arrived, Option.some.injEq] at taken
          simp [← taken, parseRq_spins_iff]
  | writes nextBlockNum =>
      cases arrived : event.received with
      | failed again =>
          simp only [control, arrived, Option.some.injEq] at taken
          simp [← taken, runReturns_ne_spins]
      | datagram source bytes =>
          simp only [control, arrived, Option.some.injEq] at taken
          rw [← taken]
          simp only [Control.writes.injEq, Received.datagram.injEq]
          rw [writing_spins_iff]
          constructor
          · intro packet
            exact ⟨nextBlockNum, source, bytes, rfl, ⟨rfl, rfl⟩, packet⟩
          · rintro ⟨_, _, _, rfl, ⟨rfl, rfl⟩, packet⟩
            exact packet
  | reads blockNum r =>
      simp only [control, Option.some.injEq] at taken
      simp [← taken, reading_ne_spins]
  | stopped => simp [control] at taken
  | spins => simp [control] at taken
  | faulted => simp [control] at taken

private theorem arrival_succeeds (source : Nat) (bytes : List UInt8) :
    (arrival source bytes).Succeeds :=
  ⟨rfl, source, bytes, rfl⟩

def readRequest (filename : CText) : List UInt8 :=
  netWord cmdRrq ++ (filename ++ (0 :: (text "octet" ++ [0])))

end Tftp

end DlcServer
