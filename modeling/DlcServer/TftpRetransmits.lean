/-
Is a block transmitted again as it was transmitted first?

The packet of a block is built in `m_buffer` before the first try.  A reply that
is no ACK packet is answered from the same buffer, and so is a failed `recvfrom`:
what the next try sends begins with the header of that answer.
-/

import DlcServer.TftpReadLoop

namespace DlcServer

open Library

namespace Tftp

variable {Address : Type}

/-! ### Transmissions of a block -/

/-- Every transmission of a block is its DATA packet, whichever try it belongs to. -/
def Faithful (content : List UInt8) (log : List (ReadCall Address)) : Prop :=
  ∀ blockNum packet, .transmitted blockNum packet ∈ log →
    packet = dataPacket content (blockNum - 1)

/-- While a try is left, the reply is an ACK packet, be it of another block. -/
def ReadLoop.CleanReply (loop : ReadLoop Address) (event : Event Address) : Prop :=
  ∀ blockNum r, loop.turn = .waits blockNum r → r + 1 < 3 → event.received.isAck = true

private theorem faithful_nil (content : List UInt8) :
    Faithful content ([] : List (ReadCall Address)) := by
  intro blockNum packet member
  cases member

private theorem faithful_concat {content : List UInt8} {log : List (ReadCall Address)}
    {call : ReadCall Address} :
    Faithful content (log ++ [call]) ↔
      Faithful content log ∧ ∀ blockNum packet, call = .transmitted blockNum packet →
        packet = dataPacket content (blockNum - 1) := by
  unfold Faithful
  constructor
  · intro all
    constructor
    · intro blockNum packet member
      exact all blockNum packet (List.mem_append_left _ member)
    · intro blockNum packet last
      exact all blockNum packet (by simp [last])
  · rintro ⟨earlier, atEnd⟩ blockNum packet member
    rcases List.mem_append.mp member with old | new
    · exact earlier blockNum packet old
    · exact atEnd blockNum packet (List.mem_singleton.mp new).symm

private theorem faithful_heard {content : List UInt8} {log : List (ReadCall Address)}
    (received : Received Address) :
    Faithful content (log ++ [.heard received]) ↔ Faithful content log := by
  rw [faithful_concat]
  exact and_iff_left nofun

/-! ### The packet in the buffer -/

/-- `m_buffer` holds the packet of a block, and the blocks behind it are unread. -/
structure Loaded (content : List UInt8) (tftp : Members Address) (blockNum : Nat) : Prop where
  unread : tftp.filefdR = content.drop (blockNum * blockSize)
  packet : tftp.buffer.take (tftp.dataSize + 4) = dataPacket content (blockNum - 1)

def ReadLoop.Keeps (content : List UInt8) (loop : ReadLoop Address) : Prop :=
  ∀ blockNum r, loop.turn = .waits blockNum r → Loaded content loop.tftp blockNum

theorem Loaded.setClient {content : List UInt8} {tftp : Members Address} {blockNum : Nat}
    (loaded : Loaded content tftp blockNum) (received : Received Address) :
    Loaded content (received.setClient tftp) blockNum := by
  constructor
  · rw [setClient_filefdR]
    exact loaded.unread
  · rw [setClient_buffer, setClient_dataSize]
    exact loaded.packet

private theorem sendError_ne_dataPacket (tftp : Members Address) (code : Nat) (message : CText)
    (content : List UInt8) (index : Nat) :
    (tftp.sendError code message).buffer.take ((tftp.sendError code message).dataSize + 4) ≠
      dataPacket content index := by
  intro same
  have isError : command (tftp.sendError code message).buffer = cmdError :=
    errorPacket_command code message _
  have isData := dataPacket_command content index
  rw [← same, command_take (by omega), isError] at isData
  exact absurd isData (by decide)

namespace ReadLoop

private theorem transmit_faithful {content : List UInt8} {log : List (ReadCall Address)}
    {tftp : Members Address} {blockNum r : Nat} {sends : Bool} :
    Faithful content (transmit log tftp blockNum r sends).log ↔
      Faithful content log ∧
        tftp.buffer.take (tftp.dataSize + 4) = dataPacket content (blockNum - 1) := by
  unfold transmit
  dsimp only
  rw [faithful_concat]
  constructor
  · rintro ⟨earlier, last⟩
    exact ⟨earlier, last _ _ rfl⟩
  · rintro ⟨earlier, packet⟩
    refine ⟨earlier, ?_⟩
    intro number other same
    cases same
    exact packet

private theorem transmit_keeps {content : List UInt8} {log : List (ReadCall Address)}
    {tftp : Members Address} {blockNum r : Nat} {sends : Bool}
    (loaded : Loaded content tftp blockNum) :
    (transmit log tftp blockNum r sends).Keeps content := by
  intro number again waits
  cases sends with
  | false => cases waits
  | true =>
      cases waits
      exact ⟨loaded.unread, loaded.packet⟩

private theorem nextBlock_loads {content : List UInt8} {log : List (ReadCall Address)}
    {tftp : Members Address} {index : Nat} {sends : Bool} (faithful : Faithful content log)
    (unread : tftp.filefdR = content.drop (index * blockSize)) :
    Faithful content (nextBlock log tftp (index + 1) sends).log ∧
      (nextBlock log tftp (index + 1) sends).Keeps content := by
  have data : tftp.filefdR.take blockSize = block blockSize content index := by
    rw [unread]
    rfl
  have read : Faithful content (log ++ [.onReadData (tftp.filefdR.take blockSize)]) :=
    faithful_concat.mpr ⟨faithful, nofun⟩
  unfold nextBlock
  dsimp only
  by_cases ended : tftp.filefdR.take blockSize = []
  · rw [if_pos ended]
    exact ⟨read, nofun⟩
  · rw [if_neg ended]
    have loaded : Loaded content
        { tftp with
          buffer := header cmdData (index + 1) ++ (tftp.filefdR.take blockSize ++
            tftp.buffer.drop (4 + (tftp.filefdR.take blockSize).length))
          dataSize := (tftp.filefdR.take blockSize).length
          filefdR := tftp.filefdR.drop blockSize
          fetched := tftp.fetched ++ tftp.filefdR.take blockSize } (index + 1) := by
      constructor
      · dsimp only
        rw [unread, List.drop_drop, Nat.succ_mul]
      · dsimp only
        rw [data, ← List.append_assoc]
        refine List.take_left' ?_
        rw [List.length_append, header_length, Nat.add_comm]
    exact ⟨transmit_faithful.mpr ⟨read, loaded.packet⟩, transmit_keeps loaded⟩

/-! ### A reply -/

private theorem tryAgain_loaded {content : List UInt8} {log : List (ReadCall Address)}
    {tftp : Members Address} {blockNum r : Nat} {sends : Bool} (faithful : Faithful content log)
    (loaded : Loaded content tftp blockNum) :
    Faithful content (tryAgain log tftp blockNum r sends).log ∧
      (tryAgain log tftp blockNum r sends).Keeps content := by
  unfold tryAgain
  by_cases more : r + 1 < 3
  · rw [if_pos more]
    exact ⟨transmit_faithful.mpr ⟨faithful, loaded.packet⟩, transmit_keeps loaded⟩
  · rw [if_neg more]
    exact ⟨faithful, nofun⟩

private theorem tryAgain_sendError {content : List UInt8} {log : List (ReadCall Address)}
    {tftp : Members Address} {code : Nat} {message : CText} {blockNum r : Nat} {sends : Bool}
    (faithful : Faithful content log) :
    (Faithful content (tryAgain log (tftp.sendError code message) blockNum r sends).log ↔
        ¬ r + 1 < 3) ∧
      (¬ r + 1 < 3 → (tryAgain log (tftp.sendError code message) blockNum r sends).Keeps
        content) := by
  unfold tryAgain
  by_cases more : r + 1 < 3
  · rw [if_pos more]
    refine ⟨iff_of_false ?_ (not_not.mpr more), fun last => absurd more last⟩
    intro again
    exact sendError_ne_dataPacket tftp code message content _ (transmit_faithful.mp again).2
  · rw [if_neg more]
    exact ⟨iff_of_true faithful more, fun _ => nofun⟩

private theorem faithful_step {content : List UInt8} {loop next : ReadLoop Address}
    {event : Event Address} (faithful : Faithful content loop.log) (keeps : loop.Keeps content)
    (taken : loop.step event = some next) :
    (Faithful content next.log ↔ loop.CleanReply event) ∧
      (Faithful content next.log → next.Keeps content) := by
  rcases step_cases taken with ⟨blockNum, r, turn, replied⟩
  have loaded := (keeps blockNum r turn).setClient event.received
  have heard := (faithful_heard event.received).mpr faithful
  have clean : loop.CleanReply event ↔ (r + 1 < 3 → event.received.isAck = true) := by
    constructor
    · intro reply
      exact reply blockNum r turn
    · intro ack number again waits
      cases turn.symm.trans waits
      exact ack
  rw [clean]
  cases replied with
  | incorrect wrong =>
      have answered := @tryAgain_sendError _ content _ (event.received.setClient loop.tftp)
        errNotDefined (text "incorrect ack") blockNum r event.sends heard
      have noAck : (r + 1 < 3 → event.received.isAck = true) ↔ ¬ r + 1 < 3 := by
        simp [wrong]
      rw [noAck]
      exact ⟨answered.1, fun again => answered.2 (answered.1.mp again)⟩
  | outOfOrder ack other =>
      have again := @tryAgain_loaded _ content _ _ blockNum r event.sends heard loaded
      exact ⟨iff_of_true again.1 (fun _ => ack), fun _ => again.2⟩
  | complete ack right last =>
      exact ⟨iff_of_true heard (fun _ => ack), fun _ => nofun⟩
  | goesOn ack right full =>
      have begun := @nextBlock_loads _ content _ _ blockNum event.sends heard loaded.unread
      exact ⟨iff_of_true begun.1 (fun _ => ack), fun _ => begun.2⟩

end ReadLoop

/-! ### Runs -/

/-- Along a run of `process_read` every transmission of a block is its DATA packet
exactly when no reply but an ACK packet is met while a try is left. -/
theorem faithful_along_iff (opened : Members Address) (sends : Bool)
    (events : List (Event Address)) :
    (readLoop opened sends).Along (fun _ _ next => Faithful opened.filefdR next.log)
        (readLoop opened sends).initial events ↔
      (readLoop opened sends).Along (fun loop event _ => loop.CleanReply event)
        (readLoop opened sends).initial events := by
  have start := @ReadLoop.nextBlock_loads _ opened.filefdR [] opened 0 sends (faithful_nil _)
    (by rw [Nat.zero_mul, List.drop_zero])
  refine @Machine.along_iff_of_invariant _ _ (readLoop opened sends)
    (fun loop => Faithful opened.filefdR loop.log ∧ loop.Keeps opened.filefdR) _ _ ?_ ?_ _
    start events
  · intro loop event next kept taken
    exact (ReadLoop.faithful_step kept.1 kept.2 taken).1
  · intro loop event next kept taken faithful
    exact ⟨faithful, (ReadLoop.faithful_step kept.1 kept.2 taken).2 faithful⟩

/-! ### A lost reply -/

/-- `recvfrom` runs into its timeout. -/
def timeout : Event Nat :=
  { received := .failed true, opens := true, sends := true }

set_option maxRecDepth 8192 in
theorem timeout_changes_packet :
    ¬ ∀ (opened : Members Nat) (sends : Bool) (events : List (Event Nat)),
      (readLoop opened sends).Along (fun _ _ next => Faithful opened.filefdR next.log)
        (readLoop opened sends).initial events := by
  intro always
  have along := always openedByte true [timeout]
  have faithful := (along _ rfl).1
  have again := faithful 1 [0, 5, 0, 0, 105] (by decide)
  exact absurd again (by decide)

end Tftp

end DlcServer
