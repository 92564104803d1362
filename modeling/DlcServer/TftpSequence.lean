/-
Does `process_write` take the blocks in their order?

A block whose number is below the expected one counts as a duplicate, and any
other is stored.  So the block that is stored next need not be the next one, and
a number that has come round through 65536 is below every expected one.
-/

import DlcServer.Library.History
import DlcServer.TftpWriteLoop

namespace DlcServer

open Library

namespace Tftp

variable {Address : Type}

/-! ### Blocks in their order -/

/-- A turn after the earlier ones: the block handed to `on_write_data` is the one
behind those handed before, and a block is acknowledged when it has been handed
over, in this turn at the latest. -/
structure InPlace (earlier : List WriteEntry) (entry : WriteEntry) : Prop where
  stored : ∀ data ∈ entry.calls.filterMap WriteCall.handed,
    command entry.packet = cmdData ∧ 4 ≤ entry.datagram.length ∧
      number entry.packet = ((blocksHanded earlier).length + 1) % 65536 ∧ data = entry.payload
  acked : ∀ blockNum, .sendAck blockNum ∈ entry.calls → command entry.packet = cmdData →
    ∃ block, 1 ≤ block ∧ block ≤ (blocksHanded (earlier ++ [entry])).length ∧
      blockNum = block % 65536

def WriteLoop.Sequenced (loop : WriteLoop Address) : Prop :=
  EachAfter InPlace loop.log

/-- A DATA packet is an old one, numbered from 1 on, or the expected one. -/
def WriteLoop.InOrder (loop : WriteLoop Address) (event : WriteEvent Address) : Prop :=
  ∀ nextBlockNum source bytes, loop.turn = .again nextBlockNum →
    event.received = .datagram source bytes →
      let tftp := loop.tftp.receive source bytes
      command tftp.buffer = cmdData →
        (1 ≤ number tftp.buffer ∧ number tftp.buffer < nextBlockNum) ∨
          (number tftp.buffer = nextBlockNum ∧ 4 ≤ tftp.dataSize)

/-! ### A datagram in the buffer -/

private theorem receive_split (tftp : Members Address) (source : Address) (bytes : List UInt8) :
    ∃ stale, (tftp.receive source bytes).buffer = bytes.take dataSizeMax ++ stale :=
  ⟨_, rfl⟩

private theorem packetData_receive (tftp : Members Address) (source : Address) (bytes : List UInt8)
    (whole : 4 ≤ (tftp.receive source bytes).dataSize) :
    packetData (tftp.receive source bytes) = (bytes.take dataSizeMax).drop 4 := by
  obtain ⟨stale, split⟩ := receive_split tftp source bytes
  have size : (tftp.receive source bytes).dataSize = (bytes.take dataSizeMax).length := rfl
  rw [size] at whole
  unfold packetData
  rw [split, size, List.drop_append_of_le_length whole]
  exact List.take_left' (List.length_drop)

/-! ### One turn -/

section Places

variable {earlier : List WriteEntry} {datagram packet : List UInt8}

private theorem inPlace_other {calls : List WriteCall} (notData : command packet ≠ cmdData)
    (nothing : calls.filterMap WriteCall.handed = []) :
    InPlace earlier { datagram := datagram, packet := packet, calls := calls } := by
  constructor
  · intro data handed
    rw [nothing] at handed
    cases handed
  · intro blockNum _ isData
    exact absurd isData notData

private theorem inPlace_duplicate_iff (isData : command packet = cmdData)
    (old : number packet ≤ (blocksHanded earlier).length)
    (small : (blocksHanded earlier).length < 65536) :
    InPlace earlier
        { datagram := datagram, packet := packet, calls := [.sendAck (number packet)] } ↔
      1 ≤ number packet := by
  have word : number packet < 65536 := wordAt_lt packet 2
  have handed : blocksHanded (earlier ++ [⟨datagram, packet, [.sendAck (number packet)]⟩]) =
      blocksHanded earlier := by
    rw [blocksHanded_concat]
    simp [List.filterMap_cons, WriteCall.handed]
  constructor
  · intro inPlace
    rcases inPlace.acked (number packet) List.mem_cons_self isData with
      ⟨block, positive, inside, same⟩
    rw [handed] at inside
    rw [Nat.mod_eq_of_lt (Nat.lt_of_le_of_lt inside small)] at same
    omega
  · intro positive
    constructor
    · intro data stored
      cases stored
    · intro blockNum acked _
      cases List.mem_singleton.mp acked
      refine ⟨number packet, positive, ?_, (Nat.mod_eq_of_lt word).symm⟩
      rw [handed]
      exact old

private theorem inPlace_written_iff {len : Int} {stored : Nat} (isData : command packet = cmdData)
    (whole : 4 ≤ datagram.length) (new : (blocksHanded earlier).length + 1 ≤ number packet) :
    InPlace earlier
        { datagram := datagram
          packet := packet
          calls := [.sendAck (number packet), .onWriteData len (datagram.drop 4) stored] } ↔
      number packet = (blocksHanded earlier).length + 1 := by
  have word : number packet < 65536 := wordAt_lt packet 2
  constructor
  · intro inPlace
    have numbered := (inPlace.stored (datagram.drop 4)
      (by simp [List.filterMap_cons, WriteCall.handed])).2.2.1
    dsimp only at numbered
    omega
  · intro next
    constructor
    · intro data handed
      simp only [List.filterMap_cons, WriteCall.handed, List.filterMap_nil,
        List.mem_singleton] at handed
      refine ⟨isData, whole, ?_, handed⟩
      rw [← next, Nat.mod_eq_of_lt word]
    · intro blockNum acked _
      have isNumber : blockNum = number packet := by simpa using acked
      refine ⟨number packet, by omega, ?_, ?_⟩
      · rw [blocksHanded_concat, next]
        simp [List.filterMap_cons, WriteCall.handed]
      · rw [isNumber, Nat.mod_eq_of_lt word]

end Places

private theorem inPlace_iff {loop : WriteLoop Address} {source : Address} {bytes : List UInt8}
    {nextBlockNum room : Nat} {calls : List WriteCall} {turn : WriteTurn}
    (counted : nextBlockNum = (blocksHanded loop.log).length + 1)
    (small : nextBlockNum ≤ 65536)
    (made : writeCalls (loop.tftp.receive source bytes) nextBlockNum room = (calls, turn)) :
    InPlace loop.log
        { datagram := bytes.take dataSizeMax
          packet := (loop.tftp.receive source bytes).buffer
          calls := calls } ↔
      (command (loop.tftp.receive source bytes).buffer = cmdData →
        (1 ≤ number (loop.tftp.receive source bytes).buffer ∧
            number (loop.tftp.receive source bytes).buffer < nextBlockNum) ∨
          (number (loop.tftp.receive source bytes).buffer = nextBlockNum ∧
            4 ≤ (loop.tftp.receive source bytes).dataSize)) := by
  have data_ := @packetData_receive _ loop.tftp source bytes
  have size : (loop.tftp.receive source bytes).dataSize = (bytes.take dataSizeMax).length := rfl
  generalize loop.tftp.receive source bytes = tftp at made data_ size ⊢
  cases writeCalls_cases made with
  | requestRepeated isRequest first =>
      have notData : command tftp.buffer ≠ cmdData := by
        rw [isRequest]
        decide
      exact iff_of_true (inPlace_other notData rfl) (fun isData => absurd isData notData)
  | otherPacket notData notRepeated =>
      exact iff_of_true (inPlace_other notData rfl) (fun isData => absurd isData notData)
  | duplicate isData old turned =>
      rw [inPlace_duplicate_iff isData (by omega) (by omega)]
      constructor
      · intro positive _
        exact .inl ⟨positive, old⟩
      · intro ordered
        rcases ordered isData with ⟨positive, _⟩ | ⟨same, _⟩
        · exact positive
        · omega
  | headless isData new short =>
      refine iff_of_false ?_ ?_
      · intro inPlace
        have whole := (inPlace.stored [] (by simp [List.filterMap_cons, WriteCall.handed])).2.1
        dsimp only at whole
        omega
      · intro ordered
        rcases ordered isData with ⟨_, old⟩ | ⟨_, whole⟩ <;> omega
  | written isData new whole turned =>
      rw [data_ whole, inPlace_written_iff isData (by omega) (by omega)]
      constructor
      · intro next _
        exact .inr ⟨by omega, whole⟩
      · intro ordered
        rcases ordered isData with ⟨_, old⟩ | ⟨same, _⟩ <;> omega

/-! ### Runs -/

private theorem sequenced_step_iff {loop next : WriteLoop Address} {event : WriteEvent Address}
    (counts : loop.Counts) (sequenced : loop.Sequenced)
    (taken : loop.step event = some next) : next.Sequenced ↔ loop.InOrder event := by
  rcases WriteLoop.turn_cases taken with
    ⟨nextBlockNum, turn, ⟨again, failed, rfl⟩ | ⟨source, bytes, calls, arrived, made, logged⟩⟩
  · exact iff_of_true sequenced (WriteLoop.forall_turn_failed failed)
  · obtain ⟨counted, small⟩ := counts nextBlockNum turn
    unfold WriteLoop.Sequenced WriteLoop.InOrder
    rw [WriteLoop.forall_turn_iff turn arrived, logged, eachAfter_concat,
      inPlace_iff counted small made]
    exact and_iff_right sequenced

/-- Along a run of `process_write` every block is in its place exactly when every
DATA packet received is an old one or the expected one. -/
theorem sequenced_along_iff (opened : Members Address) (events : List (WriteEvent Address)) :
    (writeLoop opened).Along (fun _ _ next => next.Sequenced) (writeLoop opened).initial events ↔
      (writeLoop opened).Along (fun loop event _ => loop.InOrder event)
        (writeLoop opened).initial events := by
  refine @Machine.along_iff_of_invariant _ _ (writeLoop opened)
    (fun loop => loop.Counts ∧ loop.Sequenced) _ _ ?_ ?_ _
    ⟨counts_initial opened, eachAfter_nil _⟩ events
  · intro loop event next kept taken
    exact sequenced_step_iff kept.1 kept.2 taken
  · intro loop event next kept taken sequenced
    exact ⟨kept.1.step taken, sequenced⟩

/-! ### A lost block -/

/-- DATA 2 with a single byte, the first block that arrives. -/
def secondBlock : WriteEvent Nat :=
  { received := .datagram 7 [0, 3, 0, 2, 9], room := blockSize }

set_option maxRecDepth 8192 in
theorem gap_is_stored :
    ¬ ∀ (opened : Members Nat) (events : List (WriteEvent Nat)),
      (writeLoop opened).Along (fun _ _ next => next.Sequenced) (writeLoop opened).initial
        events := by
  intro always
  have along := always openedForF [secondBlock]
  have sequenced := (along _ rfl).1
  have first := sequenced [] _ [] rfl
  have numbered := (first.stored [9] List.mem_cons_self).2.2.1
  exact absurd numbered (by decide)

end Tftp

end DlcServer
