/-
The lengths `process_write` hands to `on_write_data`.

A length is what the datagram has behind its header, by subtraction, while the
header is read where the buffer has it.  A datagram without a header finds the
one of an earlier packet there, and its length comes out negative.
-/

import DlcServer.Library.DecimalDouble
import DlcServer.TftpWriteLoop

namespace DlcServer

open Library

namespace Tftp

variable {Address : Type}

/-! ### Lengths and their sum -/

/-- Every length of the turn is that of the data received. -/
def WriteEntry.Measured (entry : WriteEntry) : Prop :=
  ∀ len ∈ entry.calls.filterMap WriteCall.len,
    4 ≤ entry.datagram.length ∧ 0 ≤ len ∧ len ≤ blockSize ∧ len = entry.payload.length

/-- The lengths are right, and `total_size` is their sum if an `int` can be. -/
structure WriteLoop.Measured (loop : WriteLoop Address) : Prop where
  lengths : ∀ entry ∈ loop.log, entry.Measured
  total : intMin ≤ (lensHanded loop.log).sum → (lensHanded loop.log).sum ≤ intMax →
    loop.totalSize = (lensHanded loop.log).sum

/-- A datagram that is taken for a new block has a header. -/
def WriteLoop.HasHeader (loop : WriteLoop Address) (event : WriteEvent Address) : Prop :=
  ∀ nextBlockNum source bytes, loop.turn = .again nextBlockNum →
    event.received = .datagram source bytes →
      let tftp := loop.tftp.receive source bytes
      command tftp.buffer = cmdData → nextBlockNum ≤ number tftp.buffer → 4 ≤ tftp.dataSize

/-- `total_size` as it is, whatever the lengths. -/
def WriteLoop.Sums (loop : WriteLoop Address) : Prop :=
  loop.totalSize = Int.bmod (lensHanded loop.log).sum 4294967296

/-! ### The sum -/

private theorem addLen_bmod (sum : Int) (calls : List WriteCall) :
    calls.foldl addLen (Int.bmod sum 4294967296) =
      Int.bmod (sum + (calls.filterMap WriteCall.len).sum) 4294967296 := by
  induction calls generalizing sum with
  | nil => simp
  | cons call more ih =>
      rw [List.foldl_cons]
      cases call with
      | sendAck blockNum =>
          rw [addLen]
          exact ih sum
      | onWriteData len data stored =>
          simp only [addLen, WriteCall.len, List.filterMap_cons, List.sum_cons]
          rw [Int.bmod_add_bmod, ih (sum + len), Int.add_assoc]

theorem WriteLoop.Sums.step {loop next : WriteLoop Address} {event : WriteEvent Address}
    (sums : loop.Sums) (taken : loop.step event = some next) : next.Sums := by
  obtain ⟨expected, _, ⟨again, failed, rfl⟩ | ⟨source, bytes, arrived, rfl⟩⟩ :=
    WriteLoop.step_cases taken
  · exact sums
  · unfold WriteLoop.Sums at sums
    unfold WriteLoop.Sums WriteLoop.take
    dsimp only
    rw [sums, addLen_bmod, lensHanded_concat, List.sum_append]

theorem WriteLoop.Sums.total {loop : WriteLoop Address} (sums : loop.Sums)
    (least : intMin ≤ (lensHanded loop.log).sum) (most : (lensHanded loop.log).sum ≤ intMax) :
    loop.totalSize = (lensHanded loop.log).sum := by
  unfold WriteLoop.Sums at sums
  unfold intMin at least
  unfold intMax at most
  rw [sums]
  refine Int.bmod_eq_of_le ?_ ?_ <;> omega

/-! ### One turn -/

private theorem measured_iff {tftp : Members Address} {datagram : List UInt8} {nextBlockNum room : Nat}
    {calls : List WriteCall} {turn : WriteTurn} (size : tftp.dataSize = datagram.length)
    (limited : tftp.dataSize ≤ dataSizeMax)
    (made : writeCalls tftp nextBlockNum room = (calls, turn)) :
    WriteEntry.Measured { datagram := datagram, packet := tftp.buffer, calls := calls } ↔
      (command tftp.buffer = cmdData → nextBlockNum ≤ number tftp.buffer →
        4 ≤ tftp.dataSize) := by
  unfold WriteEntry.Measured
  cases writeCalls_cases made with
  | requestRepeated isRequest first =>
      refine iff_of_true nofun ?_
      intro isData
      rw [isRequest] at isData
      exact absurd isData (by decide)
  | otherPacket notData notRepeated =>
      exact iff_of_true nofun (fun isData => absurd isData notData)
  | duplicate isData old turned =>
      refine iff_of_true nofun ?_
      intro _ new
      omega
  | headless isData new short =>
      simp only [List.filterMap_cons, WriteCall.len, List.filterMap_nil, List.mem_singleton,
        forall_eq]
      refine iff_of_false ?_ ?_
      · intro measured
        omega
      · intro header
        have whole := header isData new
        omega
  | written isData new whole turned =>
      simp only [List.filterMap_cons, WriteCall.len, List.filterMap_nil, List.mem_singleton,
        forall_eq]
      refine iff_of_true ?_ (fun _ _ => whole)
      have payload : (WriteEntry.mk datagram tftp.buffer
          [.sendAck (number tftp.buffer), .onWriteData (tftp.dataSize - 4) (packetData tftp)
            (min room (packetData tftp).length)]).payload.length = datagram.length - 4 :=
        List.length_drop
      rw [payload]
      unfold dataSizeMax at limited
      unfold blockSize
      refine ⟨by omega, by omega, by omega, by omega⟩

/-! ### Runs -/

private theorem measured_step_iff {loop next : WriteLoop Address} {event : WriteEvent Address}
    (sums : loop.Sums) (measured : loop.Measured) (taken : loop.step event = some next) :
    next.Measured ↔ loop.HasHeader event := by
  have total := (sums.step taken).total
  rcases WriteLoop.turn_cases taken with
    ⟨nextBlockNum, turn, ⟨again, failed, rfl⟩ | ⟨source, bytes, calls, arrived, made, logged⟩⟩
  · exact iff_of_true ⟨measured.lengths, measured.total⟩ (WriteLoop.forall_turn_failed failed)
  · have here := @measured_iff _ (loop.tftp.receive source bytes) (bytes.take dataSizeMax)
      nextBlockNum event.room calls next.turn rfl (receive_limited _ _ _) made
    unfold WriteLoop.HasHeader
    rw [WriteLoop.forall_turn_iff turn arrived]
    constructor
    · intro after
      refine here.mp (after.lengths _ ?_)
      rw [logged]
      exact List.mem_append_right _ List.mem_cons_self
    · intro header
      refine ⟨?_, total⟩
      intro entry member
      rw [logged] at member
      rcases List.mem_append.mp member with old | new
      · exact measured.lengths entry old
      · rw [List.mem_singleton.mp new]
        exact here.mpr header

/-- Along a run of `process_write` the lengths and their sum are right exactly
when no datagram that is taken for a new block is shorter than a header. -/
theorem measured_along_iff (opened : Members Address) (events : List (WriteEvent Address)) :
    (writeLoop opened).Along (fun _ _ next => next.Measured) (writeLoop opened).initial events ↔
      (writeLoop opened).Along (fun loop event _ => loop.HasHeader event)
        (writeLoop opened).initial events := by
  have sums : (writeLoop opened).initial.Sums := Int.zero_bmod.symm
  have measured : (writeLoop opened).initial.Measured :=
    { lengths := fun entry member => nomatch member
      total := fun _ _ => rfl }
  refine @Machine.along_iff_of_invariant _ _ (writeLoop opened)
    (fun loop => loop.Sums ∧ loop.Measured) _ _ ?_ ?_ _ ⟨sums, measured⟩ events
  · intro loop event next kept taken
    exact measured_step_iff kept.1 kept.2 taken
  · intro loop event next kept taken measured
    exact ⟨kept.1.step taken, measured⟩

/-! ### Two bytes behind a request -/

def requestedF : Members Nat :=
  { openedForF with
    buffer := [0, 2, 102, 0] ++ List.replicate 512 0
    dataSize := 10 }

/-- An opcode alone; the number is read from the file name. -/
def opcodeAlone : WriteEvent Nat :=
  { received := .datagram 7 [0, 3], room := blockSize }

set_option maxRecDepth 8192 in
theorem negative_length_handed :
    ¬ ∀ (opened : Members Nat) (events : List (WriteEvent Nat)),
      (writeLoop opened).Along (fun _ _ next => next.Measured) (writeLoop opened).initial
        events := by
  intro always
  have along := always requestedF [opcodeAlone]
  have measured := (along _ rfl).1
  have bounds := measured.lengths _ List.mem_cons_self (-2) List.mem_cons_self
  exact absurd bounds.2.1 (by decide)

end Tftp

end DlcServer
