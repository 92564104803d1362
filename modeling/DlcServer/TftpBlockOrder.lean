/-
The order in which `process_read` transmits the blocks of a file.

The rounds follow the file, and a round ends when its block is acknowledged or
has been sent three times.  The counter of the rounds grows past 16 bits while
an acknowledgement carries the number modulo 65536.
-/

import DlcServer.Library.History
import DlcServer.TftpReadLoop

namespace DlcServer

open Library

namespace Tftp

variable {Address : Type}

/-! ### Calls so far -/

def ReadCall.reads : ReadCall Address → Bool
  | .onReadData _ => true
  | .transmitted _ _ => false
  | .heard _ => false

def ReadCall.transmits (blockNum : Nat) : ReadCall Address → Bool
  | .onReadData _ => false
  | .transmitted number _ => number == blockNum
  | .heard _ => false

/-- How often `on_read_data` has been called. -/
def blocksRead (log : List (ReadCall Address)) : Nat :=
  log.countP ReadCall.reads

/-- How often a block has been transmitted. -/
def tries (blockNum : Nat) (log : List (ReadCall Address)) : Nat :=
  log.countP (ReadCall.transmits blockNum)

/-- Behind a transmission of the block an ACK packet with its number, as far as 16
bits go, has been received. -/
def AckedAfter (log : List (ReadCall Address)) (blockNum : Nat) : Prop :=
  ∃ front packet between received rest,
    log = front ++ .transmitted blockNum packet :: (between ++ .heard received :: rest) ∧
      received.acknowledges blockNum = true

/-- A call at its place behind the earlier ones: blocks are read in the order of
the file, and what is transmitted is the block read last, for the third time at
most, the one before it being acknowledged. -/
structure InTurn (content : List UInt8) (earlier : List (ReadCall Address))
    (call : ReadCall Address) : Prop where
  read : ∀ data, call = .onReadData data → data = block blockSize content (blocksRead earlier)
  round : ∀ blockNum packet, call = .transmitted blockNum packet →
    1 ≤ blockNum ∧ blockNum = blocksRead earlier ∧
      ∀ number other, .transmitted number other ∈ earlier → number ≤ blockNum
  thrice : ∀ blockNum packet, call = .transmitted blockNum packet → tries blockNum earlier < 3
  acked : ∀ previous packet, call = .transmitted (previous + 1) packet →
    previous = 0 ∨ AckedAfter earlier previous

/-- The short block that ends the file has been acknowledged. -/
def Completed (content : List UInt8) (log : List (ReadCall Address)) : Prop :=
  ∃ index, AckedAfter log (index + 1) ∧ index + 1 = blockCount blockSize content ∧
    (block blockSize content index).length < blockSize

private theorem blocksRead_concat (log : List (ReadCall Address)) (call : ReadCall Address) :
    blocksRead (log ++ [call]) = blocksRead log + if call.reads then 1 else 0 := by
  simp [blocksRead, List.countP_append, List.countP_singleton]

private theorem tries_concat (blockNum : Nat) (log : List (ReadCall Address))
    (call : ReadCall Address) :
    tries blockNum (log ++ [call]) =
      tries blockNum log + if call.transmits blockNum then 1 else 0 := by
  simp [tries, List.countP_append, List.countP_singleton]

private theorem tries_eq_zero {blockNum : Nat} {log : List (ReadCall Address)}
    (older : ∀ number packet, .transmitted number packet ∈ log → number ≤ blockNum) :
    tries (blockNum + 1) log = 0 := by
  refine List.countP_eq_zero.mpr ?_
  intro call member transmits
  cases call with
  | onReadData data => cases transmits
  | transmitted number packet =>
      have same : number = blockNum + 1 := beq_iff_eq.mp transmits
      have small := older number packet member
      omega
  | heard received => cases transmits

private theorem mem_transmitted_concat {log : List (ReadCall Address)} {call : ReadCall Address}
    {number : Nat} {packet : List UInt8} (quiet : call.transmits number = false)
    (member : .transmitted number packet ∈ log ++ [call]) :
    .transmitted number packet ∈ log := by
  rcases List.mem_append.mp member with old | new
  · exact old
  · have same := List.mem_singleton.mp new
    subst same
    simp [ReadCall.transmits] at quiet

theorem AckedAfter.append {log : List (ReadCall Address)} {blockNum : Nat}
    (acked : AckedAfter log blockNum) (more : List (ReadCall Address)) :
    AckedAfter (log ++ more) blockNum := by
  rcases acked with ⟨front, packet, between, received, rest, split, right⟩
  refine ⟨front, packet, between, received, rest ++ more, ?_, right⟩
  rw [split]
  simp only [List.append_assoc, List.cons_append]

private theorem ackedAfter_heard {log : List (ReadCall Address)} {blockNum : Nat}
    {received : Received Address} (tried : 0 < tries blockNum log)
    (right : received.acknowledges blockNum = true) :
    AckedAfter (log ++ [.heard received]) blockNum := by
  rcases List.countP_pos_iff.mp tried with ⟨call, member, transmits⟩
  cases call with
  | onReadData data => cases transmits
  | transmitted number packet =>
      have same : number = blockNum := beq_iff_eq.mp transmits
      subst same
      rcases List.append_of_mem member with ⟨front, between, split⟩
      refine ⟨front, packet, between, received, [], ?_, right⟩
      rw [split]
      simp only [List.append_assoc, List.cons_append]
  | heard other => cases transmits

/-! ### A round -/

/-- Behind `r` transmissions in the round of a block. -/
structure InRound (content : List UInt8) (log : List (ReadCall Address))
    (tftp : Members Address) (blockNum r : Nat) : Prop where
  ordered : EachAfter (InTurn content) log
  reads : blocksRead log = blockNum
  positive : 1 ≤ blockNum
  inside : blockNum ≤ blockCount blockSize content
  size : tftp.dataSize = (block blockSize content (blockNum - 1)).length
  unread : tftp.filefdR = content.drop (blockNum * blockSize)
  tried : tries blockNum log = r
  newest : ∀ number packet, .transmitted number packet ∈ log → number ≤ blockNum
  acked : ∀ previous, blockNum = previous + 1 → previous = 0 ∨ AckedAfter log previous

structure ReadLoop.Progress (content : List UInt8) (loop : ReadLoop Address) : Prop where
  ordered : EachAfter (InTurn content) loop.log
  waits : ∀ blockNum r, loop.turn = .waits blockNum r →
    r < 3 ∧ InRound content loop.log loop.tftp blockNum (r + 1)
  result : ∀ result, loop.turn = .returned result →
    (result = 0 ∧ Completed content loop.log) ∨ result < 0

namespace InRound

variable {content : List UInt8} {log : List (ReadCall Address)} {tftp other : Members Address}
  {blockNum r : Nat}

private theorem of_same (round : InRound content log tftp blockNum r)
    (size : other.dataSize = tftp.dataSize) (unread : other.filefdR = tftp.filefdR) :
    InRound content log other blockNum r :=
  { round with
    size := size.trans round.size
    unread := unread.trans round.unread }

theorem heard (round : InRound content log tftp blockNum r) (received : Received Address) :
    InRound content (log ++ [.heard received]) (received.setClient tftp) blockNum r := by
  constructor
  · exact eachAfter_concat.mpr ⟨round.ordered, nofun, nofun, nofun, nofun⟩
  · rw [blocksRead_concat]
    exact round.reads
  · exact round.positive
  · exact round.inside
  · rw [setClient_dataSize]
    exact round.size
  · rw [setClient_filefdR]
    exact round.unread
  · rw [tries_concat]
    exact round.tried
  · intro number packet member
    exact round.newest number packet (mem_transmitted_concat rfl member)
  · intro previous follows
    rcases round.acked previous follows with first | acked
    · exact .inl first
    · exact .inr (acked.append _)

/-- A transmission while fewer than three have been made. -/
theorem transmitted (round : InRound content log tftp blockNum r) (few : r < 3)
    (packet : List UInt8) :
    InRound content (log ++ [.transmitted blockNum packet]) (tftp.sendto packet) blockNum
      (r + 1) := by
  have inTurn : InTurn content log (.transmitted blockNum packet) := by
    constructor
    · intro data read
      cases read
    · intro number other same
      cases same
      exact ⟨round.positive, round.reads.symm, round.newest⟩
    · intro number other same
      cases same
      rw [round.tried]
      exact few
    · intro previous other same
      cases same
      exact round.acked previous rfl
  constructor
  · exact eachAfter_concat.mpr ⟨round.ordered, inTurn⟩
  · rw [blocksRead_concat]
    exact round.reads
  · exact round.positive
  · exact round.inside
  · exact round.size
  · exact round.unread
  · rw [tries_concat, round.tried]
    simp [ReadCall.transmits]
  · intro number other member
    rcases List.mem_append.mp member with old | new
    · exact round.newest number other old
    · cases List.mem_singleton.mp new
      exact Nat.le_refl _
  · intro previous follows
    rcases round.acked previous follows with first | acked
    · exact .inl first
    · exact .inr (acked.append _)

private theorem progress_of_failed (ordered : EachAfter (InTurn content) log) :
    ReadLoop.Progress content { tftp := tftp, turn := .returned (-1), log := log } := by
  constructor
  · exact ordered
  · intro blockNum r waits
    cases waits
  · intro result returned
    cases returned
    exact .inr (by decide)

theorem transmit (round : InRound content log tftp blockNum r) (few : r < 3) (sends : Bool) :
    (ReadLoop.transmit log tftp blockNum r sends).Progress content := by
  have later := round.transmitted few (tftp.buffer.take (tftp.dataSize + 4))
  cases sends with
  | false => exact progress_of_failed later.ordered
  | true =>
      constructor
      · exact later.ordered
      · intro number again waits
        cases waits
        exact ⟨few, later⟩
      · intro result returned
        cases returned

theorem tryAgain (round : InRound content log tftp blockNum (r + 1)) (sends : Bool) :
    (ReadLoop.tryAgain log tftp blockNum r sends).Progress content := by
  unfold ReadLoop.tryAgain
  by_cases more : r + 1 < 3
  · rw [if_pos more]
    exact round.transmit more sends
  · rw [if_neg more]
    exact progress_of_failed round.ordered

end InRound

/-! ### From round to round -/

private theorem block_ne_nil_inside {content : List UInt8} {index : Nat}
    (some_ : block blockSize content index ≠ []) : index + 1 ≤ blockCount blockSize content := by
  have positive := List.length_pos_iff.mpr some_
  rw [block_length] at positive
  refine Nat.succ_le_succ ((Nat.le_div_iff_mul_le (by decide)).mpr ?_)
  omega

private theorem ReadLoop.nextBlock_progress {content : List UInt8} {log : List (ReadCall Address)}
    {tftp : Members Address} {index : Nat} (ordered : EachAfter (InTurn content) log)
    (reads : blocksRead log = index)
    (unread : tftp.filefdR = content.drop (index * blockSize))
    (newest : ∀ number packet, .transmitted number packet ∈ log → number ≤ index)
    (acked : index = 0 ∨ AckedAfter log index) (sends : Bool) :
    (nextBlock log tftp (index + 1) sends).Progress content := by
  have data : tftp.filefdR.take blockSize = block blockSize content index := by
    rw [unread]
    rfl
  have fetched : EachAfter (InTurn content) (log ++ [.onReadData (tftp.filefdR.take blockSize)]) := by
    refine eachAfter_concat.mpr ⟨ordered, ?_, nofun, nofun, nofun⟩
    intro read same
    cases same
    rw [data, reads]
  unfold nextBlock
  dsimp only
  by_cases ended : tftp.filefdR.take blockSize = []
  · rw [if_pos ended]
    exact InRound.progress_of_failed fetched
  · rw [if_neg ended]
    refine InRound.transmit ?_ (by decide) sends
    constructor
    · exact fetched
    · rw [blocksRead_concat, reads]
      rfl
    · exact Nat.succ_pos index
    · rw [data] at ended
      exact block_ne_nil_inside ended
    · dsimp only
      rw [data, Nat.add_sub_cancel]
    · dsimp only
      rw [unread, List.drop_drop, Nat.succ_mul]
    · rw [tries_concat, tries_eq_zero newest]
      rfl
    · intro number packet member
      exact Nat.le_succ_of_le (newest number packet (mem_transmitted_concat rfl member))
    · intro previous follows
      cases Nat.succ.inj follows
      rcases acked with first | acked
      · exact .inl first
      · exact .inr (acked.append _)

theorem ReadLoop.Progress.step {content : List UInt8} {loop next : ReadLoop Address}
    {event : Event Address} (progress : loop.Progress content)
    (taken : loop.step event = some next) : next.Progress content := by
  rcases ReadLoop.step_cases taken with ⟨blockNum, r, turn, replied⟩
  have round := (progress.waits blockNum r turn).2
  have heard := round.heard event.received
  cases replied with
  | incorrect wrong =>
      have answered := @InRound.of_same _ _ _ _ ((event.received.setClient loop.tftp).sendError
        errNotDefined (text "incorrect ack")) _ _ heard rfl rfl
      exact answered.tryAgain event.sends
  | outOfOrder ack other => exact heard.tryAgain event.sends
  | complete ack right last =>
      have tried : 0 < tries blockNum loop.log := by
        rw [round.tried]
        exact Nat.succ_pos r
      have acked := ackedAfter_heard tried right
      rw [setClient_dataSize, round.size] at last
      rcases Nat.exists_eq_add_of_le' round.positive with ⟨index, rfl⟩
      have ends := (block_length_lt_iff (by decide) round.inside).mp last
      constructor
      · exact heard.ordered
      · intro number again waits
        cases waits
      · intro result returned
        cases returned
        exact .inl ⟨rfl, index, acked, ends, last⟩
  | goesOn ack right full =>
      have tried : 0 < tries blockNum loop.log := by
        rw [round.tried]
        exact Nat.succ_pos r
      exact ReadLoop.nextBlock_progress heard.ordered heard.reads heard.unread heard.newest
        (.inr (ackedAfter_heard tried right)) event.sends

private theorem progress_of_reachable {opened : Members Address} {sends : Bool}
    {loop : ReadLoop Address} (reached : (readLoop opened sends).Reachable loop) :
    loop.Progress opened.filefdR := by
  induction reached with
  | initial =>
      have unread : opened.filefdR = opened.filefdR.drop (0 * blockSize) := by
        rw [Nat.zero_mul, List.drop_zero]
      exact ReadLoop.nextBlock_progress (eachAfter_nil _) rfl unread nofun (.inl rfl) sends
  | step earlier allowed taken ih => exact ih.step taken

/-- In every run of `process_read` each call is made in its turn, and the result
is 0 only behind the acknowledgement of the last block, else negative. -/
theorem readLoop_inTurn (opened : Members Address) (sends : Bool) (loop : ReadLoop Address)
    (reached : (readLoop opened sends).Reachable loop) :
    EachAfter (InTurn opened.filefdR) loop.log ∧
      ∀ result, loop.turn = .returned result →
        (result = 0 ∧ Completed opened.filefdR loop.log) ∨ result < 0 := by
  have progress := progress_of_reachable reached
  exact ⟨progress.ordered, progress.result⟩

def openedBlocks : Members Nat :=
  { openedByte with filefdR := twoBlocks }

/-- A timeout, and the first acknowledgement twice. -/
def repeatedAck : List (Event Nat) :=
  [{ received := .failed true, opens := true, sends := true }, arrival 7 (ackPacket 1),
    arrival 7 (ackPacket 1), arrival 7 (ackPacket 2)]

set_option maxRecDepth 8192 in
theorem blocks_acknowledged :
    ∃ loop, (readLoop openedBlocks true).run (readLoop openedBlocks true).initial
        repeatedAck = some loop ∧ loop.turn = .returned 0 ∧
      EachAfter (InTurn twoBlocks) loop.log ∧
      ∀ result, loop.turn = .returned result →
        (result = 0 ∧ Completed twoBlocks loop.log) ∨ result < 0 := by
  have ran : ∃ loop, (readLoop openedBlocks true).run (readLoop openedBlocks true).initial
      repeatedAck = some loop ∧ loop.turn = .returned 0 := ⟨_, rfl, rfl⟩
  rcases ran with ⟨loop, reached, returned⟩
  exact ⟨loop, reached, returned, readLoop_inTurn openedBlocks true loop (.of_run reached)⟩

end Tftp

end DlcServer
