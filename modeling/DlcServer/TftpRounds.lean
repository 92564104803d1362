/-
Does the loop of `parse_rq` end?

A round takes the packet in `m_buffer`, and a transfer that it begins receives
further ones.  The loop goes on with a positive result, which `process_write`
returns for a packet that does not belong to its file, and which a round with an
unknown command leaves as it is.
-/

import Mathlib.Order.WellFounded
import DlcServer.TftpClients
import DlcServer.TftpServing

namespace DlcServer

open Library

namespace Tftp

variable {Address : Type}

/-! ### The loop -/

/-- Where `parse_rq` is: at its `switch`, in the `recvfrom` of a transfer, or out of
its loop. -/
inductive Rq (Address : Type)
  | round (tftp : Members Address) (result : Int) (opens sends : Bool)
  | writes (tftp : Members Address) (nextBlockNum : Nat)
  | reads (tftp : Members Address) (blockNum r : Nat)
  | returned (tftp : Members Address) (result : Int)
  /-- A string function or `fwrite` has left the buffer. -/
  | faulted (tftp : Members Address)

namespace Rq

/-- The end of a round. -/
def check (tftp : Members Address) (result : Int) (opens sends : Bool) : Rq Address :=
  if result ≤ 0 then .returned tftp result else .round tftp result opens sends

def writing (turned : Members Address × WriteTurn) (opens sends : Bool) : Rq Address :=
  match turned with
  | (tftp, .again nextBlockNum) => .writes tftp nextBlockNum
  | (tftp, .returned result) => check tftp.onCloseW result opens sends
  | (tftp, .fault) => .faulted tftp

def reading (turned : Members Address × ReadTurn) (opens sends : Bool) : Rq Address :=
  match turned with
  | (tftp, .waits blockNum r) => .reads tftp blockNum r
  | (tftp, .returned result) => check tftp.onCloseR result opens sends

/-- A round, up to the first `recvfrom` of a transfer or to its end. -/
def takeRound (tftp : Members Address) (result : Int) (opens sends : Bool) : Rq Address :=
  if command tftp.buffer = cmdWrq then
    match parseWrq tftp opens with
    | .accepted opened => .writes opened 1
    | .refused answered => check answered 0 opens sends
    | .fault => .faulted tftp
  else if command tftp.buffer = cmdRrq then
    match parseRrq tftp opens with
    | .accepted opened => reading (processRead opened 1 sends) opens sends
    | .refused answered => check answered 0 opens sends
    | .fault => .faulted tftp
  else check tftp result opens sends

def hearWrite (tftp : Members Address) (nextBlockNum : Nat) (event : Event Address) :
    Rq Address :=
  match event.received with
  | .failed _ => writing (tftp, .returned (-1)) event.opens event.sends
  | .datagram source bytes =>
      writing (processWrite (tftp.receive source bytes) nextBlockNum) event.opens event.sends

/-- A `recvfrom` of `wait_for_ack`. -/
def hearRead (tftp : Members Address) (blockNum r : Nat) (event : Event Address) : Rq Address :=
  reading (waitForAck tftp blockNum r event) event.opens event.sends

/-- The loop is left, be it by undefined behaviour. -/
def Ended : Rq Address → Prop
  | .round _ _ _ _ => False
  | .writes _ _ => False
  | .reads _ _ _ => False
  | .returned _ _ => True
  | .faulted _ => True

def AtRound : Rq Address → Prop
  | .round _ _ _ _ => True
  | .writes _ _ => False
  | .reads _ _ _ => False
  | .returned _ _ => False
  | .faulted _ => False

end Rq

/-- A call of `parse_rq` that has called `recvfrom` so many times. -/
structure RqRun (Address : Type) where
  rq : Rq Address
  received : Nat

namespace RqRun

/-- The call of `parse_rq` on the packet in the buffer. -/
def start (tftp : Members Address) (opens sends : Bool) : RqRun Address :=
  { rq := .round tftp (-1) opens sends, received := 0 }

/-- From round to round and from `recvfrom` to `recvfrom`; `supply` is what these
bring. -/
def next (supply : Nat → Event Address) (run : RqRun Address) : RqRun Address :=
  match run.rq with
  | .round tftp result opens sends =>
      { run with rq := .takeRound tftp result opens sends }
  | .writes tftp nextBlockNum =>
      { rq := .hearWrite tftp nextBlockNum (supply run.received)
        received := run.received + 1 }
  | .reads tftp blockNum r =>
      { rq := .hearRead tftp blockNum r (supply run.received)
        received := run.received + 1 }
  | .returned _ _ => run
  | .faulted _ => run

end RqRun

/-! ### The loop and the server -/

/-- The server with `parse_rq` there. -/
def Rq.server : Rq Address → Server Address
  | .round tftp result opens sends => .parseRq tftp result opens sends
  | .writes tftp nextBlockNum => { tftp := tftp, control := .writes nextBlockNum }
  | .reads tftp blockNum r => { tftp := tftp, control := .reads blockNum r }
  | .returned tftp result => .runReturns tftp result
  | .faulted tftp => { tftp := tftp, control := .faulted }

private theorem processRead_result {tftp after : Members Address} {blockNum : Nat} {sends : Bool}
    {result : Int} (done : processRead tftp blockNum sends = (after, .returned result)) :
    result < 0 := by
  unfold processRead at done
  by_cases ended : tftp.filefdR.take blockSize = []
  · simp only [if_pos ended, Prod.mk.injEq, ReadTurn.returned.injEq] at done
    omega
  · cases sends with
    | false =>
        simp only [if_neg ended, sendBlock, Bool.false_eq_true, if_false, Prod.mk.injEq,
          ReadTurn.returned.injEq] at done
        omega
    | true =>
        simp only [if_neg ended, sendBlock, if_true, Prod.mk.injEq, reduceCtorEq, and_false] at done

private theorem retry_result {tftp after : Members Address} {blockNum r : Nat} {sends : Bool}
    {result : Int} (done : retry tftp blockNum r sends = (after, .returned result)) :
    result < 0 := by
  unfold retry at done
  by_cases more : r + 1 < 3
  · cases sends with
    | false =>
        simp only [if_pos more, sendBlock, Bool.false_eq_true, if_false, Prod.mk.injEq,
          ReadTurn.returned.injEq] at done
        omega
    | true => simp [if_pos more, sendBlock] at done
  · simp only [if_neg more, Prod.mk.injEq, ReadTurn.returned.injEq] at done
    omega

private theorem waitForAck_result {tftp after : Members Address} {blockNum r : Nat}
    {event : Event Address} {result : Int}
    (done : waitForAck tftp blockNum r event = (after, .returned result)) : result ≤ 0 := by
  have turned := waitForAck_cases tftp blockNum r event
  rw [done] at turned
  generalize same : (after, ReadTurn.returned result) = turn at turned
  cases turned with
  | failed again received => exact Int.le_of_lt (retry_result same.symm)
  | incorrect source bytes received wrong => exact Int.le_of_lt (retry_result same.symm)
  | outOfOrder source bytes received ack other => exact Int.le_of_lt (retry_result same.symm)
  | complete source bytes received right last =>
      cases same
      exact Int.le_refl 0
  | goesOn source bytes received right full => exact Int.le_of_lt (processRead_result same.symm)

namespace Rq

private theorem reading_returned {turned : Members Address × ReadTurn}
    (ends : ∀ after result, turned = (after, .returned result) → result ≤ 0)
    (opens sends : Bool) :
    (∃ tftp blockNum r, turned = (tftp, .waits blockNum r) ∧
        reading turned opens sends = .reads tftp blockNum r) ∨
      ∃ tftp result, turned = (tftp, .returned result) ∧
        reading turned opens sends = .returned tftp.onCloseR result := by
  rcases turned with ⟨tftp, turn⟩
  cases turn with
  | waits blockNum r => exact .inl ⟨tftp, blockNum, r, rfl, rfl⟩
  | returned result => exact .inr ⟨tftp, result, rfl, if_pos (ends tftp result rfl)⟩

private theorem reading_server {turned : Members Address × ReadTurn}
    (ends : ∀ after result, turned = (after, .returned result) → result ≤ 0)
    (opens sends : Bool) : (reading turned opens sends).server = Server.reading turned := by
  rcases reading_returned ends opens sends with
    ⟨tftp, blockNum, r, rfl, waits⟩ | ⟨tftp, result, rfl, returned⟩
  · rw [waits]
    rfl
  · rw [returned]
    rfl

/-- A round changes nothing of where the server comes to. -/
private theorem takeRound_server (tftp : Members Address) (result : Int) (opens sends : Bool) :
    (takeRound tftp result opens sends).server = .parseRq tftp result opens sends := by
  unfold takeRound
  by_cases isWrite : command tftp.buffer = cmdWrq
  · rw [if_pos isWrite, Server.parseRq, if_pos isWrite]
    cases parseWrq tftp opens with
    | accepted opened => rfl
    | refused answered => rfl
    | fault => rfl
  · rw [if_neg isWrite]
    by_cases isRead : command tftp.buffer = cmdRrq
    · rw [if_pos isRead, Server.parseRq, if_neg isWrite, if_pos isRead]
      cases parseRrq tftp opens with
      | accepted opened =>
          exact reading_server (fun _ _ done => Int.le_of_lt (processRead_result done)) _ _
      | refused answered => rfl
      | fault => rfl
    · rw [if_neg isRead]
      unfold check
      by_cases returns : result ≤ 0
      · rw [if_pos returns, Server.parseRq, if_neg isWrite, if_neg isRead, if_pos returns]
        rfl
      · rw [if_neg returns]
        rfl

private theorem writing_server (turned : Members Address × WriteTurn) (opens sends : Bool) :
    (writing turned opens sends).server = Server.writing turned opens sends := by
  rcases turned with ⟨tftp, turn⟩
  cases turn with
  | again nextBlockNum => rfl
  | fault => rfl
  | returned result =>
      unfold writing Server.writing check
      dsimp only
      by_cases returns : result ≤ 0
      · rw [if_pos returns, if_pos returns]
        rfl
      · rw [if_neg returns, if_neg returns]
        rfl

private theorem hearWrite_server (tftp : Members Address) (nextBlockNum : Nat) (event : Event Address) :
    (Rq.writes tftp nextBlockNum).server.step event =
      some (hearWrite tftp nextBlockNum event).server := by
  unfold hearWrite
  cases received : event.received with
  | failed again => simp [server, Server.step, received, writing, check]
  | datagram source bytes =>
      dsimp only
      rw [writing_server]
      simp [server, Server.step, received]

private theorem hearRead_server (tftp : Members Address) (blockNum r : Nat) (event : Event Address) :
    (Rq.reads tftp blockNum r).server.step event =
      some (hearRead tftp blockNum r event).server := by
  unfold hearRead
  rw [reading_server (fun _ _ done => waitForAck_result done)]
  rfl

end Rq

/-! ### Rounds without a receipt -/

/-- A datagram in the middle of an upload has a command that `process_write` or
`parse_rq` knows. -/
def RqRun.Known (supply : Nat → Event Address) (run : RqRun Address) : Prop :=
  ∀ tftp nextBlockNum source bytes, run.rq = .writes tftp nextBlockNum →
    (supply run.received).received = .datagram source bytes →
      let packet := (tftp.receive source bytes).buffer
      command packet = cmdWrq ∨ command packet = cmdRrq ∨ command packet = cmdData

/-- At a round that nothing ends. -/
def Rq.Stuck : Rq Address → Prop
  | .round tftp result _ _ =>
      command tftp.buffer ≠ cmdWrq ∧ command tftp.buffer ≠ cmdRrq ∧ 0 < result
  | .writes _ _ => False
  | .reads _ _ _ => False
  | .returned _ _ => False
  | .faulted _ => False

namespace Rq

/-- The server `spins` where the loop is stuck. -/
theorem stuck_iff_spins (rq : Rq Address) : rq.Stuck ↔ rq.server.control = .spins := by
  cases rq with
  | round tftp result opens sends => exact parseRq_spins_iff.symm
  | writes tftp nextBlockNum => simp [Stuck, server]
  | reads tftp blockNum r => simp [Stuck, server]
  | returned tftp result =>
      rcases Server.runReturns_control tftp result with stopped | listens
      · simp [Stuck, server, stopped]
      · simp [Stuck, server, listens]
  | faulted tftp => simp [Stuck, server]

private theorem Stuck.atRound {rq : Rq Address} (stuck : rq.Stuck) : rq.AtRound := by
  cases rq with
  | round tftp result opens sends => trivial
  | writes tftp nextBlockNum => exact stuck
  | reads tftp blockNum r => exact stuck
  | returned tftp result => exact stuck
  | faulted tftp => exact stuck

private theorem check_atRound {tftp : Members Address} {result : Int} {opens sends : Bool}
    (again : (check tftp result opens sends).AtRound) : 0 < result := by
  unfold check at again
  by_cases returns : result ≤ 0
  · rw [if_pos returns] at again
    cases again
  · exact Int.not_le.mp returns

private theorem reading_not_atRound {turned : Members Address × ReadTurn}
    (ends : ∀ after result, turned = (after, .returned result) → result ≤ 0)
    (opens sends : Bool) : ¬ (reading turned opens sends).AtRound := by
  intro again
  rcases reading_returned ends opens sends with ⟨_, _, _, _, waits⟩ | ⟨_, _, _, returned⟩
  · rw [waits] at again
    exact again
  · rw [returned] at again
    exact again

private theorem takeRound_atRound {tftp : Members Address} {result : Int} {opens sends : Bool}
    (again : (takeRound tftp result opens sends).AtRound) :
    (Rq.round tftp result opens sends).Stuck := by
  unfold takeRound at again
  by_cases isWrite : command tftp.buffer = cmdWrq
  · rw [if_pos isWrite] at again
    cases parsed : parseWrq tftp opens with
    | accepted opened =>
        rw [parsed] at again
        cases again
    | refused answered =>
        rw [parsed] at again
        exact absurd (check_atRound again) (by decide)
    | fault =>
        rw [parsed] at again
        cases again
  · rw [if_neg isWrite] at again
    by_cases isRead : command tftp.buffer = cmdRrq
    · rw [if_pos isRead] at again
      cases parsed : parseRrq tftp opens with
      | accepted opened =>
          rw [parsed] at again
          have ends : ∀ after result, processRead opened 1 sends = (after, .returned result) →
              result ≤ 0 := fun _ _ done => Int.le_of_lt (processRead_result done)
          exact absurd again (reading_not_atRound ends _ _)
      | refused answered =>
          rw [parsed] at again
          exact absurd (check_atRound again) (by decide)
      | fault =>
          rw [parsed] at again
          cases again
    · rw [if_neg isRead] at again
      exact ⟨isWrite, isRead, check_atRound again⟩

private theorem takeRound_of_stuck {tftp : Members Address} {result : Int} {opens sends : Bool}
    (stuck : (Rq.round tftp result opens sends).Stuck) :
    takeRound tftp result opens sends = .round tftp result opens sends := by
  unfold takeRound check
  rw [if_neg stuck.1, if_neg stuck.2.1, if_neg (Int.not_le.mpr stuck.2.2)]

private theorem hearWrite_atRound {tftp : Members Address} {nextBlockNum : Nat} {event : Event Address}
    (again : (hearWrite tftp nextBlockNum event).AtRound) :
    ∃ source bytes, event.received = .datagram source bytes ∧
      command (tftp.receive source bytes).buffer ≠ cmdData ∧
      hearWrite tftp nextBlockNum event =
        .round (tftp.receive source bytes).onCloseW 1 event.opens event.sends := by
  unfold hearWrite at again ⊢
  cases received : event.received with
  | failed failure =>
      rw [received] at again
      exact absurd (check_atRound again) (by decide)
  | datagram source bytes =>
      rw [received] at again
      dsimp only at again ⊢
      generalize done : processWrite (tftp.receive source bytes) nextBlockNum = turned
        at again ⊢
      rcases turned with ⟨after, turn⟩
      cases turn with
      | again following => cases again
      | fault => cases again
      | returned result =>
          have positive := check_atRound again
          cases processWrite_cases done with
          | otherPacket notData notRepeated => exact ⟨source, bytes, rfl, notData, rfl⟩
          | duplicate isData old turned =>
              rw [(afterData_eq_returned turned).1] at positive
              exact absurd positive (by decide)
          | written isData new whole turned =>
              rw [(afterData_eq_returned turned).1] at positive
              exact absurd positive (by decide)

private theorem hearWrite_of_other {tftp : Members Address} {nextBlockNum : Nat} {event : Event Address}
    {source : Address} {bytes : List UInt8} (arrived : event.received = .datagram source bytes)
    (notWrite : command (tftp.receive source bytes).buffer ≠ cmdWrq)
    (notData : command (tftp.receive source bytes).buffer ≠ cmdData) :
    hearWrite tftp nextBlockNum event =
      .round (tftp.receive source bytes).onCloseW 1 event.opens event.sends := by
  unfold hearWrite processWrite
  rw [arrived]
  dsimp only
  rw [if_pos notData, if_neg (fun repeated => notWrite repeated.1)]
  rfl

/-- How long it may take to the next receipt. -/
def phase : Rq Address → Nat
  | .round _ _ _ _ => 5
  | .writes _ _ => 1
  | .reads _ _ r => 1 + (3 - r)
  | .returned _ _ => 0
  | .faulted _ => 0

private theorem phase_lt_of_not_atRound {rq : Rq Address} (inside : ¬ rq.AtRound) : rq.phase < 5 := by
  cases rq with
  | round tftp result opens sends => exact absurd trivial inside
  | writes tftp nextBlockNum => exact Nat.one_lt_succ_succ _
  | reads tftp blockNum r =>
      change 1 + (3 - r) < 5
      omega
  | returned tftp result => exact Nat.succ_pos _
  | faulted tftp => exact Nat.succ_pos _

private theorem phase_le (rq : Rq Address) : rq.phase ≤ 5 := by
  by_cases at_ : rq.AtRound
  · cases rq with
    | round tftp result opens sends => exact Nat.le_refl 5
    | writes tftp nextBlockNum => cases at_
    | reads tftp blockNum r => cases at_
    | returned tftp result => cases at_
    | faulted tftp => cases at_
  · exact Nat.le_of_lt (phase_lt_of_not_atRound at_)

private theorem phase_hearWrite_failed {tftp : Members Address} {nextBlockNum : Nat}
    {event : Event Address} {again : Bool} (failed : event.received = .failed again) :
    (hearWrite tftp nextBlockNum event).phase = 0 := by
  unfold hearWrite
  rw [failed]
  rfl

private theorem phase_hearRead_failed {tftp : Members Address} {blockNum r : Nat}
    {event : Event Address} {again : Bool} (failed : event.received = .failed again) :
    (hearRead tftp blockNum r event).phase < 1 + (3 - r) := by
  unfold hearRead waitForAck
  rw [failed]
  dsimp only
  unfold retry
  by_cases more : r + 1 < 3
  · rw [if_pos more]
    cases event.sends with
    | false =>
        change 0 < 1 + (3 - r)
        omega
    | true =>
        change 1 + (3 - (r + 1)) < 1 + (3 - r)
        omega
  · rw [if_neg more]
    change 0 < 1 + (3 - r)
    omega

end Rq

/-! ### Runs -/

namespace RqRun

/-- The call after so many rounds and receipts. -/
def after (supply : Nat → Event Address) (first : RqRun Address) (count : Nat) :
    RqRun Address :=
  (next supply)^[count] first

/-- The loop ends, and a datagram is received before each further round. -/
structure Terminates (supply : Nat → Event Address) (first : RqRun Address) : Prop where
  ended : ∃ count, (after supply first count).rq.Ended
  receives : ∀ earlier later, earlier < later → (after supply first earlier).rq.AtRound →
    (after supply first later).rq.AtRound →
      ∃ index source bytes, (after supply first earlier).received ≤ index ∧
        index < (after supply first later).received ∧
        (supply index).received = .datagram source bytes

variable {supply : Nat → Event Address} {first run : RqRun Address}

private theorem after_succ (supply : Nat → Event Address) (first : RqRun Address) (count : Nat) :
    after supply first (count + 1) = (after supply first count).next supply :=
  Function.iterate_succ_apply' _ _ _

private theorem next_server (start : Start Address) {server : Server Address}
    (served : (tftpd start).run server ((List.range run.received).map supply) =
      some run.rq.server) :
    (tftpd start).run server ((List.range (run.next supply).received).map supply) =
      some (run.next supply).rq.server := by
  rcases run with ⟨rq, received⟩
  cases rq with
  | round tftp result opens sends =>
      change _ = some (Rq.takeRound tftp result opens sends).server
      rw [Rq.takeRound_server]
      exact served
  | writes tftp nextBlockNum =>
      change (tftpd start).run server ((List.range (received + 1)).map supply) = _
      rw [List.range_succ, List.map_append]
      exact Machine.run_concat served (Rq.hearWrite_server _ _ _)
  | reads tftp blockNum r =>
      change (tftpd start).run server ((List.range (received + 1)).map supply) = _
      rw [List.range_succ, List.map_append]
      exact Machine.run_concat served (Rq.hearRead_server _ _ _ _)
  | returned tftp result => exact served
  | faulted tftp => exact served

/-- The rounds and receipts of the loop are a run of the server. -/
theorem after_server (start : Start Address) (tftp : Members Address) (opens sends : Bool)
    (supply : Nat → Event Address) (count : Nat) :
    (tftpd start).run (.parseRq tftp (-1) opens sends)
        ((List.range (after supply (.start tftp opens sends) count).received).map supply) =
      some (after supply (.start tftp opens sends) count).rq.server := by
  induction count with
  | zero => rfl
  | succ count ih =>
      rw [after_succ]
      exact next_server start ih

private theorem received_le_next (supply : Nat → Event Address) (run : RqRun Address) :
    run.received ≤ (run.next supply).received := by
  unfold next
  cases run.rq with
  | round tftp result opens sends => exact Nat.le_refl _
  | writes tftp nextBlockNum => exact Nat.le_succ _
  | reads tftp blockNum r => exact Nat.le_succ _
  | returned tftp result => exact Nat.le_refl _
  | faulted tftp => exact Nat.le_refl _

private theorem received_mono {earlier later : Nat} (before : earlier ≤ later) :
    (after supply first earlier).received ≤ (after supply first later).received := by
  induction later, before using Nat.le_induction with
  | base => exact Nat.le_refl _
  | succ later before ih =>
      rw [after_succ]
      exact Nat.le_trans ih (received_le_next _ _)

private theorem next_of_stuck (stuck : run.rq.Stuck) : run.next supply = run := by
  rcases run with ⟨rq, received⟩
  cases rq with
  | round tftp result opens sends =>
      unfold next
      dsimp only
      rw [Rq.takeRound_of_stuck stuck]
  | writes tftp nextBlockNum => cases stuck
  | reads tftp blockNum r => cases stuck
  | returned tftp result => cases stuck
  | faulted tftp => cases stuck

private theorem next_atRound (again : (run.next supply).rq.AtRound) :
    run.rq.Stuck ∨
      ∃ tftp nextBlockNum source bytes, run.rq = .writes tftp nextBlockNum ∧
        (supply run.received).received = .datagram source bytes ∧
        command (tftp.receive source bytes).buffer ≠ cmdData ∧
        run.next supply =
          { rq := .round (tftp.receive source bytes).onCloseW 1 (supply run.received).opens
              (supply run.received).sends
            received := run.received + 1 } := by
  rcases run with ⟨rq, received⟩
  cases rq with
  | round tftp result opens sends => exact .inl (Rq.takeRound_atRound again)
  | writes tftp nextBlockNum =>
      rcases Rq.hearWrite_atRound again with ⟨source, bytes, arrived, notData, same⟩
      refine .inr ⟨tftp, nextBlockNum, source, bytes, rfl, arrived, notData, ?_⟩
      unfold next
      dsimp only
      rw [same]
  | reads tftp blockNum r =>
      exact absurd again (Rq.reading_not_atRound (fun _ _ done => waitForAck_result done) _ _)
  | returned tftp result => cases again
  | faulted tftp => cases again

private theorem not_stuck_next (known : run.Known supply) (free : ¬ run.rq.Stuck) :
    ¬ (run.next supply).rq.Stuck := by
  intro stuck
  rcases next_atRound stuck.atRound with
    before | ⟨tftp, nextBlockNum, source, bytes, writes, arrived, notData, same⟩
  · exact free before
  · rw [same] at stuck
    rcases known tftp nextBlockNum source bytes writes arrived with isWrite | isRead | isData
    · exact stuck.1 isWrite
    · exact stuck.2.1 isRead
    · exact notData isData

private theorem not_stuck_after (known : ∀ count, (after supply first count).Known supply)
    (free : ¬ first.rq.Stuck) (count : Nat) : ¬ (after supply first count).rq.Stuck := by
  induction count with
  | zero => exact free
  | succ count ih =>
      rw [after_succ]
      exact not_stuck_next (known count) ih

/-! ### The measure -/

/-- What is left to receive, and the way to the next receipt. -/
def remaining (limit : Nat) (run : RqRun Address) : Nat :=
  6 * (limit - run.received) + run.rq.phase

private theorem remaining_next_lt {limit : Nat}
    (fails : ∀ later, limit ≤ later → ∃ again, (supply later).received = .failed again)
    (free : ¬ run.rq.Stuck) (goesOn : ¬ run.rq.Ended) :
    (run.next supply).remaining limit < run.remaining limit := by
  rcases run with ⟨rq, received⟩
  cases rq with
  | round tftp result opens sends =>
      have inside : ¬ (Rq.takeRound tftp result opens sends).AtRound :=
        fun again => free (Rq.takeRound_atRound again)
      exact Nat.add_lt_add_left (Rq.phase_lt_of_not_atRound inside) _
  | writes tftp nextBlockNum =>
      have bound := Rq.phase_le (Rq.hearWrite tftp nextBlockNum (supply received))
      change 6 * (limit - (received + 1)) +
        (Rq.hearWrite tftp nextBlockNum (supply received)).phase < 6 * (limit - received) + 1
      by_cases more : received < limit
      · omega
      · rcases fails received (Nat.le_of_not_lt more) with ⟨again, failed⟩
        rw [Rq.phase_hearWrite_failed failed]
        omega
  | reads tftp blockNum r =>
      have bound := Rq.phase_le (Rq.hearRead tftp blockNum r (supply received))
      change 6 * (limit - (received + 1)) + (Rq.hearRead tftp blockNum r (supply received)).phase <
        6 * (limit - received) + (1 + (3 - r))
      by_cases more : received < limit
      · omega
      · rcases fails received (Nat.le_of_not_lt more) with ⟨again, failed⟩
        have nearer := @Rq.phase_hearRead_failed _ tftp blockNum r _ _ failed
        omega
  | returned tftp result => exact absurd trivial goesOn
  | faulted tftp => exact absurd trivial goesOn

private theorem ends_of_not_stuck {limit : Nat}
    (fails : ∀ later, limit ≤ later → ∃ again, (supply later).received = .failed again)
    (free : ∀ count, ¬ (after supply first count).rq.Stuck) :
    ∃ count, (after supply first count).rq.Ended := by
  rcases @WellFounded.not_rel_apply_succ Nat (· < ·) _
    (fun count => (after supply first count).remaining limit) with ⟨count, notLess⟩
  refine ⟨count, Classical.byContradiction fun goesOn => notLess ?_⟩
  rw [after_succ]
  exact remaining_next_lt fails (free count) goesOn

private theorem receives_of_not_stuck (free : ∀ count, ¬ (after supply first count).rq.Stuck)
    {earlier later : Nat} (before : earlier < later)
    (again : (after supply first later).rq.AtRound) :
    ∃ index source bytes, (after supply first earlier).received ≤ index ∧
      index < (after supply first later).received ∧
      (supply index).received = .datagram source bytes := by
  cases later with
  | zero => exact absurd before (Nat.not_lt_zero earlier)
  | succ later =>
      rw [after_succ] at again ⊢
      rcases next_atRound again with
        stuck | ⟨tftp, nextBlockNum, source, bytes, writes, arrived, notData, same⟩
      · exact absurd stuck (free later)
      · refine ⟨_, source, bytes, received_mono (Nat.lt_succ_iff.mp before), ?_, arrived⟩
        rw [same]
        exact Nat.lt_succ_self _

private theorem known_of_terminates (terminates : Terminates supply first) (count : Nat) :
    (after supply first count).Known supply := by
  intro tftp nextBlockNum source bytes writes arrived
  refine Classical.byContradiction fun unknown => ?_
  rcases not_or.mp unknown with ⟨notWrite, rest⟩
  rcases not_or.mp rest with ⟨notRead, notData⟩
  have heard : (after supply first (count + 1)).rq =
      .round (tftp.receive source bytes).onCloseW 1
        (supply (after supply first count).received).opens
        (supply (after supply first count).received).sends := by
    rw [after_succ]
    unfold next
    rw [writes]
    exact Rq.hearWrite_of_other arrived notWrite notData
  have stuck : (after supply first (count + 1)).rq.Stuck := by
    rw [heard]
    exact ⟨notWrite, notRead, by decide⟩
  have same : after supply first (count + 2) = after supply first (count + 1) := by
    rw [after_succ]
    exact next_of_stuck stuck
  have received := terminates.receives (count + 1) (count + 2) (Nat.lt_succ_self _)
    stuck.atRound (by rw [same]; exact stuck.atRound)
  rw [same] at received
  rcases received with ⟨index, _, _, low, high, _⟩
  exact absurd (Nat.lt_of_le_of_lt low high) (Nat.lt_irrefl _)

end RqRun

/-- When the receipts fail at last, the loop of `parse_rq` ends, with a datagram
received before each further round, exactly when every datagram in the middle of
an upload has a known command. -/
theorem parseRq_terminates_iff (tftp : Members Address) (opens sends : Bool)
    (supply : Nat → Event Address)
    (fails : ∃ limit, ∀ later, limit ≤ later →
      ∃ again, (supply later).received = .failed again) :
    RqRun.Terminates supply (.start tftp opens sends) ↔
      ∀ count, (RqRun.after supply (.start tftp opens sends) count).Known supply := by
  constructor
  · intro terminates count
    exact RqRun.known_of_terminates terminates count
  · intro known
    rcases fails with ⟨limit, failed⟩
    have start : ¬ (RqRun.start tftp opens sends).rq.Stuck :=
      fun stuck => absurd stuck.2.2 (by decide)
    have free := RqRun.not_stuck_after known start
    constructor
    · exact RqRun.ends_of_not_stuck failed free
    · intro earlier later before _ again
      exact RqRun.receives_of_not_stuck free before again

/-! ### An acknowledgement in the middle of an upload -/

/-- A write request for the file `f` has been received. -/
def uploadAsked : Members Nat :=
  { client := 7
    buffer := List.replicate dataSizeMax 0
    dataSize := 0
    files := fun _ => none
    filefd := none
    filefdR := []
    fetched := []
    sent := [] : Members Nat }.receive 7 (requestForF.bytes cmdWrq)

/-- `recvfrom` runs into its timeout. -/
def silence : Event Nat :=
  { received := .failed true, opens := true, sends := true }

private theorem fails_of_silence {supply : Nat → Event Nat}
    (silent : ∀ later, supply (later + 1) = silence) :
    ∃ limit, ∀ later, limit ≤ later → ∃ again, (supply later).received = .failed again := by
  refine ⟨1, ?_⟩
  intro later late
  obtain ⟨earlier, rfl⟩ := Nat.exists_eq_add_of_le' late
  exact ⟨true, by rw [silent earlier]; rfl⟩

/-- The first block of a file, and nothing behind it. -/
def firstBlock : Nat → Event Nat
  | 0 => arrival 7 (dataPacket twoBlocks 0)
  | _ + 1 => silence

theorem first_block_terminates :
    RqRun.Terminates firstBlock (.start uploadAsked true true) := by
  have fails := fails_of_silence (show ∀ later, firstBlock (later + 1) = silence from fun _ => rfl)
  refine (parseRq_terminates_iff uploadAsked true true firstBlock fails).mpr ?_
  intro count tftp nextBlockNum source bytes _ arrived
  cases index : (RqRun.after firstBlock (.start uploadAsked true true) count).received with
  | zero =>
      rw [index] at arrived
      cases arrived
      exact .inr (.inr rfl)
  | succ later =>
      rw [index] at arrived
      cases arrived

/-- One ACK packet, and nothing behind it. -/
def strayAck : Nat → Event Nat
  | 0 => arrival 7 (ackPacket 0)
  | _ + 1 => silence

set_option maxRecDepth 8192 in
theorem stray_ack_spins :
    ¬ ∀ (tftp : Members Nat) (opens sends : Bool) (supply : Nat → Event Nat),
      (∃ limit, ∀ later, limit ≤ later → ∃ again, (supply later).received = .failed again) →
        RqRun.Terminates supply (.start tftp opens sends) := by
  intro always
  have fails := fails_of_silence (show ∀ later, strayAck (later + 1) = silence from fun _ => rfl)
  have terminates := always uploadAsked true true strayAck fails
  have writes : ∃ opened, (RqRun.after strayAck (.start uploadAsked true true) 1) =
      { rq := .writes opened 1, received := 0 } := ⟨_, rfl⟩
  rcases writes with ⟨opened, one⟩
  have known := RqRun.known_of_terminates terminates 1 opened 1 7 (ackPacket 0)
  rw [one] at known
  have packet : command (opened.receive 7 (ackPacket 0)).buffer = cmdAck := rfl
  rcases known rfl rfl with isWrite | isRead | isData
  · exact absurd (packet.symm.trans isWrite) (by decide)
  · exact absurd (packet.symm.trans isRead) (by decide)
  · exact absurd (packet.symm.trans isData) (by decide)

end Tftp

end DlcServer
