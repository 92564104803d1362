/-
Uploads to a file that cannot take every byte.

`process_write` acknowledges a block before it hands it to `on_write_data`, and
`on_write_data` does not return what `fwrite` has stored.  So neither the client
nor the caller of `process_write` learns that bytes are missing.
-/

import DlcServer.Library.History
import DlcServer.TftpWriteLoop

namespace DlcServer

open Library

namespace Tftp

variable {Address : Type}

/-! ### Acknowledged and stored -/

/-- One of the calls has stored the block it was given. -/
def StoredInFull (calls : List WriteCall) : Prop :=
  ∃ data : List UInt8, .onWriteData data.length data data.length ∈ calls

/-- A block is acknowledged when all its bytes are in the file: it has none, or it
was stored before, in this turn or in an earlier one. -/
def AckedStored (earlier : List WriteEntry) (entry : WriteEntry) : Prop :=
  ∀ before blockNum after, entry.calls = before ++ .sendAck blockNum :: after →
    command entry.packet = cmdData →
      entry.payload = [] ∨ StoredInFull before ∨
        ∃ old ∈ earlier, number old.packet = blockNum ∧ StoredInFull old.calls

/-- The client and the caller are told of no byte that is not in the file, and
`fwrite` is asked for no negative number of them, of which it can store none. -/
structure WriteLoop.Honest (loop : WriteLoop Address) : Prop where
  acked : EachAfter AckedStored loop.log
  returned : loop.turn = .returned 0 → ∀ entry ∈ loop.log, ∀ call ∈ entry.calls, call.Full
  asked : loop.turn ≠ .fault

/-- A DATA packet carries no data, and one that is written is all there up to them. -/
def WriteLoop.Empty (loop : WriteLoop Address) (event : WriteEvent Address) : Prop :=
  ∀ nextBlockNum source bytes, loop.turn = .again nextBlockNum →
    event.received = .datagram source bytes →
      let tftp := loop.tftp.receive source bytes
      command tftp.buffer = cmdData →
        tftp.dataSize ≤ 4 ∧ (nextBlockNum ≤ number tftp.buffer → tftp.dataSize = 4)

/-- While the loop goes on nothing has been handed to `on_write_data`. -/
def WriteLoop.Untouched (loop : WriteLoop Address) : Prop :=
  ∀ nextBlockNum, loop.turn = .again nextBlockNum → blocksHanded loop.log = []

private theorem not_mem_of_untouched {log : List WriteEntry} (untouched : blocksHanded log = [])
    {entry : WriteEntry} (member : entry ∈ log) {len : Int} {data : List UInt8} {stored : Nat} :
    .onWriteData len data stored ∉ entry.calls := by
  intro called
  have handed : data ∈ blocksHanded log :=
    List.mem_flatMap.mpr ⟨entry, member, List.mem_filterMap.mpr ⟨_, called, rfl⟩⟩
  rw [untouched] at handed
  cases handed

private theorem full_of_untouched {log : List WriteEntry} (untouched : blocksHanded log = [])
    {entry : WriteEntry} (member : entry ∈ log) {call : WriteCall}
    (called : call ∈ entry.calls) : call.Full := by
  cases call with
  | sendAck blockNum => trivial
  | onWriteData len data stored => exact absurd called (not_mem_of_untouched untouched member)

/-! ### One turn -/

section Turn

variable {tftp : Members Address} {datagram : List UInt8} {nextBlockNum room : Nat}
  {calls : List WriteCall} {turn : WriteTurn} {log : List WriteEntry}

private theorem ackedStored_iff (untouched : blocksHanded log = [])
    (size : tftp.dataSize = datagram.length)
    (made : writeCalls tftp nextBlockNum room = (calls, turn)) :
    AckedStored log { datagram := datagram, packet := tftp.buffer, calls := calls } ↔
      (command tftp.buffer = cmdData → tftp.dataSize ≤ 4) := by
  constructor
  · intro acked isData
    have first : ∃ blockNum after, calls = .sendAck blockNum :: after := by
      cases writeCalls_cases made with
      | requestRepeated isRequest first => exact ⟨_, _, rfl⟩
      | otherPacket notData notRepeated => exact absurd isData notData
      | duplicate isData old turned => exact ⟨_, _, rfl⟩
      | headless isData new short => exact ⟨_, _, rfl⟩
      | written isData new whole turned => exact ⟨_, _, rfl⟩
    obtain ⟨blockNum, after, split⟩ := first
    rcases acked [] blockNum after split isData with
      none_ | ⟨data, called⟩ | ⟨old, member, _, data, called⟩
    · have short : datagram.length ≤ 4 := List.drop_eq_nil_iff.mp none_
      omega
    · cases called
    · exact absurd called (not_mem_of_untouched untouched member)
  · intro empty before blockNum after _ isData
    have short : datagram.length ≤ 4 := size ▸ empty isData
    exact .inl (List.drop_eq_nil_of_le short)

private theorem fault_iff (made : writeCalls tftp nextBlockNum room = (calls, turn)) :
    turn = .fault ↔ command tftp.buffer = cmdData ∧ nextBlockNum ≤ number tftp.buffer ∧
      tftp.dataSize < 4 := by
  have afterData_ne (expected : Nat) : afterData tftp expected ≠ .fault := by
    unfold afterData
    split
    · exact nofun
    · exact nofun
  cases writeCalls_cases made with
  | requestRepeated isRequest first =>
      refine iff_of_false nofun ?_
      rintro ⟨isData, _⟩
      rw [isRequest] at isData
      exact absurd isData (by decide)
  | otherPacket notData notRepeated => exact iff_of_false nofun (fun both => notData both.1)
  | duplicate isData old turned =>
      exact iff_of_false (turned ▸ afterData_ne _) (fun both => absurd both.2.1 (by omega))
  | headless isData new short => exact iff_of_true rfl ⟨isData, new, short⟩
  | written isData new whole turned =>
      exact iff_of_false (turned ▸ afterData_ne _) (fun both => absurd both.2.2 (by omega))

private theorem full_of_empty
    (empty : command tftp.buffer = cmdData →
      tftp.dataSize ≤ 4 ∧ (nextBlockNum ≤ number tftp.buffer → tftp.dataSize = 4))
    (made : writeCalls tftp nextBlockNum room = (calls, turn)) :
    (∀ call ∈ calls, call.Full) ∧
      (∀ following, turn = .again following → calls.filterMap WriteCall.handed = []) := by
  cases writeCalls_cases made with
  | requestRepeated isRequest first =>
      refine ⟨?_, fun _ _ => rfl⟩
      intro call called
      rw [List.mem_singleton.mp called]
      trivial
  | otherPacket notData notRepeated => exact ⟨nofun, fun _ _ => rfl⟩
  | duplicate isData old turned =>
      refine ⟨?_, fun _ _ => rfl⟩
      intro call called
      rw [List.mem_singleton.mp called]
      trivial
  | headless isData new short =>
      have four := (empty isData).2 new
      omega
  | written isData new whole turned =>
      have four := (empty isData).2 new
      have none_ : packetData tftp = [] := by
        unfold packetData
        rw [four, Nat.sub_self, List.take_zero]
      constructor
      · intro call called
        rcases List.mem_cons.mp called with rfl | second
        · trivial
        · rw [List.mem_singleton.mp second, none_, four]
          exact congrArg Int.ofNat (Nat.min_zero room)
      · intro following again
        rw [again] at turned
        have full := (afterData_eq_again turned).2
        unfold dataSizeMax at full
        omega

end Turn

/-! ### Runs -/

private theorem honest_step_iff {loop next : WriteLoop Address} {event : WriteEvent Address}
    (untouched : loop.Untouched) (honest : loop.Honest)
    (taken : loop.step event = some next) : next.Honest ↔ loop.Empty event := by
  rcases WriteLoop.turn_cases taken with
    ⟨nextBlockNum, turn, ⟨again, failed, rfl⟩ | ⟨source, bytes, calls, arrived, made, logged⟩⟩
  · exact iff_of_true ⟨honest.acked, nofun, nofun⟩ (WriteLoop.forall_turn_failed failed)
  · have none_ := untouched nextBlockNum turn
    have here := @ackedStored_iff _ (loop.tftp.receive source bytes) (bytes.take dataSizeMax)
      nextBlockNum event.room calls next.turn loop.log none_ rfl made
    unfold WriteLoop.Empty
    rw [WriteLoop.forall_turn_iff turn arrived]
    constructor
    · intro after _ isData
      have acked := after.acked
      rw [logged, eachAfter_concat] at acked
      have short := here.mp acked.2 isData
      refine ⟨short, fun new => ?_⟩
      by_contra less
      have size : (loop.tftp.receive source bytes).dataSize ≠ 4 := less
      exact after.asked ((fault_iff made).mpr ⟨isData, new, by omega⟩)
    · intro empty
      constructor
      · rw [logged, eachAfter_concat]
        exact ⟨honest.acked, here.mpr fun isData => (empty isData).1⟩
      · intro _ entry member call called
        rw [logged] at member
        rcases List.mem_append.mp member with old | new
        · exact full_of_untouched none_ old called
        · rw [List.mem_singleton.mp new] at called
          exact (full_of_empty empty made).1 call called
      · intro fault
        obtain ⟨isData, new, short⟩ := (fault_iff made).mp fault
        have four := (empty isData).2 new
        omega

private theorem untouched_step {loop next : WriteLoop Address} {event : WriteEvent Address}
    (untouched : loop.Untouched) (empty : loop.Empty event)
    (taken : loop.step event = some next) : next.Untouched := by
  rcases WriteLoop.turn_cases taken with
    ⟨nextBlockNum, turn, ⟨again, failed, rfl⟩ | ⟨source, bytes, calls, arrived, made, logged⟩⟩
  · intro following waits
    cases waits
  · intro following waits
    have short := empty nextBlockNum source bytes turn arrived
    rw [logged, blocksHanded_concat, untouched nextBlockNum turn, List.nil_append]
    exact (full_of_empty short made).2 following waits

/-- Along a run of `process_write`, however much `fwrite` stores, nothing is
reported that is not stored exactly when no DATA packet carries data, and none that
is written has less than its header. -/
theorem honest_along_iff (opened : Members Address) (events : List (WriteEvent Address)) :
    (writeLoop opened).Along (fun _ _ next => next.Honest) (writeLoop opened).initial events ↔
      (writeLoop opened).Along (fun loop event _ => loop.Empty event)
        (writeLoop opened).initial events := by
  have honest : (writeLoop opened).initial.Honest :=
    { acked := eachAfter_nil _
      returned := nofun
      asked := nofun }
  refine @Machine.along_iff_of_invariant _ _ (writeLoop opened)
    (fun loop => loop.Untouched ∧ loop.Honest) _ _ ?_ ?_ _ ⟨fun _ _ => rfl, honest⟩ events
  · intro loop event next kept taken
    exact honest_step_iff kept.1 kept.2 taken
  · intro loop event next kept taken told
    exact ⟨untouched_step kept.1 ((honest_step_iff kept.1 kept.2 taken).mp told) taken, told⟩

/-! ### A full disk -/

/-- The only block of a file, with no room for its byte. -/
def lostByte : WriteEvent Nat :=
  { received := .datagram 7 [0, 3, 0, 1, 9], room := 0 }

set_option maxRecDepth 8192 in
theorem lost_byte_reported_received :
    ¬ ∀ (opened : Members Nat) (events : List (WriteEvent Nat)),
      (writeLoop opened).Along (fun _ _ next => next.Honest) (writeLoop opened).initial
        events := by
  intro always
  have along := always openedForF [lostByte]
  have honest := (along _ rfl).1
  have full := honest.returned rfl _ List.mem_cons_self (.onWriteData 1 [9] 0)
    (List.mem_cons_of_mem _ List.mem_cons_self)
  exact absurd full (by unfold WriteCall.Full; decide)

end Tftp

end DlcServer
