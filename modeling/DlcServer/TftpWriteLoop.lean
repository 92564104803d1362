/-
The loop of `process_write`, call by call.

Each turn takes one datagram and makes its calls in their order: the
acknowledgement comes first, `on_write_data` behind it.  `fwrite` may store fewer
bytes than it is given, which `on_write_data` keeps to itself.
-/

import DlcServer.TftpSteps

namespace DlcServer

open Library

namespace Tftp

variable {Address : Type}

/-! ### The calls of a turn -/

inductive WriteCall
  | sendAck (blockNum : Nat)
  /-- `on_write_data(&m_buffer[4], len)`, with the bytes there, of which `fwrite`
  stores the first `stored`. -/
  | onWriteData (len : Int) (data : List UInt8) (stored : Nat)
  deriving DecidableEq

/-- A turn of `process_write` with `m_buffer` and `m_data_size` as `recvfrom` has
left them; `room` bytes can be stored. -/
def writeCalls (tftp : Members Address) (nextBlockNum room : Nat) :
    List WriteCall × WriteTurn :=
  let code := command tftp.buffer
  if code ≠ cmdData then
    -- some clients repeat request several times
    if code = cmdWrq ∧ nextBlockNum = 1 then ([.sendAck 0], .again nextBlockNum)
    else ([], .returned 1)
  else
    let blockNum := number tftp.buffer
    let dataSize : Int := tftp.dataSize - 4
    if blockNum < nextBlockNum then ([.sendAck blockNum], afterData tftp nextBlockNum)
    else
      let data := (tftp.buffer.drop 4).take dataSize.toNat
      ([.sendAck blockNum, .onWriteData dataSize data (min room data.length)],
        if dataSize < 0 then .fault else afterData tftp (nextBlockNum + 1))

/-- What a call leaves: a packet at the client, bytes in the file. -/
def Members.perform (tftp : Members Address) : WriteCall → Members Address
  | .sendAck blockNum => tftp.sendAck blockNum
  | .onWriteData _ data stored => tftp.onWriteData (data.take stored)

/-- The length `on_write_data` is called with. -/
def WriteCall.len : WriteCall → Option Int
  | .sendAck _ => none
  | .onWriteData len _ _ => some len

/-- The bytes `on_write_data` is called with. -/
def WriteCall.handed : WriteCall → Option (List UInt8)
  | .sendAck _ => none
  | .onWriteData _ data _ => some data

/-- `fwrite` has stored as much as it was asked to. -/
def WriteCall.Full : WriteCall → Prop
  | .sendAck _ => True
  | .onWriteData len _ stored => (stored : Int) = len

/-- `total_size += data_size`, in an `int`. -/
def addLen (totalSize : Int) (call : WriteCall) : Int :=
  match call.len with
  | none => totalSize
  | some len => Int.bmod (totalSize + len) 4294967296

/-! ### The loop -/

/-- A turn that is over: the datagram `recvfrom` has given, `m_buffer` with it,
and the calls made. -/
structure WriteEntry where
  datagram : List UInt8
  packet : List UInt8
  calls : List WriteCall
  deriving DecidableEq

/-- The data of a DATA packet. -/
def WriteEntry.payload (entry : WriteEntry) : List UInt8 :=
  entry.datagram.drop 4

structure WriteLoop (Address : Type) where
  tftp : Members Address
  turn : WriteTurn
  totalSize : Int
  log : List WriteEntry

/-- The outcome of `recvfrom`, and how much of a block `fwrite` can store. -/
structure WriteEvent (Address : Type) where
  received : Received Address
  room : Nat
  deriving DecidableEq

namespace WriteLoop

/-- A turn on the datagram that `tftp` has received. -/
def take (loop : WriteLoop Address) (tftp : Members Address) (datagram : List UInt8)
    (nextBlockNum room : Nat) : WriteLoop Address :=
  let (calls, turn) := writeCalls tftp nextBlockNum room
  { tftp := calls.foldl Members.perform tftp
    turn := turn
    totalSize := calls.foldl addLen loop.totalSize
    log := loop.log ++ [{ datagram := datagram, packet := tftp.buffer, calls := calls }] }

def step (loop : WriteLoop Address) (event : WriteEvent Address) :
    Option (WriteLoop Address) :=
  match loop.turn with
  | .again nextBlockNum =>
      match event.received with
      | .failed _ => some { loop with turn := .returned (-1) }
      | .datagram source bytes =>
          some (loop.take (loop.tftp.receive source bytes) (bytes.take dataSizeMax) nextBlockNum
            event.room)
  | .returned _ => none
  | .fault => none

end WriteLoop

/-- `process_write`, once `parse_wrq` has opened the file. -/
def writeLoop (opened : Members Address) : Machine (WriteLoop Address) (WriteEvent Address) where
  initial :=
    { tftp := opened
      turn := .again 1
      totalSize := 0
      log := [] }
  step := WriteLoop.step

/-! ### What a turn calls -/

inductive CallsCase (tftp : Members Address) (nextBlockNum room : Nat) :
    List WriteCall → WriteTurn → Prop
  | requestRepeated (isRequest : command tftp.buffer = cmdWrq) (first : nextBlockNum = 1) :
      CallsCase tftp nextBlockNum room [.sendAck 0] (.again nextBlockNum)
  | otherPacket (notData : command tftp.buffer ≠ cmdData)
      (notRepeated : ¬ (command tftp.buffer = cmdWrq ∧ nextBlockNum = 1)) :
      CallsCase tftp nextBlockNum room [] (.returned 1)
  | duplicate {turn : WriteTurn} (isData : command tftp.buffer = cmdData)
      (old : number tftp.buffer < nextBlockNum) (turned : turn = afterData tftp nextBlockNum) :
      CallsCase tftp nextBlockNum room [.sendAck (number tftp.buffer)] turn
  | headless (isData : command tftp.buffer = cmdData)
      (new : nextBlockNum ≤ number tftp.buffer) (short : tftp.dataSize < 4) :
      CallsCase tftp nextBlockNum room
        [.sendAck (number tftp.buffer), .onWriteData (tftp.dataSize - 4) [] 0] .fault
  | written {turn : WriteTurn} (isData : command tftp.buffer = cmdData)
      (new : nextBlockNum ≤ number tftp.buffer) (whole : 4 ≤ tftp.dataSize)
      (turned : turn = afterData tftp (nextBlockNum + 1)) :
      CallsCase tftp nextBlockNum room
        [.sendAck (number tftp.buffer),
          .onWriteData (tftp.dataSize - 4) (packetData tftp)
            (min room (packetData tftp).length)] turn

theorem writeCalls_cases {tftp : Members Address} {nextBlockNum room : Nat}
    {calls : List WriteCall} {turn : WriteTurn}
    (made : writeCalls tftp nextBlockNum room = (calls, turn)) :
    CallsCase tftp nextBlockNum room calls turn := by
  unfold writeCalls at made
  by_cases isData : command tftp.buffer = cmdData
  · simp only [isData, ne_eq, not_true_eq_false, if_false] at made
    by_cases old : number tftp.buffer < nextBlockNum
    · rw [if_pos old] at made
      cases made
      exact .duplicate isData old rfl
    · have new : nextBlockNum ≤ number tftp.buffer := Nat.le_of_not_lt old
      rw [if_neg old] at made
      by_cases short : tftp.dataSize < 4
      · have negative : (tftp.dataSize : Int) - 4 < 0 := by omega
        have none_ : ((tftp.dataSize : Int) - 4).toNat = 0 := by omega
        rw [if_pos negative, none_, List.take_zero] at made
        cases made
        simp only [List.length_nil, Nat.min_zero]
        exact .headless isData new short
      · have notNegative : ¬ (tftp.dataSize : Int) - 4 < 0 := by omega
        have size : ((tftp.dataSize : Int) - 4).toNat = tftp.dataSize - 4 := by omega
        rw [if_neg notNegative, size] at made
        cases made
        exact .written isData new (Nat.le_of_not_lt short) rfl
  · simp only [ne_eq, isData, not_false_eq_true, if_true] at made
    by_cases repeated : command tftp.buffer = cmdWrq ∧ nextBlockNum = 1
    · rw [if_pos repeated] at made
      cases made
      exact .requestRepeated repeated.1 repeated.2
    · rw [if_neg repeated] at made
      cases made
      exact .otherPacket isData repeated

/-! ### The loop and the server -/

private theorem onWriteData_nil (tftp : Members Address) : tftp.onWriteData [] = tftp := by
  obtain ⟨client, buffer, dataSize, files, filefd, filefdR, fetched, sent⟩ := tftp
  cases filefd with
  | none => rfl
  | some filename => simp [Members.onWriteData]

private theorem perform_writeCalls {tftp : Members Address} {nextBlockNum room : Nat}
    (enough : blockSize ≤ room) (limited : tftp.dataSize ≤ dataSizeMax) :
    ((writeCalls tftp nextBlockNum room).1.foldl Members.perform tftp,
        (writeCalls tftp nextBlockNum room).2) = processWrite tftp nextBlockNum := by
  generalize made : writeCalls tftp nextBlockNum room = turned
  obtain ⟨calls, turn⟩ := turned
  unfold processWrite
  cases writeCalls_cases made with
  | requestRepeated isRequest first =>
      simp [isRequest, first, Members.perform, cmdWrq, cmdData]
  | otherPacket notData notRepeated =>
      simp only [notData, notRepeated, ne_eq, not_false_eq_true, if_true, if_false,
        List.foldl_nil]
  | duplicate isData old turned =>
      simp [isData, old, turned, Members.perform]
  | headless isData new short =>
      simp [isData, Nat.not_lt.mpr new, short, Members.perform, onWriteData_nil]
  | written isData new whole turned =>
      have fits : (packetData tftp).length ≤ room := by
        unfold packetData
        rw [List.length_take]
        unfold blockSize at enough
        unfold dataSizeMax at limited
        omega
      simp [isData, Nat.not_lt.mpr new, Nat.not_lt.mpr whole, turned, Members.perform,
        Nat.min_eq_right fits]

theorem receive_limited (tftp : Members Address) (source : Address) (bytes : List UInt8) :
    (tftp.receive source bytes).dataSize ≤ dataSizeMax := by
  unfold Members.receive
  rw [List.length_take]
  exact Nat.min_le_left _ _

/-- A step of the loop receives nothing and ends it, or takes a turn. -/
theorem WriteLoop.step_cases {loop next : WriteLoop Address} {event : WriteEvent Address}
    (taken : loop.step event = some next) :
    ∃ nextBlockNum, loop.turn = .again nextBlockNum ∧
      ((∃ again, event.received = .failed again ∧ next = { loop with turn := .returned (-1) }) ∨
        ∃ source bytes, event.received = .datagram source bytes ∧
          next = loop.take (loop.tftp.receive source bytes) (bytes.take dataSizeMax) nextBlockNum
            event.room) := by
  unfold WriteLoop.step at taken
  cases turn : loop.turn with
  | again nextBlockNum =>
      simp only [turn] at taken
      refine ⟨nextBlockNum, rfl, ?_⟩
      cases received : event.received with
      | failed again =>
          simp only [received, Option.some.injEq] at taken
          exact .inl ⟨again, rfl, taken.symm⟩
      | datagram source bytes =>
          simp only [received, Option.some.injEq] at taken
          exact .inr ⟨source, bytes, rfl, taken.symm⟩
  | returned result => simp [turn] at taken
  | fault => simp [turn] at taken

/-- The same, with the calls of the turn in the log. -/
theorem WriteLoop.turn_cases {loop next : WriteLoop Address} {event : WriteEvent Address}
    (taken : loop.step event = some next) :
    ∃ nextBlockNum, loop.turn = .again nextBlockNum ∧
      ((∃ again, event.received = .failed again ∧ next = { loop with turn := .returned (-1) }) ∨
        ∃ source bytes calls, event.received = .datagram source bytes ∧
          writeCalls (loop.tftp.receive source bytes) nextBlockNum event.room =
            (calls, next.turn) ∧
          next.log = loop.log ++
            [{ datagram := bytes.take dataSizeMax
               packet := (loop.tftp.receive source bytes).buffer
               calls := calls }]) := by
  rcases WriteLoop.step_cases taken with ⟨nextBlockNum, turn, failed | ⟨source, bytes, arrived, rfl⟩⟩
  · exact ⟨nextBlockNum, turn, .inl failed⟩
  · exact ⟨nextBlockNum, turn, .inr ⟨source, bytes, _, arrived, rfl, rfl⟩⟩

section Conditions

variable {loop : WriteLoop Address} {event : WriteEvent Address}
  {holds : Nat → Address → List UInt8 → Prop}

/-- A condition on the datagram of a turn, where there is one. -/
theorem WriteLoop.forall_turn_iff {nextBlockNum : Nat} {source : Address} {bytes : List UInt8}
    (turn : loop.turn = .again nextBlockNum) (arrived : event.received = .datagram source bytes) :
    (∀ expected sender other, loop.turn = .again expected →
        event.received = .datagram sender other → holds expected sender other) ↔
      holds nextBlockNum source bytes := by
  constructor
  · intro all
    exact all nextBlockNum source bytes turn arrived
  · intro here expected sender other waits received
    cases turn.symm.trans waits
    cases arrived.symm.trans received
    exact here

theorem WriteLoop.forall_turn_failed {again : Bool} (failed : event.received = .failed again) :
    ∀ expected sender other, loop.turn = .again expected →
      event.received = .datagram sender other → holds expected sender other := by
  intro expected sender other _ arrived
  cases failed.symm.trans arrived

end Conditions

/-- What the server hears in a turn; `opens` and `sends` are for `parse_rq` behind
the loop. -/
def WriteEvent.served (opens sends : Bool) (event : WriteEvent Address) : Event Address :=
  { received := event.received, opens := opens, sends := sends }

private theorem WriteLoop.step_serves {loop next : WriteLoop Address} {event : WriteEvent Address}
    (enough : blockSize ≤ event.room) (taken : loop.step event = some next)
    (opens sends : Bool) :
    (Server.writing (loop.tftp, loop.turn) opens sends).step (event.served opens sends) =
      some (Server.writing (next.tftp, next.turn) opens sends) := by
  obtain ⟨nextBlockNum, turn, ⟨again, failed, rfl⟩ | ⟨source, bytes, arrived, rfl⟩⟩ :=
    WriteLoop.step_cases taken
  · simp only [turn, Server.step, WriteEvent.served, failed, Server.writing]
    rw [if_pos (by decide)]
  · simp only [turn, Server.writing, Server.step, WriteEvent.served, arrived, WriteLoop.take]
    rw [perform_writeCalls enough (receive_limited _ _ _)]

/-- As long as there is room for a block, the server goes from the opened file on
where the loop goes. -/
theorem writeLoop_serves (start : Start Address) (opened : Members Address) (opens sends : Bool)
    {events : List (WriteEvent Address)} (enough : ∀ event ∈ events, blockSize ≤ event.room)
    {loop : WriteLoop Address}
    (ran : (writeLoop opened).run (writeLoop opened).initial events = some loop) :
    (tftpd start).run { tftp := opened, control := .writes 1 }
        (events.map (WriteEvent.served opens sends)) =
      some (Server.writing (loop.tftp, loop.turn) opens sends) := by
  have follows : ∀ (state : WriteLoop Address) server (event : WriteEvent Address) next,
      server = Server.writing (state.tftp, state.turn) opens sends → blockSize ≤ event.room →
        (writeLoop opened).step state event = some next →
          ∃ after, (tftpd start).step server (event.served opens sends) = some after ∧
            after = Server.writing (next.tftp, next.turn) opens sends := by
    rintro state _ event next rfl room taken
    exact ⟨_, WriteLoop.step_serves room taken opens sends, rfl⟩
  obtain ⟨after, served, rfl⟩ := @Machine.run_simulates _ _ (writeLoop opened) _ _
    (tftpd start) (fun state server => server = Server.writing (state.tftp, state.turn) opens sends)
    (fun event => blockSize ≤ event.room) (WriteEvent.served opens sends) follows events enough
    _ _ { tftp := opened, control := .writes 1 } rfl ran
  exact served

/-! ### The blocks that are handed over -/

/-- The blocks `on_write_data` has been called with, oldest first. -/
def blocksHanded (log : List WriteEntry) : List (List UInt8) :=
  log.flatMap fun entry => entry.calls.filterMap WriteCall.handed

/-- The lengths it has been called with. -/
def lensHanded (log : List WriteEntry) : List Int :=
  log.flatMap fun entry => entry.calls.filterMap WriteCall.len

theorem blocksHanded_concat (log : List WriteEntry) (entry : WriteEntry) :
    blocksHanded (log ++ [entry]) =
      blocksHanded log ++ entry.calls.filterMap WriteCall.handed := by
  simp [blocksHanded]

theorem lensHanded_concat (log : List WriteEntry) (entry : WriteEntry) :
    lensHanded (log ++ [entry]) = lensHanded log ++ entry.calls.filterMap WriteCall.len := by
  simp [lensHanded]

/-- `next_block_num` counts the blocks, and never leaves 16 bits by more than one. -/
def WriteLoop.Counts (loop : WriteLoop Address) : Prop :=
  ∀ nextBlockNum, loop.turn = .again nextBlockNum →
    nextBlockNum = (blocksHanded loop.log).length + 1 ∧ nextBlockNum ≤ 65536

theorem counts_initial (opened : Members Address) : (writeLoop opened).initial.Counts := by
  intro nextBlockNum turn
  cases turn
  exact ⟨rfl, by decide⟩

theorem WriteLoop.Counts.step {loop next : WriteLoop Address} {event : WriteEvent Address}
    (counts : loop.Counts) (taken : loop.step event = some next) : next.Counts := by
  rcases WriteLoop.turn_cases taken with
    ⟨expected, turn, ⟨again, failed, rfl⟩ | ⟨source, bytes, calls, arrived, made, logged⟩⟩
  · intro nextBlockNum ended
    cases ended
  · obtain ⟨counted, small⟩ := counts expected turn
    intro nextBlockNum waits
    rw [waits] at made
    rw [logged, blocksHanded_concat]
    cases writeCalls_cases made with
    | requestRepeated isRequest first =>
        refine ⟨?_, small⟩
        simpa [List.filterMap_cons, WriteCall.handed] using counted
    | duplicate isData old turned =>
        obtain ⟨rfl, _⟩ := afterData_eq_again turned
        refine ⟨?_, small⟩
        simpa [List.filterMap_cons, WriteCall.handed] using counted
    | written isData new whole turned =>
        obtain ⟨rfl, _⟩ := afterData_eq_again turned
        have word := wordAt_lt (loop.tftp.receive source bytes).buffer 2
        unfold number at new
        refine ⟨?_, by omega⟩
        simpa [List.filterMap_cons, WriteCall.handed] using counted

/-! ### The file -/

def WriteCall.kept : WriteCall → List UInt8
  | .sendAck _ => []
  | .onWriteData _ data stored => data.take stored

def bytesStored (log : List WriteEntry) : List UInt8 :=
  log.flatMap fun entry => entry.calls.flatMap WriteCall.kept

/-- The file is open and holds this content. -/
def Members.Holds (tftp : Members Address) (filename : CText) (content : List UInt8) : Prop :=
  tftp.filefd = some filename ∧ tftp.files filename = some content

private theorem holds_performed {tftp : Members Address} {filename : CText} {content : List UInt8}
    (holds : tftp.Holds filename content) (calls : List WriteCall) :
    (calls.foldl Members.perform tftp).Holds filename
      (content ++ calls.flatMap WriteCall.kept) := by
  induction calls generalizing tftp content with
  | nil => simpa using holds
  | cons call more ih =>
      have once : (tftp.perform call).Holds filename (content ++ call.kept) := by
        cases call with
        | sendAck blockNum =>
            rw [WriteCall.kept, List.append_nil]
            exact holds
        | onWriteData len data stored =>
            unfold Members.Holds Members.perform Members.onWriteData
            rw [holds.1]
            refine ⟨rfl, ?_⟩
            simp [holds.2, WriteCall.kept]
      rw [List.foldl_cons, List.flatMap_cons, ← List.append_assoc]
      exact ih once

/-- In every run the file holds what it held and what has been stored since. -/
theorem holds_of_reachable {opened : Members Address} {filename : CText}
    {content : List UInt8} (holds : opened.Holds filename content) {loop : WriteLoop Address}
    (reached : (writeLoop opened).Reachable loop) :
    loop.tftp.Holds filename (content ++ bytesStored loop.log) := by
  refine @Machine.Reaches.invariant _ _ _ _
    (fun loop => loop.tftp.Holds filename (content ++ bytesStored loop.log)) ?_ ?_ _ reached
  · simpa [writeLoop, bytesStored] using holds
  · intro before event after _ held _ taken
    obtain ⟨expected, _, ⟨again, failed, rfl⟩ | ⟨source, bytes, arrived, rfl⟩⟩ :=
      WriteLoop.step_cases taken
    · exact held
    · have received : (before.tftp.receive source bytes).Holds filename
          (content ++ bytesStored before.log) := held
      have performed := holds_performed received
        (writeCalls (before.tftp.receive source bytes) expected event.room).1
      unfold WriteLoop.take
      simpa [bytesStored, List.append_assoc] using performed

/-- A write request for the file `f` has been accepted. -/
def openedForF : Members Nat where
  client := 7
  buffer := List.replicate dataSizeMax 0
  dataSize := 0
  files := Function.update (fun _ => none) (text "f") (some [])
  filefd := some (text "f")
  filefdR := []
  fetched := []
  sent := []

end Tftp

end DlcServer
