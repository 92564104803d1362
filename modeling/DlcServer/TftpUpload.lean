/-
A file written to the TFTP server across a network that loses, repeats and delays.

Everything the client and the server have sent stays on record, and a move
delivers a copy of any entry: what is never delivered is lost, what is delivered
twice is repeated, what is delivered late is delayed.  The client sends its
request, then each block until it is acknowledged.
-/

import DlcServer.TftpClients
import DlcServer.TftpSteps

namespace DlcServer

open Library

namespace Tftp

variable {Address : Type}

/-! ### The client and the network -/

inductive Phase
  | requests
  | sends (index : Nat)
  | done
  deriving DecidableEq, Repr

structure Upload (Address : Type) where
  server : Server Address
  phase : Phase
  /-- The datagrams of the client, oldest first. -/
  posted : List (List UInt8)

inductive UploadMove
  /-- The client sends what it is at, for the first time or again. -/
  | post
  /-- A copy of the datagram at `index` reaches the server. -/
  | deliver (index : Nat) (opens : Bool)
  /-- A `recvfrom` of the server fails or times out. -/
  | fail (again : Bool)
  /-- A copy of the packet at `index` reaches the client. -/
  | answer (index : Nat)
  deriving DecidableEq, Repr

/-- One client with its address, its write request and its file. -/
structure Uploader (Address : Type) where
  address : Address
  request : Request
  file : List UInt8

namespace Uploader

variable (uploader : Uploader Address)

def blocks : Nat :=
  blockCount blockSize uploader.file

def datagram : Phase → Option (List UInt8)
  | .requests => some (uploader.request.bytes cmdWrq)
  | .sends index => some (dataPacket uploader.file index)
  | .done => none

/-- The request is answered by an acknowledgement of 0 or by the option packet, a
block by an acknowledgement of its number. -/
def hears (phase : Phase) (packet : List UInt8) : Phase :=
  match phase with
  | .requests =>
      if (command packet = cmdAck ∧ number packet = 0) ∨ packet = blksizePacket then .sends 0
      else .requests
  | .sends index =>
      if command packet = cmdAck ∧ number packet = (index + 1) % 65536 then
        if index + 1 = uploader.blocks then .done else .sends (index + 1)
      else .sends index
  | .done => .done

def arrival (bytes : List UInt8) (opens : Bool) : Event Address where
  received := .datagram uploader.address bytes
  opens := opens
  sends := true

def step (state : Upload Address) : UploadMove → Option (Upload Address)
  | .post => do
      let bytes ← uploader.datagram state.phase
      some { state with posted := state.posted ++ [bytes] }
  | .deliver index opens => do
      let bytes ← state.posted[index]?
      let server ← state.server.step (uploader.arrival bytes opens)
      some { state with server := server }
  | .fail again => do
      let server ← state.server.step { received := .failed again, opens := true, sends := true }
      some { state with server := server }
  | .answer index => do
      let packet ← state.server.tftp.sent[index]?
      some { state with phase := uploader.hears state.phase packet.2 }

/-- The client beside a server that has just been started. -/
def upload (start : Start Address) : Machine (Upload Address) UploadMove where
  initial :=
    { server := (tftpd start).initial
      phase := .requests
      posted := [] }
  step := uploader.step

end Uploader

/-! ### Blocks that run ahead -/

/-- The place of a block by its number, which is 0 for the 65536th. -/
def place (number : Nat) : Nat :=
  if number = 0 then 65536 else number

/-- No block is received in `process_write` ahead of the one it expects. -/
def NotAhead (state : Upload Address) : UploadMove → Prop
  | .deliver index _ => ∀ bytes nextBlockNum, state.posted[index]? = some bytes →
      state.server.control = .writes nextBlockNum → command bytes = cmdData →
        place (number bytes) ≤ nextBlockNum
  | .post => True
  | .fail _ => True
  | .answer _ => True

/-! ### A block in the buffer -/

theorem dataPacket_received {tftp : Members Address} {source : Address} (file : List UInt8)
    (index : Nat) :
    command (tftp.receive source (dataPacket file index)).buffer = cmdData ∧
      number (tftp.receive source (dataPacket file index)).buffer = (index + 1) % 65536 ∧
        packetData (tftp.receive source (dataPacket file index)) =
          block blockSize file index := by
  have fits := dataPacket_length_le file index
  unfold packetData
  rw [receive_buffer fits, receive_dataSize fits, dataPacket_length, dataPacket]
  refine ⟨?_, ?_, ?_⟩
  · rw [List.append_assoc, command_header]
    rfl
  · rw [List.append_assoc, number_header]
  · generalize tftp.buffer.drop _ = stale
    have behind : (header cmdData (index + 1) ++ block blockSize file index ++ stale).drop 4 =
        block blockSize file index ++ stale := rfl
    rw [behind]
    exact List.take_left' (by omega)

theorem onWriteData_files {tftp : Members Address} {filename : CText} {content : List UInt8}
    (opened : tftp.filefd = some filename) (stored : tftp.files filename = some content)
    (data : List UInt8) :
    (tftp.onWriteData data).filefd = some filename ∧
      (tftp.onWriteData data).files filename = some (content ++ data) := by
  unfold Members.onWriteData
  simp [opened, stored]

/-! ### The file while it is written -/

namespace Uploader

variable {uploader : Uploader Address}

/-- A datagram the client may have sent. -/
def Sends (uploader : Uploader Address) (bytes : List UInt8) : Prop :=
  bytes = uploader.request.bytes cmdWrq ∨
    ∃ index < uploader.blocks, bytes = dataPacket uploader.file index

/-- The numbers reach for the file, whose 65536th block is empty at most. -/
def Numbered (uploader : Uploader Address) : Prop :=
  uploader.file.length ≤ 65535 * blockSize

/-- The file holds what the first `count` blocks hold. -/
structure Holds (uploader : Uploader Address) (count : Nat) (content : List UInt8) : Prop where
  bounded : content.length ≤ count * blockSize
  exact : uploader.Numbered → content = uploader.file.take (count * blockSize)

/-- The file is open under the name of the request and `process_write` has taken
`count` blocks for it. -/
structure Writes (uploader : Uploader Address) (tftp : Members Address) (count : Nat) :
    Prop where
  opened : tftp.filefd = some uploader.request.filename
  small : count ≤ 65535
  inside : uploader.Numbered → count < uploader.blocks
  stored : ∃ content, tftp.files uploader.request.filename = some content ∧
    uploader.Holds count content

private theorem blocks_le (numbered : uploader.Numbered) : uploader.blocks ≤ 65536 := by
  have divided : uploader.file.length / blockSize ≤ 65535 := by
    rw [← Nat.mul_div_cancel 65535 (show 0 < blockSize by decide)]
    exact Nat.div_le_div_right numbered
  unfold blocks blockCount
  omega

theorem block_short_iff {index : Nat} (inside : index < uploader.blocks) :
    (block blockSize uploader.file index).length < blockSize ↔ index + 1 = uploader.blocks :=
  block_length_lt_iff (by decide) inside

theorem Holds.append {count index : Nat} {content : List UInt8}
    (holds : uploader.Holds count content) (expected : uploader.Numbered → index = count) :
    uploader.Holds (count + 1) (content ++ block blockSize uploader.file index) := by
  constructor
  · have added := block_length_le blockSize uploader.file index
    have before := holds.bounded
    rw [List.length_append, Nat.succ_mul]
    omega
  · intro numbered
    rw [holds.exact numbered, expected numbered, take_append_block]

private theorem Holds.complete_iff {count : Nat} {content : List UInt8}
    (holds : uploader.Holds count content) (small : count ≤ 65535)
    (last : uploader.Numbered → uploader.file.length ≤ count * blockSize) :
    content = uploader.file ↔ uploader.Numbered := by
  constructor
  · intro same
    have bounded := holds.bounded
    rw [same] at bounded
    exact bounded.trans (Nat.mul_le_mul_right _ small)
  · intro numbered
    rw [holds.exact numbered]
    exact List.take_of_length_le (last numbered)

private theorem expected_of_place {index count : Nat} (numbered : uploader.Numbered)
    (inside : index < uploader.blocks) (new : count + 1 ≤ (index + 1) % 65536)
    (notAhead : place ((index + 1) % 65536) ≤ count + 1) : index = count := by
  have most := blocks_le numbered
  unfold place at notAhead
  by_cases zero : (index + 1) % 65536 = 0
  · omega
  · rw [if_neg zero] at notAhead
    omega

private theorem old_short_block {index count : Nat} (numbered : uploader.Numbered)
    (last : index + 1 = uploader.blocks) (before : count < uploader.blocks)
    (old : (index + 1) % 65536 < count + 1)
    (notAhead : place ((index + 1) % 65536) ≤ count + 1) : count = 65535 := by
  have most := blocks_le numbered
  unfold place at notAhead
  by_cases zero : (index + 1) % 65536 = 0
  · rw [if_pos zero] at notAhead
    omega
  · omega

/-- A turn goes on with the upload, or it is its end. -/
structure Turned (uploader : Uploader Address) (after : Members Address) (turn : WriteTurn) :
    Prop where
  goesOn : ∀ following, turn = .again following →
    ∃ next, following = next + 1 ∧ uploader.Writes after next
  ends : turn = .returned 0 → ∃ content, after.files uploader.request.filename = some content ∧
    (content = uploader.file ↔ uploader.Numbered)

theorem file_length_le (uploader : Uploader Address) :
    uploader.file.length ≤ uploader.blocks * blockSize := by
  have taken := @take_blockCount _ blockSize (by decide) uploader.file
  have lengths := congrArg List.length taken
  rw [List.length_take] at lengths
  unfold blocks
  omega

private theorem Writes.turn_request {tftp after : Members Address} {source : Address} {count : Nat}
    {turn : WriteTurn} (writes : uploader.Writes tftp count)
    (done : processWrite (tftp.receive source (uploader.request.bytes cmdWrq)) (count + 1) =
      (after, turn)) : uploader.Turned after turn := by
  have isRequest := @request_command _ tftp source uploader.request cmdWrq
  have notData : command (tftp.receive source (uploader.request.bytes cmdWrq)).buffer ≠
      cmdData := by
    rw [isRequest]
    decide
  cases processWrite_cases done with
  | requestRepeated isRequest first =>
      refine ⟨?_, WriteTurn.noConfusion⟩
      intro following again
      cases again
      exact ⟨count, rfl, ⟨writes.opened, writes.small, writes.inside, writes.stored⟩⟩
  | otherPacket other notRepeated =>
      refine ⟨fun _ => WriteTurn.noConfusion, ?_⟩
      intro returned
      cases returned
  | duplicate isData old turned => exact absurd isData notData
  | headless isData new short => exact absurd isData notData
  | written isData new whole turned => exact absurd isData notData

private theorem Writes.turn_data {tftp after : Members Address} {source : Address} {count index : Nat}
    {turn : WriteTurn} (writes : uploader.Writes tftp count) (inside : index < uploader.blocks)
    (place_ : place ((index + 1) % 65536) ≤ count + 1)
    (done : processWrite (tftp.receive source (dataPacket uploader.file index)) (count + 1) =
      (after, turn)) : uploader.Turned after turn := by
  obtain ⟨content, stored, holds⟩ := writes.stored
  obtain ⟨isData, numberRead, dataRead⟩ :=
    @dataPacket_received _ tftp source uploader.file index
  have size : (tftp.receive source (dataPacket uploader.file index)).dataSize =
      4 + (block blockSize uploader.file index).length := by
    rw [receive_dataSize (dataPacket_length_le _ _), dataPacket_length]
  have sizes : dataSizeMax = 4 + blockSize := rfl
  have short : (tftp.receive source (dataPacket uploader.file index)).dataSize < dataSizeMax ↔
      index + 1 = uploader.blocks := by
    rw [← block_short_iff inside, size]
    omega
  cases processWrite_cases done with
  | requestRepeated isRequest first =>
      rw [isData] at isRequest
      contradiction
  | otherPacket notData notRepeated => exact absurd isData notData
  | headless _ new less =>
      rw [size] at less
      omega
  | duplicate _ old turned =>
      rw [numberRead] at old
      constructor
      · intro following again
        rw [again] at turned
        obtain ⟨rfl, _⟩ := afterData_eq_again turned
        exact ⟨count, rfl, ⟨writes.opened, writes.small, writes.inside, writes.stored⟩⟩
      · intro returned
        rw [returned] at turned
        have last := short.mp (afterData_eq_returned turned).2
        refine ⟨content, stored, holds.complete_iff writes.small ?_⟩
        intro numbered
        rw [old_short_block numbered last (writes.inside numbered) old place_]
        exact numbered
  | written _ new whole turned =>
      rw [numberRead] at new
      have expected : uploader.Numbered → index = count :=
        fun numbered => expected_of_place numbered inside new place_
      have filled := holds.append expected
      obtain ⟨opened, appended⟩ := @onWriteData_files _
        ((tftp.receive source (dataPacket uploader.file index)).sendAck
          (number (tftp.receive source (dataPacket uploader.file index)).buffer))
        _ _ writes.opened stored
        (packetData (tftp.receive source (dataPacket uploader.file index)))
      rw [dataRead] at opened appended
      rw [dataRead]
      have small : count + 1 ≤ 65535 := by omega
      constructor
      · intro following again
        rw [again] at turned
        obtain ⟨rfl, full⟩ := afterData_eq_again turned
        refine ⟨count + 1, rfl, ⟨opened, small, ?_, _, appended, filled⟩⟩
        intro numbered
        have more : index + 1 ≠ uploader.blocks := fun last => by
          have less := short.mpr last
          omega
        have same := expected numbered
        omega
      · intro returned
        rw [returned] at turned
        have last := short.mp (afterData_eq_returned turned).2
        refine ⟨_, appended, filled.complete_iff small ?_⟩
        intro numbered
        have whole_ := file_length_le uploader
        rw [← last, expected numbered] at whole_
        exact whole_

theorem Writes.turn {tftp after : Members Address} {source : Address} {bytes : List UInt8}
    {count : Nat} {turn : WriteTurn} (writes : uploader.Writes tftp count)
    (sent : uploader.Sends bytes)
    (notAhead : command bytes = cmdData → place (number bytes) ≤ count + 1)
    (done : processWrite (tftp.receive source bytes) (count + 1) = (after, turn)) :
    uploader.Turned after turn := by
  rcases sent with rfl | ⟨index, inside, rfl⟩
  · exact writes.turn_request done
  · have place_ := notAhead (dataPacket_command _ _)
    rw [dataPacket_number] at place_
    exact writes.turn_data inside place_ done

/-! ### Runs of the upload -/

structure Faithful (uploader : Uploader Address) (state : Upload Address) : Prop where
  posted : ∀ bytes ∈ state.posted, uploader.Sends bytes
  phase : ∀ index, state.phase = .sends index → index < uploader.blocks
  writes : ∀ nextBlockNum, state.server.control = .writes nextBlockNum →
    ∃ count, nextBlockNum = count + 1 ∧ uploader.Writes state.server.tftp count

theorem blocks_pos : 0 < uploader.blocks :=
  Nat.succ_pos _

private theorem hears_inside {phase : Phase} {packet : List UInt8} {index : Nat}
    (before : ∀ earlier, phase = .sends earlier → earlier < uploader.blocks)
    (heard : uploader.hears phase packet = .sends index) : index < uploader.blocks := by
  cases phase with
  | requests =>
      simp only [hears] at heard
      split at heard
      · cases heard
        exact blocks_pos
      · cases heard
  | sends earlier =>
      have inside := before earlier rfl
      simp only [hears] at heard
      split at heard
      · split at heard
        · cases heard
        · cases heard
          omega
      · cases heard
        exact inside
  | done => cases heard

theorem Faithful.deliver {state : Upload Address} {bytes : List UInt8} {opens : Bool}
    {server : Server Address} (faithful : uploader.Faithful state)
    (sent : uploader.Sends bytes)
    (notAhead : ∀ nextBlockNum, state.server.control = .writes nextBlockNum →
      command bytes = cmdData → place (number bytes) ≤ nextBlockNum)
    (taken : state.server.step (uploader.arrival bytes opens) = some server)
    {nextBlockNum : Nat} (writes : server.control = .writes nextBlockNum) :
    ∃ count, nextBlockNum = count + 1 ∧ uploader.Writes server.tftp count := by
  obtain ⟨source, received, arrived, ⟨rfl, opened⟩ | ⟨expected, expects, done⟩⟩ :=
    step_writes taken writes
  · cases arrived
    rcases sent with rfl | ⟨index, inside, rfl⟩
    · obtain ⟨filename, afterName, named, isOpen, empty⟩ := opened.filename
      obtain ⟨_, _, request, _⟩ :=
        @request_filename _ state.server.tftp uploader.address uploader.request cmdWrq
      rw [named] at request
      cases request
      refine ⟨0, rfl, isOpen, by omega, fun _ => blocks_pos, [], empty, ?_⟩
      exact ⟨by simp, fun _ => by simp⟩
    · have isData := (@dataPacket_received _ state.server.tftp uploader.address
        uploader.file index).1
      have isRequest := opened.request
      rw [isData] at isRequest
      contradiction
  · cases arrived
    obtain ⟨count, rfl, before⟩ := faithful.writes expected expects
    exact (before.turn sent (notAhead _ expects) done).1 nextBlockNum rfl

private theorem faithful_of_reaches {start : Start Address} {state : Upload Address}
    (reached : (uploader.upload start).Reaches NotAhead state) : uploader.Faithful state := by
  refine Machine.Reaches.invariant ⟨by simp [upload], by simp [upload], by simp [upload, tftpd]⟩
    ?_ reached
  intro before move after _ faithful allowed taken
  cases move with
  | post =>
      simp only [upload, step, Option.bind_eq_bind, Option.bind_eq_some_iff,
        Option.some.injEq] at taken
      obtain ⟨bytes, current, rfl⟩ := taken
      refine ⟨?_, faithful.phase, faithful.writes⟩
      intro other member
      rcases List.mem_append.mp member with old | new
      · exact faithful.posted other old
      · rw [List.mem_singleton.mp new]
        cases phase : before.phase with
        | requests =>
            simp only [datagram, phase, Option.some.injEq] at current
            exact .inl current.symm
        | sends index =>
            simp only [datagram, phase, Option.some.injEq] at current
            exact .inr ⟨index, faithful.phase index phase, current.symm⟩
        | done => simp [datagram, phase] at current
  | deliver index opens =>
      simp only [upload, step, Option.bind_eq_bind, Option.bind_eq_some_iff,
        Option.some.injEq] at taken
      obtain ⟨bytes, there, server, stepped, rfl⟩ := taken
      refine ⟨faithful.posted, faithful.phase, ?_⟩
      intro nextBlockNum writes
      exact faithful.deliver (faithful.posted bytes (List.mem_of_getElem? there))
        (fun expected => allowed bytes expected there) stepped writes
  | fail again =>
      simp only [upload, step, Option.bind_eq_bind, Option.bind_eq_some_iff,
        Option.some.injEq] at taken
      obtain ⟨server, stepped, rfl⟩ := taken
      refine ⟨faithful.posted, faithful.phase, ?_⟩
      intro nextBlockNum writes
      obtain ⟨source, received, arrived, _⟩ := step_writes stepped writes
      cases arrived
  | answer index =>
      simp only [upload, step, Option.bind_eq_bind, Option.bind_eq_some_iff,
        Option.some.injEq] at taken
      obtain ⟨packet, there, rfl⟩ := taken
      exact ⟨faithful.posted, fun _ => hears_inside faithful.phase, faithful.writes⟩

/-! ### The lock step -/

/-- The write request reaches the server only before a block has been
acknowledged. -/
def RequestFirst (state : Upload Address) : UploadMove → Prop
  | .deliver index _ => ∀ bytes, state.posted[index]? = some bytes → command bytes = cmdWrq →
      ∀ packet ∈ state.server.tftp.sent, command packet.2 = cmdAck → number packet.2 = 0
  | .post => True
  | .fail _ => True
  | .answer _ => True

/-- How many blocks the client has sent. -/
def progress (uploader : Uploader Address) : Phase → Nat
  | .requests => 0
  | .sends index => index + 1
  | .done => uploader.blocks

/-- Client and server side by side: a block is sent when those before it are
acknowledged, and `process_write` is past every block it has acknowledged. -/
structure LockStep (uploader : Uploader Address) (state : Upload Address) : Prop where
  posted : ∀ bytes ∈ state.posted, bytes = uploader.request.bytes cmdWrq ∨
    ∃ index < uploader.progress state.phase, bytes = dataPacket uploader.file index
  acked : ∀ count, 0 < count → count < uploader.progress state.phase →
    ∃ packet ∈ state.server.tftp.sent, command packet.2 = cmdAck ∧
      number packet.2 = count % 65536
  expects : ∀ nextBlockNum, state.server.control = .writes nextBlockNum →
    1 ≤ nextBlockNum ∧ ∀ packet ∈ state.server.tftp.sent, command packet.2 = cmdAck →
      number packet.2 < nextBlockNum

private theorem number_lt (packet : List UInt8) : number packet < 65536 :=
  wordAt_lt packet 2

private theorem le_place {value : Nat} : value ≤ place value := by
  unfold place
  by_cases zero : value = 0
  · omega
  · rw [if_neg zero]

private theorem LockStep.notAhead {state : Upload Address} (lockStep : uploader.LockStep state)
    {index nextBlockNum : Nat} (sent : index < uploader.progress state.phase)
    (writing : state.server.control = .writes nextBlockNum) :
    place (number (dataPacket uploader.file index)) ≤ nextBlockNum := by
  obtain ⟨positive, past⟩ := lockStep.expects nextBlockNum writing
  have behind : ∀ count, 0 < count → count ≤ index → count % 65536 < nextBlockNum := by
    intro count some_ upTo
    obtain ⟨packet, member, isAck, numbered⟩ := lockStep.acked count some_ (by omega)
    rw [← numbered]
    exact past packet member isAck
  rw [dataPacket_number]
  unfold place
  by_cases first : index = 0
  · subst first
    exact positive
  · by_cases many : 65535 ≤ index
    · have full := behind 65535 (by decide) many
      by_cases zero : (index + 1) % 65536 = 0
      · rw [if_pos zero]
        omega
      · rw [if_neg zero]
        omega
    · have previous := behind index (by omega) (Nat.le_refl _)
      rw [if_neg (by omega)]
      omega

theorem LockStep.deliver {state : Upload Address} {bytes : List UInt8} {opens : Bool}
    {server : Server Address} (lockStep : uploader.LockStep state)
    (sent : bytes = uploader.request.bytes cmdWrq ∨
      ∃ index < uploader.progress state.phase, bytes = dataPacket uploader.file index)
    (first : command bytes = cmdWrq → ∀ packet ∈ state.server.tftp.sent,
      command packet.2 = cmdAck → number packet.2 = 0)
    (taken : state.server.step (uploader.arrival bytes opens) = some server)
    {nextBlockNum : Nat} (writes : server.control = .writes nextBlockNum) :
    1 ≤ nextBlockNum ∧ ∀ packet ∈ server.tftp.sent, command packet.2 = cmdAck →
      number packet.2 < nextBlockNum := by
  have isCommand : ∀ value, command (state.server.tftp.receive uploader.address bytes).buffer =
      value → command bytes = value := by
    intro value buffered
    rcases sent with rfl | ⟨index, _, rfl⟩
    · rw [request_command] at buffered
      rw [Request.bytes, command_netWord, buffered]
    · rw [dataPacket_command]
      exact (dataPacket_received _ _).1.symm.trans buffered
  obtain ⟨source, received, arrived, ⟨rfl, opened⟩ | ⟨expected, expects, done⟩⟩ :=
    step_writes taken writes
  · cases arrived
    obtain ⟨answer, answered, kind⟩ := opened.answer
    have none_ := first (isCommand _ opened.request)
    refine ⟨Nat.le_refl 1, ?_⟩
    intro packet member isAck
    rw [answered] at member
    rcases List.mem_append.mp member with old | new
    · rw [none_ packet old isAck]
      exact Nat.one_pos
    · rw [List.mem_singleton.mp new] at isAck ⊢
      rcases kind with zero | options
      · rw [zero, ackPacket_number]
        exact Nat.one_pos
      · rw [options] at isAck
        contradiction
  · cases arrived
    obtain ⟨positive, past⟩ := lockStep.expects expected expects
    have added : ∀ acked : Nat, acked < 65536 → ∀ following, expected ≤ following →
        acked < following → ∀ packet ∈ ((state.server.tftp.receive uploader.address bytes).sendAck
          acked).sent, command packet.2 = cmdAck → number packet.2 < following := by
      intro acked small following further below packet member isAck
      rcases List.mem_append.mp member with old | new
      · exact Nat.lt_of_lt_of_le (past packet old isAck) further
      · rw [List.mem_singleton.mp new, ackPacket_number]
        exact Nat.lt_of_le_of_lt (Nat.mod_le _ _) below
    generalize next : server.tftp = after at done
    cases processWrite_cases done with
    | requestRepeated isRequest one =>
        exact ⟨positive, added 0 (by decide) _ (Nat.le_refl _) positive⟩
    | duplicate isData old turned =>
        obtain ⟨rfl, _⟩ := afterData_eq_again turned
        exact ⟨positive, added _ (number_lt _) _ (Nat.le_refl _) old⟩
    | written isData new whole turned =>
        obtain ⟨rfl, _⟩ := afterData_eq_again turned
        refine ⟨by omega, ?_⟩
        rw [onWriteData_sent]
        refine added _ (number_lt _) _ (Nat.le_succ _) ?_
        rcases sent with rfl | ⟨index, inside, rfl⟩
        · rw [request_command] at isData
          contradiction
        · have near := lockStep.notAhead inside expects
          have numberRead := (@dataPacket_received _ state.server.tftp uploader.address
            uploader.file index).2.1
          rw [numberRead, ← dataPacket_number uploader.file index]
          exact Nat.lt_succ_of_le (le_place.trans near)

private theorem progress_hears (phase : Phase) (packet : List UInt8) :
    uploader.progress (uploader.hears phase packet) = uploader.progress phase ∨
      uploader.progress (uploader.hears phase packet) = uploader.progress phase + 1 ∧
        (uploader.progress phase = 0 ∨
          command packet = cmdAck ∧ number packet = uploader.progress phase % 65536) := by
  cases phase with
  | requests =>
      simp only [hears]
      split
      · exact .inr ⟨rfl, .inl rfl⟩
      · exact .inl rfl
  | sends index =>
      simp only [hears]
      split
      · rename_i acked
        split
        · rename_i last
          exact .inl last.symm
        · exact .inr ⟨rfl, .inr acked⟩
      · exact .inl rfl
  | done => exact .inl rfl

private theorem LockStep.acked_of_prefix {state : Upload Address} {server : Server Address}
    (lockStep : uploader.LockStep state) (grown : state.server.tftp.sent <+: server.tftp.sent) :
    ∀ count, 0 < count → count < uploader.progress state.phase →
      ∃ packet ∈ server.tftp.sent, command packet.2 = cmdAck ∧
        number packet.2 = count % 65536 := by
  intro count some_ before
  obtain ⟨packet, member, told⟩ := lockStep.acked count some_ before
  exact ⟨packet, grown.subset member, told⟩

private theorem lockStep_of_reaches {start : Start Address} {state : Upload Address}
    (reached : (uploader.upload start).Reaches RequestFirst state) : uploader.LockStep state := by
  have begins : uploader.LockStep (uploader.upload start).initial :=
    ⟨by simp [upload], fun count _ before => absurd before (Nat.not_lt_zero count),
      by simp [upload, tftpd]⟩
  refine Machine.Reaches.invariant begins ?_ reached
  intro before move after _ lockStep allowed taken
  cases move with
  | post =>
      simp only [upload, step, Option.bind_eq_bind, Option.bind_eq_some_iff,
        Option.some.injEq] at taken
      obtain ⟨bytes, current, rfl⟩ := taken
      refine ⟨?_, lockStep.acked, lockStep.expects⟩
      intro other member
      rcases List.mem_append.mp member with old | new
      · exact lockStep.posted other old
      · rw [List.mem_singleton.mp new]
        cases phase : before.phase with
        | requests =>
            simp only [datagram, phase, Option.some.injEq] at current
            exact .inl current.symm
        | sends index =>
            simp only [datagram, phase, Option.some.injEq] at current
            exact .inr ⟨index, Nat.lt_succ_self index, current.symm⟩
        | done => simp [datagram, phase] at current
  | deliver index opens =>
      simp only [upload, step, Option.bind_eq_bind, Option.bind_eq_some_iff,
        Option.some.injEq] at taken
      obtain ⟨bytes, there, server, stepped, rfl⟩ := taken
      refine ⟨lockStep.posted, lockStep.acked_of_prefix (step_sent stepped), ?_⟩
      intro nextBlockNum writes
      exact lockStep.deliver (lockStep.posted bytes (List.mem_of_getElem? there))
        (allowed bytes there) stepped writes
  | fail again =>
      simp only [upload, step, Option.bind_eq_bind, Option.bind_eq_some_iff,
        Option.some.injEq] at taken
      obtain ⟨server, stepped, rfl⟩ := taken
      refine ⟨lockStep.posted, lockStep.acked_of_prefix (step_sent stepped), ?_⟩
      intro nextBlockNum writes
      obtain ⟨source, received, arrived, _⟩ := step_writes stepped writes
      cases arrived
  | answer index =>
      simp only [upload, step, Option.bind_eq_bind, Option.bind_eq_some_iff,
        Option.some.injEq] at taken
      obtain ⟨packet, there, rfl⟩ := taken
      have member := List.mem_of_getElem? there
      rcases @progress_hears _ uploader before.phase packet.2 with same | ⟨next, told⟩
      · refine ⟨?_, ?_, lockStep.expects⟩
        · simp only [same]
          exact lockStep.posted
        · simp only [same]
          exact lockStep.acked
      · refine ⟨?_, ?_, lockStep.expects⟩
        · intro bytes posted
          simp only [next]
          rcases lockStep.posted bytes posted with request | ⟨other, inside, data⟩
          · exact .inl request
          · exact .inr ⟨other, Nat.lt_succ_of_lt inside, data⟩
        · intro count some_ below
          simp only [next] at below
          rcases Nat.lt_succ_iff_lt_or_eq.mp below with earlier | rfl
          · exact lockStep.acked count some_ earlier
          · rcases told with none_ | acked
            · omega
            · exact ⟨packet, member, acked⟩

/-- A client in lock step whose request is not delivered again after its first
block never has a block taken ahead of the expected one. -/
theorem notAhead_of_requestFirst {start : Start Address} {state : Upload Address}
    (reached : (uploader.upload start).Reaches RequestFirst state) :
    (uploader.upload start).Reaches NotAhead state := by
  induction reached with
  | initial => exact .initial
  | @step before move after earlier allowed taken ih =>
      refine .step ih ?_ taken
      have lockStep := lockStep_of_reaches earlier
      cases move with
      | post => trivial
      | deliver index opens =>
          intro bytes nextBlockNum there writing isData
          rcases lockStep.posted bytes (List.mem_of_getElem? there) with rfl | ⟨block, sent, rfl⟩
          · rw [Request.bytes, command_netWord] at isData
            contradiction
          · exact lockStep.notAhead sent writing
      | fail again => trivial
      | answer index => trivial

/-- In every run in which no block is taken ahead of the expected one, a
`process_write` that returns 0 leaves the client's file under its name exactly
when 65535 full blocks hold it. -/
theorem written_iff {start : Start Address} {before : Upload Address} {index : Nat}
    {opens : Bool} {bytes : List UInt8} {nextBlockNum : Nat} {after : Members Address}
    (reached : (uploader.upload start).Reaches NotAhead before)
    (arrives : before.posted[index]? = some bytes) (allowed : NotAhead before (.deliver index opens))
    (writing : before.server.control = .writes nextBlockNum)
    (done : processWrite (before.server.tftp.receive uploader.address bytes) nextBlockNum =
      (after, .returned 0)) :
    after.files uploader.request.filename = some uploader.file ↔ uploader.Numbered := by
  have faithful := faithful_of_reaches reached
  obtain ⟨count, rfl, writes⟩ := faithful.writes nextBlockNum writing
  have sent := faithful.posted bytes (List.mem_of_getElem? arrives)
  obtain ⟨content, stored, complete⟩ :=
    (writes.turn sent (allowed bytes _ arrives writing) done).2 rfl
  rw [stored, Option.some.injEq]
  exact complete

end Uploader

/-! ### Two uploads -/

def emptyHost : Start Nat :=
  .fresh fun _ => none

/-- A client at address 7 that uploads `file` under the name `f`. -/
def uploaderOf (file : List UInt8) : Uploader Nat where
  address := 7
  request := requestForF
  file := file

set_option maxRecDepth 8192 in
/-- Two blocks, of which the first one arrives twice. -/
theorem two_blocks_written :
    ∃ before after, ((uploaderOf twoBlocks).upload emptyHost).Reaches NotAhead before ∧
      processWrite (before.server.tftp.receive 7 (dataPacket twoBlocks 1)) 2 =
        (after, .returned 0) ∧
      after.files (text "f") = some twoBlocks := by
  have posted := @Machine.Reaches.step _ _ ((uploaderOf twoBlocks).upload emptyHost) NotAhead _
    .post _ .initial trivial rfl
  have requested := @Machine.Reaches.step _ _ _ NotAhead _ (.deliver 0 true) _ posted
    (fun _ _ _ writing => Control.noConfusion writing) rfl
  have answered := @Machine.Reaches.step _ _ _ NotAhead _ (.answer 0) _ requested trivial rfl
  have first := @Machine.Reaches.step _ _ _ NotAhead _ .post _ answered trivial rfl
  have notAhead (nextBlockNum : Nat) (next : 1 ≤ nextBlockNum) :
      place (number (dataPacket twoBlocks 0)) ≤ nextBlockNum := next
  have stored := @Machine.Reaches.step _ _ _ NotAhead _ (.deliver 1 true) _ first
    (fun bytes nextBlockNum there writing _ => by
      cases there
      cases writing
      exact notAhead 1 (by decide)) rfl
  have repeated := @Machine.Reaches.step _ _ _ NotAhead _ (.deliver 1 true) _ stored
    (fun bytes nextBlockNum there writing _ => by
      cases there
      cases writing
      exact notAhead 2 (by decide)) rfl
  have acked := @Machine.Reaches.step _ _ _ NotAhead _ (.answer 1) _ repeated trivial rfl
  have second := @Machine.Reaches.step _ _ _ NotAhead _ .post _ acked trivial rfl
  refine ⟨_, _, second, rfl, ?_⟩
  have numbered : (uploaderOf twoBlocks).Numbered := show 513 ≤ 65535 * blockSize by decide
  refine (@Uploader.written_iff _ _ _ _ 2 true _ _ _ second rfl ?_ rfl rfl).mpr numbered
  intro bytes nextBlockNum there writing isData
  cases there
  cases writing
  decide

/-- A copy of the request arrives after the first of two blocks. -/
def lateRequest : List UploadMove :=
  [.post, .deliver 0 true, .answer 0, .post, .deliver 1 true, .answer 1, .deliver 0 true, .post]

set_option maxRecDepth 8192 in
theorem late_request_truncates :
    ¬ ∀ (uploader : Uploader Nat) (start : Start Nat) (before : Upload Nat) (index : Nat)
      (bytes : List UInt8) (nextBlockNum : Nat) (after : Members Nat),
      (uploader.upload start).Reachable before → before.posted[index]? = some bytes →
        before.server.control = .writes nextBlockNum →
          processWrite (before.server.tftp.receive uploader.address bytes) nextBlockNum =
            (after, .returned 0) →
            after.files uploader.request.filename = some uploader.file := by
  intro always
  have ran : ∃ before after,
      ((uploaderOf twoBlocks).upload emptyHost).run
          ((uploaderOf twoBlocks).upload emptyHost).initial lateRequest = some before ∧
        before.posted[2]? = some (dataPacket twoBlocks 1) ∧
          before.server.control = .writes 1 ∧
            processWrite (before.server.tftp.receive 7 (dataPacket twoBlocks 1)) 1 =
              (after, .returned 0) ∧
              after.files (text "f") = some [1] :=
    ⟨_, _, rfl, rfl, rfl, rfl, rfl⟩
  obtain ⟨before, after, ran, there, writing, done, last⟩ := ran
  have whole := always _ emptyHost before 2 _ 1 after (.of_run ran) there writing done
  have same : some [1] = some twoBlocks := last.symm.trans whole
  have lengths := congrArg List.length (Option.some.inj same)
  contradiction

end Tftp

end DlcServer
