/-
The TFTP server.

Everything the server does happens between two calls of `recvfrom`, so the
model is a machine whose moves are the outcomes of these calls: where the
program waits is its control state, and one step runs the code from there to
the next `recvfrom`.  The names follow class `TFTP`.
-/

import DlcServer.Library.Machine
import DlcServer.Library.NumberedBlocks
import DlcServer.Library.Text

namespace DlcServer

open Library

namespace Tftp

variable {Address : Type}

/-! ### Packets -/

def cmdRrq : Nat := 1
def cmdWrq : Nat := 2
def cmdData : Nat := 3
def cmdAck : Nat := 4
def cmdError : Nat := 5

def errNotDefined : Nat := 0
def errFileNotFound : Nat := 1
def errAccessViolation : Nat := 2
def errIllegalOperation : Nat := 4

/-- `TFTP_DATA_SIZE`, header included. -/
def dataSizeMax : Nat := 516

/-- The data in a full block. -/
def blockSize : Nat := 512

def header (command value : Nat) : List UInt8 :=
  netWord command ++ netWord value

def command (packet : List UInt8) : Nat :=
  wordAt packet 0

def number (packet : List UInt8) : Nat :=
  wordAt packet 2

def ackPacket (blockNum : Nat) : List UInt8 :=
  header cmdAck blockNum

def errorPacket (code : Nat) (message : CText) : List UInt8 :=
  header cmdError code ++ (message ++ [0])

def blksizePacket : List UInt8 :=
  [0, 6] ++ (text "blksize" ++ (0 :: (text "512" ++ [0])))

/-! ### C strings in the buffer -/

/-- The string at the start of `memory` and what lies behind its NUL; `none`
when there is no NUL and the search leaves the buffer. -/
def cString : List UInt8 → Option (CText × List UInt8)
  | [] => none
  | byte :: memory =>
      if byte = 0 then some ([], memory)
      else (cString memory).map (fun found => (byte :: found.1, found.2))

/-- `strcmp(memory, word) == 0`; `none` when the comparison leaves the buffer. -/
def strcmp : List UInt8 → CText → Option Bool
  | [], _ => none
  | byte :: _, [] => some (byte == 0)
  | byte :: memory, letter :: word =>
      if byte = letter then strcmp memory word else some false

/-! ### The members of the class -/

/-- What one call of `recvfrom` gives.  `again` tells EAGAIN from other errors. -/
inductive Received (Address : Type)
  | failed (again : Bool)
  | datagram (source : Address) (bytes : List UInt8)
  deriving DecidableEq, Repr

/-- The outcome of a `recvfrom`, with those of the other calls made up to the
next one: whether `fopen` succeeds and whether a DATA packet can be sent. -/
structure Event (Address : Type) where
  received : Received Address
  opens : Bool
  sends : Bool
  deriving DecidableEq, Repr

/-- A datagram arrives, and nothing fails on the way of the answer. -/
def arrival (source : Address) (bytes : List UInt8) : Event Address :=
  { received := .datagram source bytes, opens := true, sends := true }

structure Members (Address : Type) where
  client : Address
  buffer : List UInt8
  dataSize : Nat
  /-- What each name gives that opens for reading: nothing for an empty file and for
  a directory. No two names stand for one file. -/
  files : CText → Option (List UInt8)
  /-- `m_filefd`, by the name it was opened under. -/
  filefd : Option CText
  /-- `m_filefd_r`, by what is left to read. -/
  filefdR : List UInt8
  /-- What `on_read_data` has read, of all files. -/
  fetched : List UInt8
  /-- The packets handed to `sendto`, oldest first. -/
  sent : List (Address × List UInt8)

namespace Members

/-- `recvfrom` into `m_buffer`: what exceeds the buffer is cut off, what the
datagram does not fill keeps its old bytes. -/
def receive (tftp : Members Address) (source : Address) (bytes : List UInt8) :
    Members Address :=
  { tftp with
    client := source
    buffer := bytes.take dataSizeMax ++ tftp.buffer.drop (bytes.take dataSizeMax).length
    dataSize := (bytes.take dataSizeMax).length }

/-- `recvfrom` into another array: only the address of the sender is kept. -/
def setClient (tftp : Members Address) (source : Address) : Members Address :=
  { tftp with client := source }

def sendto (tftp : Members Address) (packet : List UInt8) : Members Address :=
  { tftp with sent := tftp.sent ++ [(tftp.client, packet)] }

def sendAck (tftp : Members Address) (blockNum : Nat) : Members Address :=
  tftp.sendto (ackPacket blockNum)

def sendError (tftp : Members Address) (code : Nat) (message : CText) : Members Address :=
  let packet := errorPacket code message
  { tftp with buffer := packet ++ tftp.buffer.drop packet.length }.sendto packet

def onWrite (tftp : Members Address) (filename : CText) (opens : Bool) :
    Option (Members Address) :=
  if opens then
    some { tftp with
      files := Function.update tftp.files filename (some [])
      filefd := some filename }
  else none

def onRead (tftp : Members Address) (filename : CText) (opens : Bool) :
    Option (Members Address) :=
  match tftp.files filename with
  | some content => if opens then some { tftp with filefdR := content } else none
  | none => none

def onWriteData (tftp : Members Address) (data : List UInt8) : Members Address :=
  match tftp.filefd with
  | none => tftp
  | some filename =>
      { tftp with
        files := Function.update tftp.files filename
          ((tftp.files filename).map (fun content => content ++ data)) }

def onCloseW (tftp : Members Address) : Members Address :=
  { tftp with filefd := none }

def onCloseR (tftp : Members Address) : Members Address :=
  { tftp with filefdR := [] }

end Members

/-! ### Transfers -/

/-- Where `process_write` is after a datagram. -/
inductive WriteTurn
  | again (nextBlockNum : Nat)
  | returned (result : Int)
  /-- `fwrite` of a negative size. -/
  | fault
  deriving DecidableEq, Repr

def afterData (tftp : Members Address) (nextBlockNum : Nat) : WriteTurn :=
  if tftp.dataSize < dataSizeMax then .returned 0 else .again nextBlockNum

def packetData (tftp : Members Address) : List UInt8 :=
  (tftp.buffer.drop 4).take (tftp.dataSize - 4)

/-- One turn of the loop of `process_write`, with the datagram in `m_buffer`. -/
def processWrite (tftp : Members Address) (nextBlockNum : Nat) :
    Members Address × WriteTurn :=
  let code := command tftp.buffer
  if code ≠ cmdData then
    -- some clients repeat request several times
    if code = cmdWrq ∧ nextBlockNum = 1 then (tftp.sendAck 0, .again nextBlockNum)
    else (tftp, .returned 1)
  else
    let blockNum := number tftp.buffer
    let acked := tftp.sendAck blockNum
    if blockNum < nextBlockNum then (acked, afterData tftp nextBlockNum)
    else if tftp.dataSize < 4 then (acked, .fault)
    else (acked.onWriteData (packetData tftp), afterData tftp (nextBlockNum + 1))

/-- Where `process_read` is after it has gone on as far as it can. -/
inductive ReadTurn
  | waits (blockNum r : Nat)
  | returned (result : Int)
  deriving DecidableEq, Repr

/-- The `sendto` of `process_read`, up to the `recvfrom` of `wait_for_ack`. -/
def sendBlock (tftp : Members Address) (blockNum r : Nat) (sends : Bool) :
    Members Address × ReadTurn :=
  (tftp.sendto (tftp.buffer.take (tftp.dataSize + 4)),
    if sends then .waits blockNum r else .returned (-1))

def processRead (tftp : Members Address) (blockNum : Nat) (sends : Bool) :
    Members Address × ReadTurn :=
  let head := header cmdData blockNum
  let data := tftp.filefdR.take blockSize
  if data = [] then
    ({ tftp with buffer := head ++ tftp.buffer.drop 4 }.sendError errIllegalOperation
      (text "failed to read file"), .returned (-1))
  else
    sendBlock
      { tftp with
        buffer := head ++ (data ++ tftp.buffer.drop (4 + data.length))
        dataSize := data.length
        filefdR := tftp.filefdR.drop blockSize
        fetched := tftp.fetched ++ data }
      blockNum 0 sends

/-- The inner loop of `process_read` after a wait that did not bring the
acknowledgement. -/
def retry (tftp : Members Address) (blockNum r : Nat) (sends : Bool) :
    Members Address × ReadTurn :=
  if r + 1 < 3 then sendBlock tftp blockNum (r + 1) sends else (tftp, .returned (-1))

/-- What `wait_for_ack` looks at: the first four bytes. -/
def isAck (bytes : List UInt8) : Bool :=
  (bytes.take 4).length == 4 && command (bytes.take 4) == cmdAck

def acknowledges (blockNum : Nat) (bytes : List UInt8) : Bool :=
  isAck bytes && number (bytes.take 4) == blockNum % 65536

/-- `wait_for_ack` and what `process_read` does next.  `recvfrom` goes to a local
array here, and a failed one is an incorrect acknowledgement like any other. -/
def waitForAck (tftp : Members Address) (blockNum r : Nat) (event : Event Address) :
    Members Address × ReadTurn :=
  match event.received with
  | .failed _ =>
      retry (tftp.sendError errNotDefined (text "incorrect ack")) blockNum r event.sends
  | .datagram source bytes =>
      let heard := tftp.setClient source
      if !isAck bytes then
        retry (heard.sendError errNotDefined (text "incorrect ack")) blockNum r event.sends
      else if !acknowledges blockNum bytes then retry heard blockNum r event.sends
      else if tftp.dataSize < blockSize then (heard, .returned 0)
      else processRead heard (blockNum + 1) event.sends

/-! ### Requests -/

inductive Parsed (Address : Type)
  | accepted (tftp : Members Address)
  | refused (tftp : Members Address)
  /-- A string function left the buffer. -/
  | fault

def parseWrq (tftp : Members Address) (opens : Bool) : Parsed Address :=
  match cString (tftp.buffer.drop 2) with
  | none => .fault
  | some (filename, afterName) =>
      match cString afterName with
      | none => .fault
      | some (_, ptr) =>
          match tftp.onWrite filename opens with
          | none => .refused (tftp.sendError errAccessViolation (text "cannot open file"))
          | some opened =>
              if tftp.buffer.length - ptr.length < tftp.dataSize then
                match strcmp ptr (text "blksize") with
                | none => .fault
                | some true => .accepted (opened.sendto blksizePacket)
                | some false => .accepted (opened.sendAck 0)
              else .accepted (opened.sendAck 0)

def parseRrq (tftp : Members Address) (opens : Bool) : Parsed Address :=
  match cString (tftp.buffer.drop 2) with
  | none => .fault
  | some (filename, afterName) =>
      match cString afterName with
      | none => .fault
      | some _ =>
          match tftp.onRead filename opens with
          | none => .refused (tftp.sendError errFileNotFound (text "cannot open file"))
          | some opened => .accepted opened

/-! ### What a turn of the loops does -/

inductive WriteCase (tftp : Members Address) (nextBlockNum : Nat) :
    Members Address → WriteTurn → Prop
  | requestRepeated (isRequest : command tftp.buffer = cmdWrq) (first : nextBlockNum = 1) :
      WriteCase tftp nextBlockNum (tftp.sendAck 0) (.again nextBlockNum)
  | otherPacket (notData : command tftp.buffer ≠ cmdData)
      (notRepeated : ¬ (command tftp.buffer = cmdWrq ∧ nextBlockNum = 1)) :
      WriteCase tftp nextBlockNum tftp (.returned 1)
  | duplicate {turn : WriteTurn} (isData : command tftp.buffer = cmdData)
      (old : number tftp.buffer < nextBlockNum) (turned : turn = afterData tftp nextBlockNum) :
      WriteCase tftp nextBlockNum (tftp.sendAck (number tftp.buffer)) turn
  | headless (isData : command tftp.buffer = cmdData)
      (new : nextBlockNum ≤ number tftp.buffer) (short : tftp.dataSize < 4) :
      WriteCase tftp nextBlockNum (tftp.sendAck (number tftp.buffer)) .fault
  | written {turn : WriteTurn} (isData : command tftp.buffer = cmdData)
      (new : nextBlockNum ≤ number tftp.buffer) (whole : 4 ≤ tftp.dataSize)
      (turned : turn = afterData tftp (nextBlockNum + 1)) :
      WriteCase tftp nextBlockNum
        ((tftp.sendAck (number tftp.buffer)).onWriteData (packetData tftp)) turn

theorem afterData_eq_again {tftp : Members Address} {nextBlockNum following : Nat}
    (again : .again following = afterData tftp nextBlockNum) :
    following = nextBlockNum ∧ dataSizeMax ≤ tftp.dataSize := by
  unfold afterData at again
  by_cases short : tftp.dataSize < dataSizeMax
  · rw [if_pos short] at again
    cases again
  · rw [if_neg short] at again
    cases again
    exact ⟨rfl, Nat.le_of_not_lt short⟩

theorem afterData_eq_returned {tftp : Members Address} {nextBlockNum : Nat} {result : Int}
    (returned : .returned result = afterData tftp nextBlockNum) :
    result = 0 ∧ tftp.dataSize < dataSizeMax := by
  unfold afterData at returned
  by_cases short : tftp.dataSize < dataSizeMax
  · rw [if_pos short] at returned
    cases returned
    exact ⟨rfl, short⟩
  · rw [if_neg short] at returned
    cases returned

theorem processWrite_cases {tftp after : Members Address} {nextBlockNum : Nat}
    {turn : WriteTurn} (done : processWrite tftp nextBlockNum = (after, turn)) :
    WriteCase tftp nextBlockNum after turn := by
  unfold processWrite at done
  by_cases isData : command tftp.buffer = cmdData
  · simp only [isData, ne_eq, not_true_eq_false, if_false] at done
    by_cases old : number tftp.buffer < nextBlockNum
    · rw [if_pos old] at done
      cases done
      exact .duplicate isData old rfl
    · have new : nextBlockNum ≤ number tftp.buffer := Nat.le_of_not_lt old
      rw [if_neg old] at done
      by_cases short : tftp.dataSize < 4
      · rw [if_pos short] at done
        cases done
        exact .headless isData new short
      · rw [if_neg short] at done
        cases done
        exact .written isData new (Nat.le_of_not_lt short) rfl
  · simp only [ne_eq, isData, not_false_eq_true, if_true] at done
    by_cases repeated : command tftp.buffer = cmdWrq ∧ nextBlockNum = 1
    · rw [if_pos repeated] at done
      cases done
      exact .requestRepeated repeated.1 repeated.2
    · rw [if_neg repeated] at done
      cases done
      exact .otherPacket isData repeated

inductive WaitCase (tftp : Members Address) (blockNum r : Nat) (event : Event Address) :
    Members Address × ReadTurn → Prop
  | failed (again : Bool) (received : event.received = .failed again) :
      WaitCase tftp blockNum r event
        (retry (tftp.sendError errNotDefined (text "incorrect ack")) blockNum r event.sends)
  | incorrect (source : Address) (bytes : List UInt8)
      (received : event.received = .datagram source bytes) (wrong : isAck bytes = false) :
      WaitCase tftp blockNum r event
        (retry ((tftp.setClient source).sendError errNotDefined (text "incorrect ack"))
          blockNum r event.sends)
  | outOfOrder (source : Address) (bytes : List UInt8)
      (received : event.received = .datagram source bytes) (ack : isAck bytes = true)
      (other : acknowledges blockNum bytes = false) :
      WaitCase tftp blockNum r event (retry (tftp.setClient source) blockNum r event.sends)
  | complete (source : Address) (bytes : List UInt8)
      (received : event.received = .datagram source bytes)
      (right : acknowledges blockNum bytes = true) (last : tftp.dataSize < blockSize) :
      WaitCase tftp blockNum r event (tftp.setClient source, .returned 0)
  | goesOn (source : Address) (bytes : List UInt8)
      (received : event.received = .datagram source bytes)
      (right : acknowledges blockNum bytes = true) (full : blockSize ≤ tftp.dataSize) :
      WaitCase tftp blockNum r event
        (processRead (tftp.setClient source) (blockNum + 1) event.sends)

theorem isAck_of_acknowledges {blockNum : Nat} {bytes : List UInt8}
    (right : acknowledges blockNum bytes = true) : isAck bytes = true :=
  (Bool.and_eq_true _ _ ▸ right).1

theorem waitForAck_cases (tftp : Members Address) (blockNum r : Nat) (event : Event Address) :
    WaitCase tftp blockNum r event (waitForAck tftp blockNum r event) := by
  unfold waitForAck
  cases received : event.received with
  | failed again => exact .failed again received
  | datagram source bytes =>
      cases ack : isAck bytes with
      | false =>
          simp only [ack, Bool.not_false, if_true]
          exact .incorrect source bytes received ack
      | true =>
          simp only [ack, Bool.not_true, Bool.false_eq_true, if_false]
          cases right : acknowledges blockNum bytes with
          | false =>
              simp only [Bool.not_false, if_true]
              exact .outOfOrder source bytes received ack right
          | true =>
              simp only [Bool.not_true, Bool.false_eq_true, if_false]
              by_cases last : tftp.dataSize < blockSize
              · rw [if_pos last]
                exact .complete source bytes received right last
              · rw [if_neg last]
                exact .goesOn source bytes received right (Nat.le_of_not_lt last)

/-! ### The server -/

/-- Where the program waits for a datagram, or why it waits no more. -/
inductive Control
  /-- In the `recvfrom` of `run`. -/
  | listens
  | writes (nextBlockNum : Nat)
  | reads (blockNum r : Nat)
  /-- `run` has returned a negative value and `main` has ended its loop. -/
  | stopped
  /-- The loop of `parse_rq` goes round a packet with an unknown command. -/
  | spins
  | faulted
  deriving DecidableEq, Repr

structure Server (Address : Type) where
  tftp : Members Address
  control : Control

namespace Server

def runReturns (tftp : Members Address) (result : Int) : Server Address :=
  { tftp := tftp, control := if result < 0 then .stopped else .listens }

def reading : Members Address × ReadTurn → Server Address
  | (tftp, .waits blockNum r) => { tftp := tftp, control := .reads blockNum r }
  | (tftp, .returned result) => runReturns tftp.onCloseR result

theorem runReturns_control (tftp : Members Address) (result : Int) :
    (runReturns tftp result).control = .stopped ∨ (runReturns tftp result).control = .listens := by
  unfold runReturns
  by_cases negative : result < 0
  · exact .inl (if_pos negative)
  · exact .inr (if_neg negative)

theorem reading_control (turned : Members Address × ReadTurn) :
    (∃ blockNum r, (reading turned).control = .reads blockNum r) ∨
      (reading turned).control = .stopped ∨ (reading turned).control = .listens := by
  obtain ⟨tftp, turn⟩ := turned
  cases turn with
  | waits blockNum r => exact .inl ⟨blockNum, r, rfl⟩
  | returned result => exact .inr (runReturns_control _ _)

/-- A turn of the loop of `parse_rq`, with the `result` of the turn before. -/
def parseRq (tftp : Members Address) (result : Int) (opens sends : Bool) : Server Address :=
  if command tftp.buffer = cmdWrq then
    match parseWrq tftp opens with
    | .accepted opened => { tftp := opened, control := .writes 1 }
    -- it is ok since parsing is not network issue
    | .refused answered => runReturns answered 0
    | .fault => { tftp := tftp, control := .faulted }
  else if command tftp.buffer = cmdRrq then
    match parseRrq tftp opens with
    | .accepted opened => reading (processRead opened 1 sends)
    | .refused answered => runReturns answered 0
    | .fault => { tftp := tftp, control := .faulted }
  else if result ≤ 0 then runReturns tftp result
  else { tftp := tftp, control := .spins }

/-- `process_write` has come to a turn; a positive result sends the packet that
ended it through `parse_rq` again. -/
def writing (turned : Members Address × WriteTurn) (opens sends : Bool) : Server Address :=
  match turned with
  | (tftp, .again nextBlockNum) => { tftp := tftp, control := .writes nextBlockNum }
  | (tftp, .fault) => { tftp := tftp, control := .faulted }
  | (tftp, .returned result) =>
      if result ≤ 0 then runReturns tftp.onCloseW result
      else parseRq tftp.onCloseW result opens sends

def step (server : Server Address) (event : Event Address) : Option (Server Address) :=
  match server.control with
  | .listens =>
      match event.received with
      | .failed again => some (runReturns server.tftp (if again then 0 else -1))
      | .datagram source bytes =>
          some (parseRq (server.tftp.receive source bytes) (-1) event.opens event.sends)
  | .writes nextBlockNum =>
      match event.received with
      | .failed _ => some (runReturns server.tftp.onCloseW (-1))
      | .datagram source bytes =>
          some (writing (processWrite (server.tftp.receive source bytes) nextBlockNum)
            event.opens event.sends)
  | .reads blockNum r => some (reading (waitForAck server.tftp blockNum r event))
  | .stopped => none
  | .spins => none
  | .faulted => none

end Server

/-- The members after `start`: the buffer is fresh from `malloc`, the address has
not been written yet. -/
structure Start (Address : Type) where
  client : Address
  buffer : List UInt8
  allocated : buffer.length = dataSizeMax
  files : CText → Option (List UInt8)

def Start.members (start : Start Address) : Members Address :=
  { client := start.client
    buffer := start.buffer
    dataSize := 0
    files := start.files
    filefd := none
    filefdR := []
    fetched := []
    sent := [] }

/-- The start of a server with these files; addresses are numbers here. -/
def Start.fresh (files : CText → Option (List UInt8)) : Start Nat where
  client := 0
  buffer := List.replicate dataSizeMax 0
  allocated := List.length_replicate
  files := files

/-- `main` of the TFTP server, after `start`. -/
def tftpd (start : Start Address) : Machine (Server Address) (Event Address) where
  initial := { tftp := start.members, control := .listens }
  step := Server.step

end Tftp

end DlcServer
