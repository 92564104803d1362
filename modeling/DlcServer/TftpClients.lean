/-
What clients send to the TFTP server, and how the server reads it.

A request is kept with the facts that make it one: its strings hold no NUL and
it fits into the buffer.  The server then finds in `m_buffer` what was sent,
whatever a former datagram has left behind it.
-/

import DlcServer.TftpServer

namespace DlcServer

open Library

namespace Tftp

variable {Address : Type}

/-! ### Requests -/

structure Request where
  filename : CText
  mode : CText
  options : List UInt8
  filenameEnds : 0 ∉ filename
  modeEnds : 0 ∉ mode
  fits : (2 + filename.length + 1) + (mode.length + 1) + options.length ≤ dataSizeMax

namespace Request

def strings (request : Request) : List UInt8 :=
  request.filename ++ (0 :: (request.mode ++ (0 :: request.options)))

/-- The read or write request as it is sent. -/
def bytes (request : Request) (command : Nat) : List UInt8 :=
  netWord command ++ request.strings

theorem bytes_length_le (request : Request) (command : Nat) :
    (request.bytes command).length ≤ dataSizeMax := by
  have fits := request.fits
  simp only [bytes, strings, List.length_append, List.length_cons, netWord_length]
  omega

end Request

/-- A request for the file `f`. -/
def requestForF : Request where
  filename := text "f"
  mode := text "octet"
  options := []
  filenameEnds := by decide
  modeEnds := by decide
  fits := by decide

/-- A file of two blocks, of which the second one is short. -/
def twoBlocks : List UInt8 :=
  List.replicate blockSize 7 ++ [1]

theorem cString_append {string : CText} (ends : 0 ∉ string) (rest : List UInt8) :
    cString (string ++ (0 :: rest)) = some (string, rest) := by
  induction string with
  | nil => simp [cString]
  | cons byte string ih =>
      have parts := not_or.mp (fun member => ends (List.mem_cons.mpr member))
      have notNul : byte ≠ 0 := fun isNul => parts.1 isNul.symm
      simp [cString, notNul, ih parts.2]

/-! ### Datagrams in the buffer -/

theorem receive_buffer {tftp : Members Address} {source : Address} {bytes : List UInt8}
    (fits : bytes.length ≤ dataSizeMax) :
    (tftp.receive source bytes).buffer = bytes ++ tftp.buffer.drop bytes.length := by
  simp only [Members.receive, List.take_of_length_le fits]

theorem receive_dataSize {tftp : Members Address} {source : Address} {bytes : List UInt8}
    (fits : bytes.length ≤ dataSizeMax) :
    (tftp.receive source bytes).dataSize = bytes.length := by
  simp only [Members.receive, List.take_of_length_le fits]

theorem command_netWord (value : Nat) (rest : List UInt8) :
    command (netWord value ++ rest) = value % 65536 := by
  have read := @wordAt_append [] value rest
  simpa [command] using read

theorem command_take {packet : List UInt8} {count : Nat} (two : 2 ≤ count) :
    command (packet.take count) = command packet := by
  unfold command wordAt
  simp only [List.getD_eq_getElem?_getD, List.getElem?_take]
  rw [if_pos (by omega), if_pos (by omega)]

theorem command_header (value word : Nat) (rest : List UInt8) :
    command (header value word ++ rest) = value % 65536 := by
  rw [header, List.append_assoc, command_netWord]

theorem errorPacket_command (code : Nat) (message : CText) (rest : List UInt8) :
    command (errorPacket code message ++ rest) = cmdError := by
  rw [errorPacket, List.append_assoc, command_header]
  rfl

theorem number_header (value word : Nat) (rest : List UInt8) :
    number (header value word ++ rest) = word % 65536 := by
  have read := @wordAt_append (netWord value) word rest
  rw [header, List.append_assoc]
  simpa [number] using read

@[simp] theorem header_length (value word : Nat) : (header value word).length = 4 :=
  rfl

theorem request_command {tftp : Members Address} {source : Address} (request : Request)
    (value : Nat) :
    command (tftp.receive source (request.bytes value)).buffer = value % 65536 := by
  rw [receive_buffer (request.bytes_length_le value), Request.bytes, List.append_assoc,
    command_netWord]

theorem request_filename {tftp : Members Address} {source : Address} (request : Request)
    (value : Nat) :
    ∃ afterName ptr,
      cString ((tftp.receive source (request.bytes value)).buffer.drop 2) =
        some (request.filename, afterName) ∧ cString afterName = some (request.mode, ptr) := by
  rw [receive_buffer (request.bytes_length_le value)]
  generalize tftp.buffer.drop (request.bytes value).length = stale
  have behind : (request.bytes value ++ stale).drop 2 = request.strings ++ stale := by
    simp [Request.bytes, netWord]
  refine ⟨request.mode ++ (0 :: (request.options ++ stale)), request.options ++ stale, ?_,
    cString_append request.modeEnds _⟩
  rw [behind, Request.strings]
  simp only [List.append_assoc, List.cons_append]
  exact cString_append request.filenameEnds _

/-! ### Blocks of a file -/

/-- The DATA packet of the block at `index`; numbers count from 1. -/
def dataPacket (file : List UInt8) (index : Nat) : List UInt8 :=
  header cmdData (index + 1) ++ block blockSize file index

theorem dataPacket_length (file : List UInt8) (index : Nat) :
    (dataPacket file index).length = 4 + (block blockSize file index).length := by
  rw [dataPacket, List.length_append, header_length]

theorem dataPacket_length_le (file : List UInt8) (index : Nat) :
    (dataPacket file index).length ≤ dataSizeMax := by
  have bounded := block_length_le blockSize file index
  rw [dataPacket_length]
  unfold blockSize at bounded ⊢
  unfold dataSizeMax
  omega

theorem dataPacket_command (file : List UInt8) (index : Nat) :
    command (dataPacket file index) = cmdData :=
  command_header _ _ _

theorem dataPacket_number (file : List UInt8) (index : Nat) :
    number (dataPacket file index) = (index + 1) % 65536 :=
  number_header _ _ _

theorem dataPacket_drop (file : List UInt8) (index : Nat) :
    (dataPacket file index).drop 4 = block blockSize file index :=
  rfl

theorem ackPacket_command (blockNum : Nat) : command (ackPacket blockNum) = cmdAck := by
  have read := command_header cmdAck blockNum []
  rw [List.append_nil] at read
  exact read

theorem ackPacket_number (blockNum : Nat) : number (ackPacket blockNum) = blockNum % 65536 := by
  have read := number_header cmdAck blockNum []
  rwa [List.append_nil] at read

theorem acknowledges_ackPacket (blockNum other : Nat) :
    acknowledges blockNum (ackPacket other) = true ↔ other % 65536 = blockNum % 65536 := by
  have whole : (ackPacket other).take 4 = ackPacket other := List.take_of_length_le (Nat.le_refl 4)
  have four : (ackPacket other).length = 4 := rfl
  simp [acknowledges, isAck, whole, ackPacket_command, ackPacket_number, four]

theorem isAck_ackPacket (blockNum : Nat) : isAck (ackPacket blockNum) = true :=
  isAck_of_acknowledges ((acknowledges_ackPacket blockNum blockNum).mpr rfl)

end Tftp

end DlcServer
