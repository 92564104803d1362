/-
The TFTP server as a store of files.

Clients come one after another, nothing is lost on the way, and each goes on as
long as it is answered.  What they get of the server is what they would get of a
map from names to contents, with two flaws: of a file that is too long for
two-byte numbers only the front is kept, and whoever asks for a file that is a
whole number of blocks brings the store down.
-/

import DlcServer.TftpDownload
import DlcServer.TftpUpload

namespace DlcServer

open Library

namespace Tftp

variable {Address : Type}

/-! ### The store -/

inductive Asked
  | put (filename : CText) (file : List UInt8)
  /-- The file cannot be opened for writing. -/
  | putRefused
  | get (filename : CText)

inductive Reply
  | stored
  | file (content : List UInt8)
  | error
  | silence
  deriving DecidableEq, Repr

/-- Files by name, each name a file of its own and none a directory. -/
structure FileStore where
  files : CText → Option (List UInt8)
  up : Bool

/-- What two-byte numbers reach for. -/
def numbered : Nat := 65535 * blockSize

def FileStore.ask (store : FileStore) (asked : Asked) : FileStore × Reply :=
  if store.up then
    match asked with
    | .put filename file =>
        ({ store with files := Function.update store.files filename (some (file.take numbered)) },
          .stored)
    | .putRefused => (store, .error)
    | .get filename =>
        match store.files filename with
        | none => (store, .error)
        | some content =>
            if content.length % blockSize = 0 then ({ store with up := false }, .error)
            else (store, .file content)
  else (store, .silence)

def FileStore.askAll (store : FileStore) : List Asked → FileStore × List Reply
  | [] => (store, [])
  | asked :: more =>
      let (next, reply) := store.ask asked
      let (last, replies) := next.askAll more
      (last, reply :: replies)

/-! ### Requests -/

/-- Behind the mode there is nothing or a string that ends. -/
def Request.Closed (request : Request) : Prop :=
  request.options = [] ∨ 0 ∈ request.options

private theorem strcmp_closed {memory : List UInt8} (closed : 0 ∈ memory) {word : CText}
    (letters : 0 ∉ word) : ∃ same, strcmp memory word = some same := by
  induction word generalizing memory with
  | nil =>
      cases memory with
      | nil => exact absurd closed List.not_mem_nil
      | cons byte memory => exact ⟨_, rfl⟩
  | cons letter word ih =>
      cases memory with
      | nil => exact absurd closed List.not_mem_nil
      | cons byte memory =>
          rw [strcmp]
          split
          · next same =>
              have parts := not_or.mp (fun member => letters (List.mem_cons.mpr member))
              have behind : 0 ∈ memory := by
                rcases List.mem_cons.mp closed with isFirst | behind
                · exact absurd (isFirst.trans same) parts.1
                · exact behind
              exact ih behind parts.2
          · exact ⟨false, rfl⟩

private theorem request_found {tftp : Members Address} {source : Address} {request : Request}
    (closed : request.Closed) (value : Nat) :
    ∃ ptr asked, requestIn (tftp.receive source (request.bytes value)).buffer =
        some (request.filename, ptr) ∧
      optionIn (tftp.receive source (request.bytes value)) ptr = some asked := by
  have fits := request.bytes_length_le value
  have behind : ((tftp.receive source (request.bytes value)).buffer).drop 2 =
      request.filename ++ (0 :: (request.mode ++
        (0 :: (request.options ++ tftp.buffer.drop (request.bytes value).length)))) := by
    rw [receive_buffer fits]
    simp [Request.bytes, Request.strings, netWord]
  have named := cString_append request.filenameEnds (request.mode ++
    (0 :: (request.options ++ tftp.buffer.drop (request.bytes value).length)))
  have moded := cString_append request.modeEnds
    (request.options ++ tftp.buffer.drop (request.bytes value).length)
  rw [← behind] at named
  have seen : ∃ asked, optionIn (tftp.receive source (request.bytes value))
      (request.options ++ tftp.buffer.drop (request.bytes value).length) = some asked := by
    unfold optionIn
    split
    · next more =>
        rcases closed with none_ | ends
        · rw [receive_buffer fits, receive_dataSize fits, none_, List.nil_append,
            List.length_append] at more
          omega
        · exact strcmp_closed (List.mem_append_left _ ends) (by decide)
    · exact ⟨false, rfl⟩
  obtain ⟨asked, seen⟩ := seen
  exact ⟨_, asked, requestIn_of_strings named moded, seen⟩

private theorem step_write {uploader : Uploader Address} {server : Server Address}
    (listens : server.control = .listens)
    (closed : uploader.request.Closed) (opens : Bool) :
    ∃ asked : Bool, server.step (uploader.arrival (uploader.request.bytes cmdWrq) opens) =
      some (if opens then
        { tftp := ((server.tftp.receive uploader.address (uploader.request.bytes cmdWrq)).created
            uploader.request.filename).sendto (if asked then blksizePacket else ackPacket 0)
          control := .writes 1 }
      else Server.runReturns ((server.tftp.receive uploader.address
        (uploader.request.bytes cmdWrq)).sendError errAccessViolation (text "cannot open file")) 0) := by
  obtain ⟨ptr, asked, found, seen⟩ :=
    @request_found _ server.tftp uploader.address _ closed cmdWrq
  have isWrite : command (server.tftp.receive uploader.address
      (uploader.request.bytes cmdWrq)).buffer = cmdWrq :=
    request_command uploader.request cmdWrq
  refine ⟨asked, ?_⟩
  unfold Server.step
  rw [listens]
  dsimp only [Uploader.arrival]
  unfold Server.parseRq
  rw [if_pos isWrite, parseWrq_eq, found]
  dsimp only
  rw [seen]
  cases opens with
  | false => rfl
  | true => rfl

private theorem errorPacket_isError (code : Nat) (message : CText) :
    command (errorPacket code message) = cmdError := by
  have read := errorPacket_command code message []
  rwa [List.append_nil] at read

/-! ### Blocks -/

section Blocks

variable {uploader : Uploader Address} {client : Address} {content : List UInt8}
  {before : List (Address × List UInt8)} {index : Nat} {server : Server Address}

/-- After `count` acknowledged blocks. -/
structure Storing (uploader : Uploader Address) (files : CText → Option (List UInt8)) (count : Nat)
    (server : Server Address) : Prop where
  control : server.control = .writes (min count 65535 + 1)
  opened : server.tftp.filefd = some uploader.request.filename
  files : server.tftp.files = Function.update files uploader.request.filename
    (some ((uploader.file.take (count * blockSize)).take numbered))

private theorem onWriteData_update {tftp : Members Address} {files : CText → Option (List UInt8)}
    {filename : CText} {content : List UInt8} (opened : tftp.filefd = some filename)
    (stored : tftp.files = Function.update files filename (some content)) (data : List UInt8) :
    (tftp.onWriteData data).filefd = some filename ∧
      (tftp.onWriteData data).files =
        Function.update files filename (some (content ++ data)) := by
  have there : tftp.files filename = some content := by
    rw [stored, Function.update_self]
  refine ⟨(onWriteData_files opened there data).1, ?_⟩
  unfold Members.onWriteData
  rw [opened]
  dsimp only
  rw [there, stored, Function.update_idem]
  rfl

private theorem block_taken {tftp : Members Address} {files : CText → Option (List UInt8)} {count : Nat}
    (opened : tftp.filefd = some uploader.request.filename)
    (stored : tftp.files = Function.update files uploader.request.filename
      (some ((uploader.file.take (count * blockSize)).take numbered)))
    (inside : count < uploader.blocks) :
    ∃ after, processWrite (tftp.receive uploader.address (dataPacket uploader.file count))
        (min count 65535 + 1) =
          (after, if count + 1 = uploader.blocks then .returned 0
            else .again (min (count + 1) 65535 + 1)) ∧
      after.filefd = some uploader.request.filename ∧
      after.files = Function.update files uploader.request.filename
        (some ((uploader.file.take ((count + 1) * blockSize)).take numbered)) ∧
      after.sent = tftp.sent ++ [(uploader.address, ackPacket ((count + 1) % 65536))] := by
  have fits := dataPacket_length_le uploader.file count
  have dataSize := @receive_dataSize _ tftp uploader.address _ fits
  obtain ⟨isData, isNumber, isBlock⟩ :=
    @dataPacket_received _ tftp uploader.address uploader.file count
  rw [dataPacket_length] at dataSize
  generalize isReceived : tftp.receive uploader.address (dataPacket uploader.file count) = received
    at *
  have sameFd : received.filefd = some uploader.request.filename := by
    rw [← isReceived]
    exact opened
  have sameFiles : received.files = Function.update files uploader.request.filename
      (some ((uploader.file.take (count * blockSize)).take numbered)) := by
    rw [← isReceived]
    exact stored
  have sameSent : (received.sendAck ((count + 1) % 65536)).sent =
      tftp.sent ++ [(uploader.address, ackPacket ((count + 1) % 65536))] := by
    rw [← isReceived]
    rfl
  have turn (following : Nat) : afterData received following =
      if count + 1 = uploader.blocks then .returned 0 else .again following := by
    have last := Uploader.block_short_iff inside
    unfold afterData dataSizeMax
    unfold blockSize at last dataSize
    rw [dataSize]
    by_cases ends : count + 1 = uploader.blocks
    · rw [if_pos ends, if_pos (by have short := last.mpr ends; omega)]
    · rw [if_neg ends, if_neg (fun short => ends (last.mp (by omega)))]
  unfold processWrite
  dsimp only
  rw [if_neg (not_not.mpr isData), isNumber]
  by_cases small : count < 65535
  · have number : (count + 1) % 65536 = count + 1 := by omega
    have isMin : min count 65535 + 1 = count + 1 := by rw [min_eq_left small.le]
    have nextMin : min (count + 1) 65535 + 1 = count + 1 + 1 := by rw [min_eq_left small]
    have whole : ¬received.dataSize < 4 := by omega
    rw [number] at sameSent ⊢
    rw [isMin, nextMin, if_neg (lt_irrefl _), if_neg whole, turn, isBlock]
    have upTo (blocks : Nat) (few : blocks ≤ 65535) :
        (uploader.file.take (blocks * blockSize)).take numbered =
          uploader.file.take (blocks * blockSize) := by
      have enough : blocks * blockSize ≤ numbered := Nat.mul_le_mul_right _ few
      rw [List.take_take, min_eq_right enough]
    rw [upTo count small.le] at sameFiles
    obtain ⟨stillOpen, written⟩ := @onWriteData_update _ (received.sendAck (count + 1)) _ _ _
      sameFd sameFiles (block blockSize uploader.file count)
    refine ⟨_, rfl, stillOpen, ?_, ?_⟩
    · rw [written, take_append_block, upTo (count + 1) small]
    · rw [onWriteData_sent]
      exact sameSent
  · have beyond : 65535 ≤ count := Nat.le_of_not_lt small
    have isMin : min count 65535 + 1 = min (count + 1) 65535 + 1 := by
      rw [min_eq_right beyond, min_eq_right (beyond.trans (Nat.le_succ count))]
    have old : (count + 1) % 65536 < min count 65535 + 1 := by
      rw [min_eq_right beyond]
      exact Nat.mod_lt _ (by decide)
    have taken : ∀ blocks, 65535 ≤ blocks →
        (uploader.file.take (blocks * blockSize)).take numbered = uploader.file.take numbered := by
      intro blocks many
      have enough : numbered ≤ blocks * blockSize := Nat.mul_le_mul_right _ many
      rw [List.take_take, min_eq_left enough]
    rw [if_pos old, turn, isMin]
    refine ⟨_, rfl, sameFd, ?_, sameSent⟩
    rw [taken (count + 1) (by omega), ← taken count (by omega)]
    exact sameFiles

private theorem processRead_files (tftp : Members Address) (blockNum : Nat) (sends : Bool) :
    (Server.reading (processRead tftp blockNum sends)).tftp.files = tftp.files := by
  unfold processRead
  by_cases ended : tftp.filefdR.take blockSize = []
  · simp only [if_pos ended]
    rfl
  · simp only [if_neg ended]
    cases sends with
    | false => rfl
    | true => rfl

private theorem processRead_error {tftp : Members Address} {blockNum : Nat} (unread : tftp.filefdR = [])
    (sends : Bool) :
    ∃ before, (Server.reading (processRead tftp blockNum sends)).tftp.sent = before ++
      [(tftp.client, errorPacket errIllegalOperation (text "failed to read file"))] := by
  unfold processRead
  rw [unread]
  exact ⟨tftp.sent, rfl⟩

/-- What an acknowledgement of the block at `index` leads to. -/
theorem Awaits.acknowledged (awaits : Awaits client content before index server) :
    server.step (Tftp.arrival client (ackPacket ((index + 1) % 65536))) =
      some (Server.reading
        (if (block blockSize content index).length < blockSize
          then (server.tftp.setClient client, .returned 0)
          else processRead (server.tftp.setClient client) (index + 2) true)) := by
  have right : acknowledges (index + 1) (ackPacket ((index + 1) % 65536)) = true :=
    (acknowledges_ackPacket _ _).mpr (Nat.mod_mod _ _)
  unfold Server.step
  rw [awaits.control]
  dsimp only [Tftp.arrival]
  unfold waitForAck
  dsimp only
  rw [isAck_ackPacket, right, Bool.not_true, if_neg Bool.false_ne_true,
    if_neg Bool.false_ne_true, awaits.dataSize]

end Blocks

/-! ### Clients -/

/-- A client that writes or reads one file; what options it sends end in the
datagram. -/
inductive Session (Address : Type)
  | upload (uploader : Uploader Address) (opens : Bool)
  | download (client : Address) (request : Request)

def Session.asked : Session Address → Asked
  | .upload uploader opens =>
      if opens then .put uploader.request.filename uploader.file else .putRefused
  | .download _ request => .get request.filename

def Session.Closed : Session Address → Prop
  | .upload uploader _ => uploader.request.Closed
  | .download _ _ => True

/-- How often the client of a session goes round at most. -/
def Session.needs (store : FileStore) : Session Address → Nat
  | .upload uploader _ => uploader.blocks + 2
  | .download _ request =>
      match store.files request.filename with
      | none => 1
      | some content => blockCount blockSize content + 1

private theorem Session.needs_pos (store : FileStore) (session : Session Address) :
    0 < session.needs store := by
  cases session with
  | upload uploader opens => exact Nat.succ_pos _
  | download client request =>
      unfold Session.needs
      dsimp only
      cases store.files request.filename with
      | none => exact Nat.one_pos
      | some content => exact Nat.succ_pos _

/-- What the server has of the store. -/
structure Represents (server : Server Address) (store : FileStore) : Prop where
  control : server.control = if store.up then .listens else .stopped
  files : server.tftp.files = store.files

private theorem represents_up {server : Server Address} {files : CText → Option (List UInt8)}
    (listens : server.control = .listens) (same : server.tftp.files = files) :
    Represents server ⟨files, true⟩ :=
  ⟨listens.trans (if_pos rfl).symm, same⟩

variable [DecidableEq Address]

/-- The last packet of the server, when it has gone to `client`. -/
def heard (client : Address) (server : Server Address) : Option (List UInt8) :=
  match server.tftp.sent.getLast? with
  | none => none
  | some (destination, packet) => if destination = client then some packet else none

/-- The client sends what it is at, and goes on when it is acknowledged. -/
def Uploader.converse (uploader : Uploader Address) (opens : Bool) :
    Nat → Phase → Server Address → Option (Server Address × Reply)
  | 0, _, _ => none
  | rounds + 1, phase, server =>
      match uploader.datagram phase with
      | none => some (server, .stored)
      | some bytes =>
          match server.step (uploader.arrival bytes opens) with
          | none => some (server, .silence)
          | some next =>
              match heard uploader.address next with
              | none => some (next, .silence)
              | some packet =>
                  if command packet = cmdError then some (next, .error)
                  else uploader.converse opens rounds (uploader.hears phase packet) next

/-- The client acknowledges each block, up to the short one. -/
def fetch (client : Address) : Nat → List UInt8 → Server Address →
    Option (Server Address × Reply)
  | 0, _, _ => none
  | rounds + 1, got, server =>
      match heard client server with
      | none => some (server, .silence)
      | some packet =>
          if command packet = cmdError then some (server, .error)
          else
            let data := packet.drop 4
            match server.step (Tftp.arrival client (ackPacket (number packet))) with
            | none => some (server, .silence)
            | some next =>
                if data.length < blockSize then some (next, .file (got ++ data))
                else fetch client rounds (got ++ data) next

def Session.serve (rounds : Nat) (server : Server Address) :
    Session Address → Option (Server Address × Reply)
  | .upload uploader opens => uploader.converse opens rounds .requests server
  | .download client request =>
      match server.step (Tftp.arrival client (request.bytes cmdRrq)) with
      | none => some (server, .silence)
      | some first => fetch client rounds [] first

def serveAll (rounds : Nat) (server : Server Address) :
    List (Session Address) → Option (Server Address × List Reply)
  | [] => some (server, [])
  | session :: more => do
      let (next, reply) ← session.serve rounds server
      let (last, replies) ← serveAll rounds next more
      return (last, reply :: replies)

private theorem heard_of_sent {client : Address} {server : Server Address}
    {before : List (Address × List UInt8)} {packet : List UInt8}
    (sent : server.tftp.sent = before ++ [(client, packet)]) : heard client server = some packet := by
  unfold heard
  rw [sent, List.getLast?_concat]
  exact if_pos rfl

/-! ### Uploads -/

section Uploads

variable {uploader : Uploader Address}

private theorem put_refused {server : Server Address} (listens : server.control = .listens)
    (closed : uploader.request.Closed) (rounds : Nat) :
    ∃ final, uploader.converse false (rounds + 1) .requests server = some (final, .error) ∧
      final.control = .listens ∧ final.tftp.files = server.tftp.files := by
  obtain ⟨asked, taken⟩ := step_write listens closed false
  rw [if_neg Bool.false_ne_true] at taken
  refine ⟨Server.runReturns ((server.tftp.receive uploader.address
    (uploader.request.bytes cmdWrq)).sendError errAccessViolation (text "cannot open file")) 0,
    ?_, rfl, rfl⟩
  rw [Uploader.converse]
  dsimp only [Uploader.datagram]
  rw [taken]
  dsimp only
  rw [heard_of_sent rfl]
  dsimp only
  rw [if_pos (errorPacket_isError _ _)]

private theorem put_accepted {server : Server Address} (listens : server.control = .listens)
    (closed : uploader.request.Closed) (rounds : Nat) :
    ∃ next, uploader.converse true (rounds + 1) .requests server =
        uploader.converse true rounds (.sends 0) next ∧
      Storing uploader server.tftp.files 0 next := by
  obtain ⟨asked, taken⟩ := step_write listens closed true
  rw [if_pos rfl] at taken
  generalize isAnswer : (if asked = true then blksizePacket else ackPacket 0) = answer at taken
  have goesOn : command answer ≠ cmdError ∧ uploader.hears .requests answer = .sends 0 := by
    rw [← isAnswer]
    cases asked with
    | false =>
        rw [if_neg Bool.false_ne_true, Uploader.hears]
        exact ⟨by decide, if_pos (.inl ⟨ackPacket_command 0, ackPacket_number 0⟩)⟩
    | true =>
        rw [if_pos rfl, Uploader.hears]
        exact ⟨by decide, if_pos (.inr rfl)⟩
  refine ⟨{ tftp := ((server.tftp.receive uploader.address (uploader.request.bytes cmdWrq)).created
    uploader.request.filename).sendto answer, control := .writes 1 }, ?_, rfl, rfl, ?_⟩
  · rw [Uploader.converse]
    dsimp only [Uploader.datagram]
    rw [taken]
    dsimp only
    rw [heard_of_sent rfl]
    dsimp only
    rw [if_neg goesOn.1, goesOn.2]
  · rw [Nat.zero_mul, List.take_zero, List.take_nil]
    rfl

private theorem put_block {server : Server Address} {files : CText → Option (List UInt8)} {count : Nat}
    (storing : Storing uploader files count server) (inside : count < uploader.blocks)
    (rounds : Nat) :
    ∃ next, uploader.converse true (rounds + 1) (.sends count) server =
        uploader.converse true rounds
          (if count + 1 = uploader.blocks then .done else .sends (count + 1)) next ∧
      if count + 1 = uploader.blocks then
        next.control = .listens ∧ next.tftp.files =
          Function.update files uploader.request.filename (some (uploader.file.take numbered))
      else Storing uploader files (count + 1) next := by
  obtain ⟨after, turned, opened, stored, sent⟩ :=
    block_taken storing.opened storing.files inside
  have goesOn : command (ackPacket ((count + 1) % 65536)) ≠ cmdError := by
    rw [ackPacket_command]
    decide
  have hears : uploader.hears (.sends count) (ackPacket ((count + 1) % 65536)) =
      if count + 1 = uploader.blocks then .done else .sends (count + 1) := by
    rw [Uploader.hears]
    exact if_pos ⟨ackPacket_command _, by rw [ackPacket_number, Nat.mod_mod]⟩
  rw [Uploader.converse]
  dsimp only [Uploader.datagram]
  unfold Server.step
  rw [storing.control]
  dsimp only [Uploader.arrival]
  rw [turned]
  by_cases last : count + 1 = uploader.blocks
  · rw [if_pos last] at hears ⊢
    have complete : (uploader.file.take ((count + 1) * blockSize)).take numbered =
        uploader.file.take numbered := by
      rw [last, List.take_of_length_le (Uploader.file_length_le uploader)]
    refine ⟨Server.runReturns after.onCloseW 0, ?_, ?_⟩
    · dsimp only [Server.writing]
      rw [if_pos (Int.le_refl 0), heard_of_sent sent]
      dsimp only
      rw [if_neg goesOn, hears, if_pos last]
    · rw [if_pos last, ← complete]
      exact ⟨rfl, stored⟩
  · rw [if_neg last] at hears ⊢
    refine ⟨{ tftp := after, control := .writes (min (count + 1) 65535 + 1) }, ?_, ?_⟩
    · dsimp only [Server.writing]
      rw [heard_of_sent sent]
      dsimp only
      rw [if_neg goesOn, hears, if_neg last]
    · rw [if_neg last]
      exact ⟨rfl, opened, stored⟩

private theorem put_stored {server : Server Address} (listens : server.control = .listens)
    (closed : uploader.request.Closed) {rounds : Nat} (enough : uploader.blocks + 1 < rounds) :
    ∃ final, uploader.converse true rounds .requests server = some (final, .stored) ∧
      final.control = .listens ∧ final.tftp.files =
        Function.update server.tftp.files uploader.request.filename
          (some (uploader.file.take numbered)) := by
  have goesOn {count rounds : Nat} {next : Server Address}
      (storing : Storing uploader server.tftp.files count next) (inside : count < uploader.blocks)
      (enough : uploader.blocks < count + rounds) :
      ∃ final, uploader.converse true rounds (.sends count) next = some (final, .stored) ∧
        final.control = .listens ∧ final.tftp.files =
          Function.update server.tftp.files uploader.request.filename
            (some (uploader.file.take numbered)) := by
    induction rounds generalizing count next with
    | zero => omega
    | succ rounds ih =>
        obtain ⟨after, converse, outcome⟩ := put_block storing inside rounds
        rw [converse]
        by_cases last : count + 1 = uploader.blocks
        · rw [if_pos last] at outcome ⊢
          obtain ⟨rounds, rfl⟩ : ∃ less, rounds = less + 1 := ⟨rounds - 1, by omega⟩
          exact ⟨after, rfl, outcome⟩
        · rw [if_neg last] at outcome ⊢
          exact ih outcome (by omega) (by omega)
  obtain ⟨rounds, rfl⟩ : ∃ less, rounds = less + 1 := ⟨rounds - 1, by omega⟩
  obtain ⟨next, converse, storing⟩ := put_accepted listens closed rounds
  rw [converse]
  exact goesOn storing uploader.blocks_pos (by omega)

end Uploads

/-! ### Downloads -/

section Downloads

variable {client : Address} {content : List UInt8} {before : List (Address × List UInt8)}
  {index : Nat} {server : Server Address}

theorem Awaits.heard (awaits : Awaits client content before index server) :
    Tftp.heard client server = some (dataPacket content index) := by
  refine @heard_of_sent _ _ client server (before ++ blocksSent client content index) _ ?_
  rw [awaits.sent, blocksSent_succ, ← List.append_assoc]

private theorem fetch_awaits (awaits : Awaits client content before index server) (rounds : Nat)
    (got : List UInt8) :
    ∃ next, next.tftp.files = server.tftp.files ∧
      if (block blockSize content index).length < blockSize then
        next.control = .listens ∧ fetch client (rounds + 1) got server =
          some (next, .file (got ++ block blockSize content index))
      else fetch client (rounds + 1) got server =
          fetch client rounds (got ++ block blockSize content index) next ∧
        if block blockSize content (index + 1) = [] then
          next.control = .stopped ∧ ∃ packet, Tftp.heard client next = some packet ∧
            command packet = cmdError
        else Awaits client content before (index + 1) next := by
  have goesOn : command (dataPacket content index) ≠ cmdError := by
    rw [dataPacket_command]
    decide
  have taken := awaits.acknowledged
  rw [fetch, awaits.heard]
  dsimp only
  rw [if_neg goesOn, dataPacket_number, dataPacket_drop, taken]
  dsimp only
  by_cases short : (block blockSize content index).length < blockSize
  · rw [if_pos short, if_pos short]
    refine ⟨Server.reading (server.tftp.setClient client, .returned 0), rfl, ?_⟩
    rw [if_pos short]
    exact ⟨rfl, rfl⟩
  · rw [if_neg short, if_neg short]
    refine ⟨Server.reading (processRead (server.tftp.setClient client) (index + 2) true),
      processRead_files _ _ _, ?_⟩
    rw [if_neg short]
    refine ⟨rfl, ?_⟩
    have unread := awaits.unread
    split
    · next none_ =>
        have nothing : content.drop ((index + 1) * blockSize) = [] := by
          simpa [block, blockSize] using none_
        rw [nothing] at unread
        obtain ⟨before, sent⟩ := @processRead_error _ (server.tftp.setClient client)
          (index + 2) unread true
        exact ⟨@processRead_gives_up _ (server.tftp.setClient client) _ unread true, _,
          heard_of_sent sent, errorPacket_isError _ _⟩
    · next some_ => exact processRead_awaits rfl unread awaits.sent some_

private theorem fetch_error {packet : List UInt8} (isHeard : Tftp.heard client server = some packet)
    (isError : command packet = cmdError) (rounds : Nat) (got : List UInt8) :
    fetch client (rounds + 1) got server = some (server, .error) := by
  rw [fetch, isHeard]
  exact if_pos isError

private theorem fetch_rest {rounds : Nat} (awaits : Awaits client content before index server)
    (inside : index * blockSize < content.length)
    (enough : blockCount blockSize content < index + rounds) :
    ∃ final, final.tftp.files = server.tftp.files ∧
      if content.length % blockSize = 0 then
        fetch client rounds (content.take (index * blockSize)) server = some (final, .error) ∧
          final.control = .stopped
      else fetch client rounds (content.take (index * blockSize)) server =
          some (final, .file content) ∧ final.control = .listens := by
  induction rounds generalizing index server with
  | zero =>
      have bound : index ≤ content.length / blockSize :=
        (Nat.le_div_iff_mul_le (by decide)).mpr inside.le
      unfold blockCount at enough
      omega
  | succ rounds ih =>
      obtain ⟨next, sameFiles, outcome⟩ :=
        fetch_awaits awaits rounds (content.take (index * blockSize))
      rw [take_append_block] at outcome
      by_cases short : (block blockSize content index).length < blockSize
      · rw [if_pos short] at outcome
        have isShort := short
        rw [block_length] at isShort
        have last : content.length ≤ (index + 1) * blockSize := by
          rw [Nat.succ_mul]
          omega
        have remainder : content.length % blockSize ≠ 0 := by
          intro multiple
          obtain ⟨count, isCount⟩ := Nat.dvd_of_mod_eq_zero multiple
          unfold blockSize at isCount isShort inside
          omega
        rw [List.take_of_length_le last] at outcome
        refine ⟨next, sameFiles, ?_⟩
        rw [if_neg remainder]
        exact ⟨outcome.2, outcome.1⟩
      · rw [if_neg short] at outcome
        obtain ⟨goesOn, outcome⟩ := outcome
        rw [goesOn]
        by_cases ended : block blockSize content (index + 1) = []
        · rw [if_pos ended] at outcome
          obtain ⟨stopped, packet, isHeard, isError⟩ := outcome
          have multiple : content.length % blockSize = 0 := by
            have beyond := mt block_ne_nil_iff.mpr (not_not.mpr ended)
            rw [block_length] at short
            have whole : content.length = (index + 1) * blockSize := by
              unfold blockSize at beyond short ⊢
              omega
            rw [whole, Nat.mul_mod_left]
          obtain ⟨rounds, rfl⟩ : ∃ less, rounds = less + 1 := by
            refine ⟨rounds - 1, ?_⟩
            have bound : index + 1 ≤ content.length / blockSize := by
              refine (Nat.le_div_iff_mul_le (by decide)).mpr ?_
              exact block_full_iff.mp (le_antisymm (block_length_le _ _ _) (not_lt.mp short))
            unfold blockCount at enough
            omega
          refine ⟨next, sameFiles, ?_⟩
          rw [if_pos multiple]
          exact ⟨fetch_error isHeard isError rounds _, stopped⟩
        · rw [if_neg ended] at outcome
          obtain ⟨final, files, result⟩ := ih outcome (block_ne_nil_iff.mp ended) (by omega)
          exact ⟨final, files.trans sameFiles, result⟩

private theorem get_missing {server : Server Address} (listens : server.control = .listens)
    {request : Request} (missing : server.tftp.files request.filename = none)
    (rounds : Nat) :
    ∃ final, (Session.download client request).serve (rounds + 1) server =
        some (final, .error) ∧
      final.control = .listens ∧ final.tftp.files = server.tftp.files := by
  obtain ⟨afterName, ptr, named, moded⟩ := @request_filename _ server.tftp client request cmdRrq
  have isRead : command (server.tftp.receive client (request.bytes cmdRrq)).buffer = cmdRrq :=
    request_command request cmdRrq
  have absent : (server.tftp.receive client (request.bytes cmdRrq)).files request.filename = none :=
    missing
  have taken : server.step (Tftp.arrival client (request.bytes cmdRrq)) =
      some (Server.runReturns ((server.tftp.receive client (request.bytes cmdRrq)).sendError
        errFileNotFound (text "cannot open file")) 0) := by
    unfold Server.step
    rw [listens]
    dsimp only [Tftp.arrival]
    unfold Server.parseRq parseRrq
    rw [isRead, if_neg (by decide), if_pos rfl, named]
    dsimp only
    rw [moded]
    dsimp only
    unfold Members.onRead
    rw [absent]
  refine ⟨Server.runReturns ((server.tftp.receive client (request.bytes cmdRrq)).sendError
    errFileNotFound (text "cannot open file")) 0, ?_, rfl, rfl⟩
  rw [Session.serve, taken]
  exact fetch_error (heard_of_sent rfl) (errorPacket_isError _ _) rounds []

private theorem get_stored {server : Server Address} (listens : server.control = .listens)
    {request : Request} (stored : server.tftp.files request.filename = some content)
    {rounds : Nat} (enough : blockCount blockSize content < rounds) :
    ∃ final, final.tftp.files = server.tftp.files ∧
      if content.length % blockSize = 0 then
        (Session.download client request).serve rounds server = some (final, .error) ∧
          final.control = .stopped
      else (Session.download client request).serve rounds server = some (final, .file content) ∧
        final.control = .listens := by
  obtain ⟨tftp, control⟩ := server
  dsimp only at listens stored
  subst listens
  have taken : (Server.mk tftp .listens).step (Tftp.arrival client (request.bytes cmdRrq)) =
      some (Server.reading (processRead
        { tftp.receive client (request.bytes cmdRrq) with filefdR := content } 1 true)) :=
    step_readEvent stored
  obtain ⟨opened, isOpened, unread, sender, sent, files⟩ :
      ∃ opened : Members Address,
        { tftp.receive client (request.bytes cmdRrq) with filefdR := content } = opened ∧
        opened.filefdR = content ∧ opened.client = client ∧ opened.sent = tftp.sent ∧
        opened.files = tftp.files :=
    ⟨_, rfl, rfl, rfl, rfl, rfl⟩
  rw [isOpened] at taken
  have sameFiles := processRead_files opened 1 true
  rw [files] at sameFiles
  rw [Session.serve, taken]
  dsimp only
  by_cases empty : content = []
  · subst empty
    obtain ⟨before, sentError⟩ := @processRead_error _ opened 1 unread true
    obtain ⟨rounds, rfl⟩ : ∃ less, rounds = less + 1 := ⟨rounds - 1, by omega⟩
    rw [sender] at sentError
    refine ⟨_, sameFiles, ?_⟩
    have whole : ([] : List UInt8).length % blockSize = 0 := rfl
    rw [if_pos whole]
    exact ⟨fetch_error (heard_of_sent sentError) (errorPacket_isError _ _) rounds [],
      processRead_gives_up unread true⟩
  · have positive := List.length_pos_of_ne_nil empty
    have awaits : Awaits client content tftp.sent 0
        (Server.reading (processRead opened 1 true)) := by
      refine processRead_awaits sender ?_ ?_ (block_ne_nil_iff.mpr (by omega))
      · rw [Nat.zero_mul, List.drop_zero]
        exact unread
      · exact sent.trans (List.append_nil _).symm
    obtain ⟨final, stillThere, result⟩ := fetch_rest awaits (by omega)
      (by rw [Nat.zero_add]; exact enough)
    rw [Nat.zero_mul, List.take_zero] at result
    exact ⟨final, stillThere.trans sameFiles, result⟩

end Downloads

/-! ### Runs -/

private theorem serve_stopped {server : Server Address} (stopped : server.control = .stopped)
    (session : Session Address) {rounds : Nat} (enough : 0 < rounds) :
    session.serve rounds server = some (server, .silence) := by
  have none_ (event : Event Address) : server.step event = none := by
    unfold Server.step
    rw [stopped]
  obtain ⟨rounds, rfl⟩ : ∃ less, rounds = less + 1 := ⟨rounds - 1, by omega⟩
  cases session with
  | upload uploader opens =>
      rw [Session.serve, Uploader.converse]
      dsimp only [Uploader.datagram]
      rw [none_]
  | download client request => rw [Session.serve, none_]

section Serving

variable {server : Server Address} {files : CText → Option (List UInt8)}

private theorem serve_upload (represents : Represents server ⟨files, true⟩)
    {uploader : Uploader Address} (closed : uploader.request.Closed) (opens : Bool) {rounds : Nat}
    (enough : uploader.blocks + 2 ≤ rounds) :
    ∃ final, (Session.upload uploader opens).serve rounds server =
        some (final, (FileStore.ask ⟨files, true⟩ (Session.upload uploader opens).asked).2) ∧
      Represents final (FileStore.ask ⟨files, true⟩ (Session.upload uploader opens).asked).1 := by
  have listens : server.control = .listens := represents.control
  have same : server.tftp.files = files := represents.files
  cases opens with
  | false =>
      obtain ⟨rounds, rfl⟩ : ∃ less, rounds = less + 1 := ⟨rounds - 1, by omega⟩
      obtain ⟨final, served, stillListens, stored⟩ := put_refused listens closed rounds
      exact ⟨final, served, represents_up stillListens (stored.trans same)⟩
  | true =>
      obtain ⟨final, served, stillListens, stored⟩ := put_stored listens closed enough
      rw [same] at stored
      exact ⟨final, served, represents_up stillListens stored⟩

private theorem serve_download (represents : Represents server ⟨files, true⟩) (client : Address)
    {request : Request} {rounds : Nat}
    (enough : (Session.download client request).needs ⟨files, true⟩ ≤ rounds) :
    ∃ final, (Session.download client request).serve rounds server =
        some (final, (FileStore.ask ⟨files, true⟩ (.get request.filename)).2) ∧
      Represents final (FileStore.ask ⟨files, true⟩ (.get request.filename)).1 := by
  have listens : server.control = .listens := represents.control
  have same : server.tftp.files = files := represents.files
  unfold Session.needs at enough
  dsimp only at enough
  unfold FileStore.ask
  dsimp only
  rw [if_pos rfl]
  cases found : files request.filename with
  | none =>
      obtain ⟨rounds, rfl⟩ : ∃ less, rounds = less + 1 := by
        rw [found] at enough
        change 1 ≤ rounds at enough
        exact ⟨rounds - 1, by omega⟩
      obtain ⟨final, served, stillListens, stored⟩ :=
        @get_missing _ _ client server listens request (same ▸ found) rounds
      exact ⟨final, served, represents_up stillListens (stored.trans same)⟩
  | some content =>
      rw [found] at enough
      obtain ⟨final, stored, outcome⟩ :=
        @get_stored _ _ client content server listens request (same ▸ found) rounds enough
      by_cases multiple : content.length % blockSize = 0
      · rw [if_pos multiple] at outcome
        dsimp only
        rw [if_pos multiple]
        exact ⟨final, outcome.1, outcome.2, stored.trans same⟩
      · rw [if_neg multiple] at outcome
        dsimp only
        rw [if_neg multiple]
        exact ⟨final, outcome.1, represents_up outcome.2 (stored.trans same)⟩

/-- What one client gets, and what the server has of the store then. -/
theorem Represents.serve {store : FileStore} (represents : Represents server store)
    {session : Session Address} (closed : session.Closed) {rounds : Nat}
    (enough : session.needs store ≤ rounds) :
    ∃ final, session.serve rounds server = some (final, (store.ask session.asked).2) ∧
      Represents final (store.ask session.asked).1 := by
  have positive := session.needs_pos store
  obtain ⟨files, up⟩ := store
  cases up with
  | false => exact ⟨server, serve_stopped represents.control session (by omega), represents⟩
  | true =>
      cases session with
      | upload uploader opens => exact serve_upload represents closed opens enough
      | download client request => exact serve_download represents client enough

end Serving

private theorem serveAll_represents {store : FileStore} {sessions : List (Session Address)}
    (closed : ∀ session ∈ sessions, session.Closed) :
    ∃ enough, ∀ rounds, enough ≤ rounds → ∀ server : Server Address, Represents server store →
      ∃ final, serveAll rounds server sessions =
          some (final, (store.askAll (sessions.map Session.asked)).2) ∧
        Represents final (store.askAll (sessions.map Session.asked)).1 := by
  induction sessions generalizing store with
  | nil => exact ⟨0, fun rounds _ server represents => ⟨server, rfl, represents⟩⟩
  | cons session sessions ih =>
      rw [List.forall_mem_cons] at closed
      obtain ⟨enough, further⟩ := @ih (store.ask session.asked).1 closed.2
      refine ⟨max (session.needs store) enough, ?_⟩
      intro rounds many server represents
      obtain ⟨next, served, represented⟩ :=
        represents.serve closed.1 ((Nat.le_max_left _ _).trans many)
      obtain ⟨final, servedAll, last⟩ :=
        further rounds ((Nat.le_max_right _ _).trans many) next represented
      refine ⟨final, ?_, last⟩
      rw [serveAll, served]
      dsimp only [Option.bind_eq_bind, Option.bind_some]
      rw [servedAll]
      rfl

/-- Clients that come one after another get from the server what they would get
from a store of files, and leave in it what they would leave there. -/
theorem tftpd_store (start : Start Address) {sessions : List (Session Address)}
    (closed : ∀ session ∈ sessions, session.Closed) :
    ∃ enough, ∀ rounds, enough ≤ rounds → ∃ final,
      serveAll rounds (tftpd start).initial sessions =
          some (final, (FileStore.askAll ⟨start.files, true⟩ (sessions.map Session.asked)).2) ∧
        Represents final (FileStore.askAll ⟨start.files, true⟩ (sessions.map Session.asked)).1 := by
  obtain ⟨enough, serves⟩ := @serveAll_represents _ _ ⟨start.files, true⟩ _ closed
  exact ⟨enough, fun rounds many => serves rounds many (tftpd start).initial ⟨rfl, rfl⟩⟩

/-- A client writes a file of two bytes and another one reads it. -/
def writtenAndRead : List (Session Nat) :=
  [.upload { address := 1, request := requestForF, file := [104, 105] } true,
    .download 2 requestForF]

theorem tftpd_store_two :
    ∃ enough, ∀ rounds, enough ≤ rounds → ∃ final,
      serveAll rounds (tftpd emptyHost).initial writtenAndRead =
          some (final, (FileStore.askAll ⟨emptyHost.files, true⟩
            (writtenAndRead.map Session.asked)).2) ∧
        Represents final (FileStore.askAll ⟨emptyHost.files, true⟩
          (writtenAndRead.map Session.asked)).1 :=
  tftpd_store emptyHost (by
    intro session member
    simp only [writtenAndRead, List.mem_cons, List.not_mem_nil, or_false] at member
    rcases member with rfl | rfl
    · exact .inl rfl
    · trivial)

end Tftp

end DlcServer
