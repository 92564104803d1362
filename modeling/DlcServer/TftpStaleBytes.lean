/-
What the bytes of former packets do.

`recvfrom` leaves in `m_buffer` what a datagram does not fill.  The opcode, the
block number and the strings of a request are read from the buffer as if it held
a whole packet, so that a short datagram is completed by what was there before.
-/

import DlcServer.TftpClients
import DlcServer.TftpRequests

namespace DlcServer

open Library

namespace Tftp

variable {Address : Type}

/-! ### The reaction to a datagram -/

/-- The two calls of `recvfrom` that fill `m_buffer`. -/
inductive Reception
  | run
  | processWrite (nextBlockNum : Nat)
  deriving DecidableEq

namespace Reception

def control : Reception → Control
  | .run => .listens
  | .processWrite nextBlockNum => .writes nextBlockNum

/-- From the receipt to the next `recvfrom`. -/
def go (reception : Reception) (tftp : Members Address) (opens sends : Bool) : Server Address :=
  match reception with
  | .run => .parseRq tftp (-1) opens sends
  | .processWrite nextBlockNum =>
      .writing (Tftp.processWrite tftp nextBlockNum) opens sends

private theorem go_step (reception : Reception) (tftp : Members Address) (source : Address)
    (bytes : List UInt8) (opens sends : Bool) :
    (Server.mk tftp reception.control).step
        { received := .datagram source bytes, opens := opens, sends := sends } =
      some (reception.go (tftp.receive source bytes) opens sends) := by
  cases reception with
  | run => rfl
  | processWrite nextBlockNum => rfl

/-- A packet with this opcode goes to `parse_wrq` or `parse_rrq`. -/
def parses (reception : Reception) (code : Nat) : Prop :=
  match reception with
  | .run => code = cmdWrq ∨ code = cmdRrq
  | .processWrite nextBlockNum => (code = cmdWrq ∧ nextBlockNum ≠ 1) ∨ code = cmdRrq

instance (reception : Reception) (code : Nat) : Decidable (reception.parses code) :=
  match reception with
  | .run => inferInstanceAs (Decidable (_ ∨ _))
  | .processWrite _ => inferInstanceAs (Decidable (_ ∨ _))

/-- A packet with this opcode has its block number acknowledged. -/
def acks (reception : Reception) (code : Nat) : Prop :=
  match reception with
  | .run => False
  | .processWrite _ => code = cmdData

instance (reception : Reception) (code : Nat) : Decidable (reception.acks code) :=
  match reception with
  | .run => inferInstanceAs (Decidable False)
  | .processWrite _ => inferInstanceAs (Decidable (_ = _))

end Reception

/-- The members without `m_buffer`. -/
def Members.forget (tftp : Members Address) : Members Address :=
  { tftp with buffer := [] }

def Server.forget (server : Server Address) : Server Address :=
  { server with tftp := server.tftp.forget }

/-- What a packet is taken for, and where the server comes to with it. -/
structure Reaction (Address : Type) where
  opcode : Nat
  /-- The argument of `on_write` or `on_read`. -/
  filename : Option CText
  /-- Whether a write request that opens its file is seen to ask for another block size. -/
  option : Option Bool
  /-- The number that is acknowledged. -/
  blockNum : Option Nat
  after : Server Address

def reaction (reception : Reception) (tftp : Members Address) (opens sends : Bool) :
    Reaction Address :=
  let code := command tftp.buffer
  let request := if reception.parses code then requestIn tftp.buffer else none
  { opcode := code
    filename := request.map Prod.fst
    option := request.bind fun found =>
      if code = cmdWrq ∧ opens = true then optionIn tftp found.2 else none
    blockNum := if reception.acks code then some (number tftp.buffer) else none
    after := (reception.go tftp opens sends).forget }

/-! ### Determined by the datagram -/

/-- The same members with another buffer. -/
def Members.on (tftp : Members Address) (buffer : List UInt8) : Members Address :=
  { tftp with buffer := buffer }

/-- The datagram as it is received, with nothing behind it. -/
def Members.alone (tftp : Members Address) (source : Address) (bytes : List UInt8) :
    Members Address :=
  (tftp.receive source bytes).on (bytes.take dataSizeMax)

/-- The reaction does not depend on what was in the buffer, is the one to the
datagram alone, and no string function leaves the buffer. -/
structure Determined (reception : Reception) (tftp : Members Address) (source : Address)
    (bytes : List UInt8) (opens sends : Bool) : Prop where
  same : ∀ first second : List UInt8, first.length = dataSizeMax → second.length = dataSizeMax →
    reaction reception ((tftp.on first).receive source bytes) opens sends =
      reaction reception ((tftp.on second).receive source bytes) opens sends
  alone : ∀ former : List UInt8, former.length = dataSizeMax →
    reaction reception ((tftp.on former).receive source bytes) opens sends =
      reaction reception (tftp.alone source bytes) opens sends
  inside : ∀ former : List UInt8, former.length = dataSizeMax →
    (reception.go ((tftp.on former).receive source bytes) opens sends).control ≠ .faulted

/-- The received bytes hold all that is read: the opcode, the number of a DATA
packet, the two strings of a request, and so much behind them as the comparison
with the option needs. -/
structure Legible (reception : Reception) (received : List UInt8) (opens : Bool) : Prop where
  opcode : 2 ≤ received.length
  blockNum : reception.acks (command received) → 4 ≤ received.length
  strings : reception.parses (command received) → requestIn received ≠ none
  option : ∀ filename rest, reception.parses (command received) →
    requestIn received = some (filename, rest) → command received = cmdWrq → opens = true →
      rest ≠ [] → strcmp rest (text "blksize") ≠ none

/-! ### Strings with something behind them -/

private theorem cString_behind {memory rest : List UInt8} {string : CText}
    (found : cString memory = some (string, rest)) (stale : List UInt8) :
    cString (memory ++ stale) = some (string, rest ++ stale) := by
  induction memory generalizing string with
  | nil => cases found
  | cons byte memory ih =>
      rw [cString] at found
      rw [List.cons_append, cString]
      by_cases nul : byte = 0
      · rw [if_pos nul] at found ⊢
        cases found
        rfl
      · rw [if_neg nul] at found ⊢
        cases more : cString memory with
        | none => simp [more] at found
        | some inner =>
            rcases inner with ⟨tail, behind⟩
            simp only [more, Option.map_some, Option.some.injEq, Prod.mk.injEq] at found
            rcases found with ⟨rfl, rfl⟩
            rw [ih more]
            rfl

private theorem cString_unended {memory stale : List UInt8} (missing : cString memory = none)
    (unended : cString stale = none) : cString (memory ++ stale) = none := by
  induction memory with
  | nil => exact unended
  | cons byte memory ih =>
      rw [cString] at missing
      rw [List.cons_append, cString]
      by_cases nul : byte = 0
      · rw [if_pos nul] at missing
        cases missing
      · rw [if_neg nul] at missing ⊢
        rw [ih (Option.map_eq_none_iff.mp missing)]
        rfl

private theorem cString_ones (count : Nat) : cString (List.replicate count 1) = none := by
  induction count with
  | zero => rfl
  | succ count ih =>
      rw [List.replicate_succ, cString, if_neg (by decide), ih]
      rfl

private theorem strcmp_behind {memory : List UInt8} {word : CText} {equal : Bool}
    (compared : strcmp memory word = some equal) (stale : List UInt8) :
    strcmp (memory ++ stale) word = some equal := by
  induction memory generalizing word with
  | nil => cases word <;> cases compared
  | cons byte memory ih =>
      cases word with
      | nil => exact compared
      | cons letter word =>
          rw [strcmp] at compared
          rw [List.cons_append, strcmp]
          by_cases same : byte = letter
          · rw [if_pos same] at compared ⊢
            exact ih compared
          · rw [if_neg same] at compared ⊢
            exact compared

private theorem strcmp_goes_on {memory : List UInt8} {word : CText}
    (open_ : strcmp memory word = none) (stale : List UInt8) :
    strcmp (memory ++ stale) word = strcmp stale (word.drop memory.length) := by
  induction memory generalizing word with
  | nil => rfl
  | cons byte memory ih =>
      cases word with
      | nil => cases open_
      | cons letter word =>
          rw [strcmp] at open_
          rw [List.cons_append, strcmp]
          by_cases same : byte = letter
          · rw [if_pos same] at open_ ⊢
            exact ih open_
          · rw [if_neg same] at open_
            cases open_

private theorem strcmp_ones {word : CText} (letters : 1 ∉ word) (count : Nat) :
    strcmp (List.replicate count 1) word ≠ some true := by
  cases count with
  | zero => cases word <;> exact nofun
  | succ count =>
      cases word with
      | nil => exact nofun
      | cons letter word =>
          have other : (1 : UInt8) ≠ letter := fun same => letters (by simp [same])
          rw [List.replicate_succ, strcmp, if_neg other]
          exact nofun

private theorem strcmp_completed (word : CText) (room more : Nat) :
    strcmp ((word ++ List.replicate (more + 1) 0).take room) word ≠ some false := by
  induction word generalizing room with
  | nil =>
      cases room with
      | zero => exact nofun
      | succ room => exact nofun
  | cons letter word ih =>
      cases room with
      | zero => exact nofun
      | succ room =>
          rw [List.cons_append, List.take_succ_cons, strcmp, if_pos rfl]
          exact ih room

private theorem strcmp_undecided {word : CText} {room more : Nat} (letters : 1 ∉ word)
    (same : strcmp (List.replicate room 1) word =
      strcmp ((word ++ List.replicate (more + 1) 0).take room) word) :
    strcmp (List.replicate room 1) word = none := by
  have notTrue := strcmp_ones letters room
  have notFalse := strcmp_completed word room more
  rw [← same] at notFalse
  cases outcome : strcmp (List.replicate room 1) word with
  | none => rfl
  | some equal =>
      cases equal with
      | false => exact absurd outcome notFalse
      | true => exact absurd outcome notTrue

private theorem requestIn_behind {received rest : List UInt8} {filename : CText}
    (found : requestIn received = some (filename, rest)) (stale : List UInt8) :
    requestIn (received ++ stale) = some (filename, rest ++ stale) := by
  rcases requestIn_eq_some found with ⟨afterName, mode, named, moded⟩
  have long : 2 ≤ received.length := by
    refine Nat.le_of_not_lt fun short => ?_
    rw [List.drop_eq_nil_of_le (Nat.le_of_lt short)] at named
    cases named
  have namedBehind := cString_behind named stale
  rw [← List.drop_append_of_le_length long] at namedBehind
  exact requestIn_of_strings namedBehind (cString_behind moded stale)

private theorem requestIn_unended {received : List UInt8} (missing : requestIn received = none)
    (long : 2 ≤ received.length) (count : Nat) :
    requestIn (received ++ List.replicate count 1) = none := by
  unfold requestIn at missing ⊢
  rw [List.drop_append_of_le_length long]
  cases named : cString (received.drop 2) with
  | none => rw [cString_unended named (cString_ones count)]
  | some first =>
      rcases first with ⟨name, afterName⟩
      simp only [named] at missing
      rw [cString_behind named]
      simp only [cString_unended (Option.map_eq_none_iff.mp missing) (cString_ones count),
        Option.map_none]

/-! ### Two buffers -/

/-- Another buffer holds a request for the same file with the same option. -/
def SameRequest (tftp : Members Address) (buffer : List UInt8) (opens : Bool) : Prop :=
  ∃ filename ptr other, requestIn tftp.buffer = some (filename, ptr) ∧
    requestIn buffer = some (filename, other) ∧
    (command tftp.buffer = cmdWrq → opens = true →
      ∃ asked, optionIn tftp ptr = some asked ∧ optionIn (tftp.on buffer) other = some asked)

structure SamePacket (reception : Reception) (tftp : Members Address) (buffer : List UInt8)
    (opens : Bool) : Prop where
  opcode : command buffer = command tftp.buffer
  data : reception.acks (command tftp.buffer) → number buffer = number tftp.buffer ∧
    packetData (tftp.on buffer) = packetData tftp ∧ 4 ≤ tftp.dataSize
  request : reception.parses (command tftp.buffer) → SameRequest tftp buffer opens

private theorem reading_not_faulted (turned : Members Address × ReadTurn) :
    (Server.reading turned).control ≠ .faulted := by
  rcases Server.reading_control turned with ⟨blockNum, r, reads⟩ | stopped | listens
  · simp [reads]
  · simp [stopped]
  · simp [listens]

private theorem runReturns_not_faulted (tftp : Members Address) (result : Int) :
    (Server.runReturns tftp result).control ≠ .faulted := by
  rcases Server.runReturns_control tftp result with stopped | listens
  · simp [stopped]
  · simp [listens]

private theorem processRead_on (tftp : Members Address) (buffer : List UInt8) (blockNum : Nat)
    (sends : Bool) :
    (Server.reading (processRead (tftp.on buffer) blockNum sends)).forget =
      (Server.reading (processRead tftp blockNum sends)).forget := by
  have packet : ∀ stale : List UInt8,
      (header cmdData blockNum ++ (tftp.filefdR.take blockSize ++ stale)).take
          ((tftp.filefdR.take blockSize).length + 4) =
        header cmdData blockNum ++ tftp.filefdR.take blockSize := by
    intro stale
    rw [← List.append_assoc]
    refine List.take_left' ?_
    rw [List.length_append, header_length, Nat.add_comm]
  have unread : (tftp.on buffer).filefdR = tftp.filefdR := rfl
  unfold processRead
  rw [unread]
  by_cases ended : tftp.filefdR.take blockSize = []
  · simp only [if_pos ended]
    rfl
  · simp only [if_neg ended, sendBlock, packet]
    cases sends with
    | false => rfl
    | true => rfl

private theorem onRead_on (tftp : Members Address) (buffer : List UInt8) (filename : CText)
    (opens : Bool) :
    (tftp.on buffer).onRead filename opens =
      (tftp.onRead filename opens).map (fun opened => opened.on buffer) := by
  unfold Members.onRead
  have files : (tftp.on buffer).files filename = tftp.files filename := rfl
  rw [files]
  cases tftp.files filename with
  | none => rfl
  | some content =>
      cases opens with
      | false => rfl
      | true => rfl

private theorem parseRq_on {tftp : Members Address} {buffer : List UInt8} {opens : Bool}
    (opcode : command buffer = command tftp.buffer)
    (request : command tftp.buffer = cmdWrq ∨ command tftp.buffer = cmdRrq →
      SameRequest tftp buffer opens) (result : Int) (sends : Bool) :
    (Server.parseRq (tftp.on buffer) result opens sends).forget =
        (Server.parseRq tftp result opens sends).forget ∧
      (Server.parseRq (tftp.on buffer) result opens sends).control ≠ .faulted := by
  have there : (tftp.on buffer).buffer = buffer := rfl
  unfold Server.parseRq
  rw [there, opcode]
  by_cases isWrite : command tftp.buffer = cmdWrq
  · rw [if_pos isWrite, if_pos isWrite]
    rcases request (.inl isWrite) with ⟨filename, ptr, other, found, foundToo, option⟩
    cases opens with
    | false =>
        simp only [parseWrq_eq, there, found, foundToo, Bool.false_eq_true, if_false]
        exact ⟨rfl, runReturns_not_faulted _ _⟩
    | true =>
        rcases option isWrite rfl with ⟨asked, seen, seenToo⟩
        simp only [parseWrq_eq, there, found, foundToo, seen, seenToo, if_true]
        exact ⟨rfl, nofun⟩
  · rw [if_neg isWrite, if_neg isWrite]
    by_cases isRead : command tftp.buffer = cmdRrq
    · rw [if_pos isRead, if_pos isRead]
      rcases request (.inr isRead) with ⟨filename, ptr, other, found, foundToo, _⟩
      simp only [parseRrq_eq, there, found, foundToo, onRead_on]
      cases tftp.onRead filename opens with
      | none => exact ⟨rfl, runReturns_not_faulted _ _⟩
      | some opened => exact ⟨processRead_on opened buffer 1 sends, reading_not_faulted _⟩
    · rw [if_neg isRead, if_neg isRead]
      by_cases returns : result ≤ 0
      · rw [if_pos returns, if_pos returns]
        exact ⟨rfl, runReturns_not_faulted _ _⟩
      · rw [if_neg returns, if_neg returns]
        exact ⟨rfl, nofun⟩

private theorem onWriteData_on (tftp : Members Address) (buffer data : List UInt8) :
    (tftp.on buffer).onWriteData data = (tftp.onWriteData data).on buffer := by
  rcases tftp with ⟨client, own, dataSize, files, filefd, filefdR, fetched, sent⟩
  cases filefd with
  | none => rfl
  | some filename => rfl

private theorem writing_on (tftp : Members Address) (buffer : List UInt8) (next : Nat)
    (size : Members Address) (opens sends : Bool) :
    (Server.writing (tftp.on buffer, afterData size next) opens sends).forget =
        (Server.writing (tftp, afterData size next) opens sends).forget ∧
      (Server.writing (tftp.on buffer, afterData size next) opens sends).control ≠ .faulted := by
  unfold afterData
  by_cases short : size.dataSize < dataSizeMax
  · rw [if_pos short]
    exact ⟨rfl, runReturns_not_faulted _ _⟩
  · rw [if_neg short]
    exact ⟨rfl, nofun⟩

theorem SamePacket.go {reception : Reception} {tftp : Members Address} {buffer : List UInt8}
    {opens : Bool} (same : SamePacket reception tftp buffer opens) (sends : Bool) :
    (reception.go (tftp.on buffer) opens sends).forget = (reception.go tftp opens sends).forget ∧
      (reception.go (tftp.on buffer) opens sends).control ≠ .faulted := by
  cases reception with
  | run => exact parseRq_on same.opcode same.request (-1) sends
  | processWrite nextBlockNum =>
      have there : (tftp.on buffer).buffer = buffer := rfl
      unfold Reception.go processWrite
      rw [there, same.opcode]
      by_cases isData : command tftp.buffer = cmdData
      · rcases same.data isData with ⟨number_, data, whole⟩
        have notShort : ¬ tftp.dataSize < 4 := Nat.not_lt.mpr whole
        have size : (tftp.on buffer).dataSize = tftp.dataSize := rfl
        have acked : (tftp.on buffer).sendAck (number tftp.buffer) =
            (tftp.sendAck (number tftp.buffer)).on buffer := rfl
        simp only [isData, ne_eq, not_true_eq_false, if_false, number_, data, size, acked,
          if_neg notShort, onWriteData_on]
        by_cases old : number tftp.buffer < nextBlockNum
        · simp only [if_pos old]
          exact writing_on _ _ _ _ _ _
        · simp only [if_neg old]
          exact writing_on _ _ _ _ _ _
      · simp only [ne_eq, isData, not_false_eq_true, if_true]
        by_cases repeated : command tftp.buffer = cmdWrq ∧ nextBlockNum = 1
        · simp only [if_pos repeated]
          exact ⟨rfl, nofun⟩
        · simp only [if_neg repeated]
          refine @parseRq_on _ tftp.onCloseW buffer opens same.opcode ?_ 1 sends
          rintro (isWrite | isRead)
          · exact same.request (.inl ⟨isWrite, fun first => repeated ⟨isWrite, first⟩⟩)
          · exact same.request (.inr isRead)

theorem SamePacket.reaction {reception : Reception} {tftp : Members Address}
    {buffer : List UInt8} {opens : Bool} (same : SamePacket reception tftp buffer opens)
    (sends : Bool) :
    reaction reception (tftp.on buffer) opens sends = reaction reception tftp opens sends := by
  have there : (tftp.on buffer).buffer = buffer := rfl
  unfold Tftp.reaction
  rw [(same.go sends).1, there, same.opcode]
  have number_ : (if reception.acks (command tftp.buffer) then some (number buffer) else none) =
      if reception.acks (command tftp.buffer) then some (number tftp.buffer) else none := by
    by_cases acks : reception.acks (command tftp.buffer)
    · rw [if_pos acks, if_pos acks, (same.data acks).1]
    · rw [if_neg acks, if_neg acks]
  by_cases parses : reception.parses (command tftp.buffer)
  · rcases same.request parses with ⟨filename, ptr, other, found, foundToo, option⟩
    simp only [if_pos parses, found, foundToo, Option.map_some, Option.bind_some, number_,
      Reaction.mk.injEq, true_and, and_true]
    by_cases asks : command tftp.buffer = cmdWrq ∧ opens = true
    · rcases option asks.1 asks.2 with ⟨asked, seen, seenToo⟩
      rw [if_pos asks, if_pos asks, seen, seenToo]
    · rw [if_neg asks, if_neg asks]
  · simp only [if_neg parses, number_, Option.bind_none]

/-! ### What is legible is determined -/

private theorem wordAt_behind {received : List UInt8} {offset : Nat} (inside : offset + 2 ≤ received.length)
    (stale : List UInt8) : wordAt (received ++ stale) offset = wordAt received offset := by
  unfold wordAt
  simp only [List.getD_eq_getElem?_getD]
  rw [List.getElem?_append_left (by omega), List.getElem?_append_left (by omega)]

private theorem optionIn_behind {tftp : Members Address} {filename : CText} {rest : List UInt8}
    (size : tftp.dataSize = tftp.buffer.length)
    (found : requestIn tftp.buffer = some (filename, rest))
    (legible : rest ≠ [] → strcmp rest (text "blksize") ≠ none) (stale : List UInt8) :
    ∃ asked, optionIn tftp rest = some asked ∧
      optionIn (tftp.on (tftp.buffer ++ stale)) (rest ++ stale) = some asked := by
  have position : (tftp.buffer ++ stale).length - (rest ++ stale).length =
      tftp.buffer.length - rest.length := by
    rw [List.length_append, List.length_append]
    omega
  unfold optionIn
  have there : (tftp.on (tftp.buffer ++ stale)).buffer = tftp.buffer ++ stale := rfl
  have sizeToo : (tftp.on (tftp.buffer ++ stale)).dataSize = tftp.dataSize := rfl
  rw [there, sizeToo, position]
  by_cases more : tftp.buffer.length - rest.length < tftp.dataSize
  · rw [if_pos more, if_pos more]
    have some_ : rest ≠ [] := by
      rintro rfl
      rw [List.length_nil] at more
      omega
    rcases Option.ne_none_iff_exists'.mp (legible some_) with ⟨asked, compared⟩
    exact ⟨asked, compared, strcmp_behind compared stale⟩
  · rw [if_neg more, if_neg more]
    exact ⟨false, rfl, rfl⟩

private theorem Legible.samePacket {reception : Reception} {tftp : Members Address} {opens : Bool}
    (size : tftp.dataSize = tftp.buffer.length)
    (legible : Legible reception tftp.buffer opens) (stale : List UInt8) :
    SamePacket reception tftp (tftp.buffer ++ stale) opens := by
  constructor
  · exact wordAt_behind legible.opcode stale
  · intro acks
    have whole := legible.blockNum acks
    refine ⟨wordAt_behind whole stale, ?_, by omega⟩
    have sizeToo : (tftp.on (tftp.buffer ++ stale)).dataSize = tftp.dataSize := rfl
    have there : (tftp.on (tftp.buffer ++ stale)).buffer = tftp.buffer ++ stale := rfl
    unfold packetData
    rw [sizeToo, there, List.drop_append_of_le_length whole, size]
    rw [List.take_append_of_le_length (by rw [List.length_drop])]
  · intro parses
    rcases Option.ne_none_iff_exists'.mp (legible.strings parses) with ⟨⟨filename, rest⟩, found⟩
    refine ⟨filename, rest, rest ++ stale, found, requestIn_behind found stale, ?_⟩
    intro isWrite can
    exact optionIn_behind size found (legible.option filename rest parses found isWrite can) stale

private theorem receive_on (tftp : Members Address) (former : List UInt8) (source : Address)
    (bytes : List UInt8) :
    (tftp.on former).receive source bytes =
      (tftp.alone source bytes).on
        ((tftp.alone source bytes).buffer ++ former.drop (bytes.take dataSizeMax).length) :=
  rfl

private theorem determined_of_legible {reception : Reception} {tftp : Members Address}
    {source : Address} {bytes : List UInt8} {opens : Bool}
    (legible : Legible reception (bytes.take dataSizeMax) opens) (sends : Bool) :
    Determined reception tftp source bytes opens sends := by
  have packet : ∀ stale, SamePacket reception (tftp.alone source bytes)
      ((tftp.alone source bytes).buffer ++ stale) opens :=
    @Legible.samePacket _ reception (tftp.alone source bytes) opens rfl legible
  have alone : ∀ former : List UInt8,
      reaction reception ((tftp.on former).receive source bytes) opens sends =
        reaction reception (tftp.alone source bytes) opens sends := by
    intro former
    rw [receive_on]
    exact (packet _).reaction sends
  constructor
  · intro first second _ _
    exact (alone first).trans (alone second).symm
  · intro former _
    exact alone former
  · intro former _
    rw [receive_on]
    exact ((packet _).go sends).2

/-! ### What is determined is legible -/

private theorem Reception.parses_request {reception : Reception} {code : Nat}
    (parses : reception.parses code) : code = cmdWrq ∨ code = cmdRrq := by
  cases reception with
  | run => exact parses
  | processWrite nextBlockNum =>
      rcases parses with ⟨isWrite, _⟩ | isRead
      · exact .inl isWrite
      · exact .inr isRead

private theorem Reception.go_of_parses {reception : Reception} {tftp : Members Address}
    (parses : reception.parses (command tftp.buffer)) (opens sends : Bool) :
    ∃ closed result, reception.go tftp opens sends = .parseRq closed result opens sends ∧
      closed.buffer = tftp.buffer ∧ closed.dataSize = tftp.dataSize := by
  cases reception with
  | run => exact ⟨tftp, -1, rfl, rfl, rfl⟩
  | processWrite nextBlockNum =>
      have notData : command tftp.buffer ≠ cmdData := by
        rcases parses_request parses with isWrite | isRead
        · rw [isWrite]
          decide
        · rw [isRead]
          decide
      have notRepeated : ¬ (command tftp.buffer = cmdWrq ∧ nextBlockNum = 1) := by
        rintro ⟨isWrite, first⟩
        rcases parses with ⟨_, later⟩ | isRead
        · exact later first
        · exact absurd (isWrite.symm.trans isRead) (by decide)
      refine ⟨tftp.onCloseW, 1, ?_, rfl, rfl⟩
      simp only [go, Tftp.processWrite, if_pos notData, if_neg notRepeated, Server.writing]
      rw [if_neg (by decide)]

private theorem Reception.go_missing {reception : Reception} {tftp : Members Address}
    (parses : reception.parses (command tftp.buffer)) (missing : requestIn tftp.buffer = none)
    (opens sends : Bool) : (reception.go tftp opens sends).control = .faulted := by
  rcases go_of_parses parses opens sends with ⟨closed, result, same, buffer, _⟩
  rw [← buffer] at missing
  simp only [same, Server.parseRq, parseWrq_eq, parseRrq_eq, missing]
  rw [buffer]
  rcases parses_request parses with isWrite | isRead
  · rw [if_pos isWrite]
  · have notWrite : command tftp.buffer ≠ cmdWrq := by
      rw [isRead]
      decide
    rw [if_neg notWrite, if_pos isRead]

private theorem Reception.go_leaves {reception : Reception} {tftp : Members Address} {filename : CText}
    {ptr : List UInt8} (parses : reception.parses (command tftp.buffer))
    (isWrite : command tftp.buffer = cmdWrq)
    (found : requestIn tftp.buffer = some (filename, ptr)) (leaves : optionIn tftp ptr = none)
    (sends : Bool) : (reception.go tftp true sends).control = .faulted := by
  rcases go_of_parses parses true sends with ⟨closed, result, same, buffer, size⟩
  have leavesToo : optionIn closed ptr = none := by
    unfold optionIn at leaves ⊢
    rw [buffer, size]
    exact leaves
  rw [← buffer] at found
  simp only [same, Server.parseRq, parseWrq_eq, found, leavesToo, if_true]
  rw [buffer, if_pos isWrite]

private theorem reaction_option {reception : Reception} {tftp : Members Address} {filename : CText}
    {ptr : List UInt8} (parses : reception.parses (command tftp.buffer))
    (isWrite : command tftp.buffer = cmdWrq)
    (found : requestIn tftp.buffer = some (filename, ptr)) (sends : Bool) :
    (reaction reception tftp true sends).option = optionIn tftp ptr := by
  have parsesWrite : reception.parses cmdWrq := by
    rw [← isWrite]
    exact parses
  simp only [reaction, isWrite, if_pos parsesWrite, found, Option.bind_some, and_self, if_true]

private theorem wordAt_filled {received : List UInt8} {offset room : Nat} (value : UInt8)
    (short : received.length ≤ offset + 1) (inside : offset + 1 < received.length + room) :
    wordAt (received ++ List.replicate room value) offset % 256 = value.toNat := by
  have low : (received ++ List.replicate room value).getD (offset + 1) 0 = value := by
    rw [List.getD_eq_getElem?_getD, List.getElem?_append_right short,
      List.getElem?_replicate_of_lt (by omega)]
    rfl
  have byte := value.toNat_lt
  unfold wordAt
  rw [low]
  omega

section Necessity

variable {reception : Reception} {tftp : Members Address} {source : Address}
  {bytes : List UInt8} {opens sends : Bool}

private theorem receive_replicate (tftp : Members Address) (source : Address) (bytes : List UInt8)
    (value : UInt8) :
    ((tftp.on (List.replicate dataSizeMax value)).receive source bytes).buffer =
      bytes.take dataSizeMax ++
        List.replicate (dataSizeMax - (bytes.take dataSizeMax).length) value := by
  rw [receive_on, ← List.drop_replicate]
  rfl

private theorem Determined.zeros_ones (determined : Determined reception tftp source bytes opens sends) :
    reaction reception ((tftp.on (List.replicate dataSizeMax 0)).receive source bytes) opens sends =
      reaction reception ((tftp.on (List.replicate dataSizeMax 1)).receive source bytes) opens
        sends :=
  determined.same _ _ List.length_replicate List.length_replicate

private theorem received_le (bytes : List UInt8) : (bytes.take dataSizeMax).length ≤ dataSizeMax := by
  rw [List.length_take]
  exact Nat.min_le_left _ _

private theorem word_received {offset : Nat} (low : offset + 1 < dataSizeMax)
    (same : wordAt (bytes.take dataSizeMax ++
        List.replicate (dataSizeMax - (bytes.take dataSizeMax).length) 0) offset =
      wordAt (bytes.take dataSizeMax ++
        List.replicate (dataSizeMax - (bytes.take dataSizeMax).length) 1) offset) :
    offset + 2 ≤ (bytes.take dataSizeMax).length := by
  refine Nat.le_of_not_lt fun short => ?_
  have fits := received_le bytes
  have zero := @wordAt_filled (bytes.take dataSizeMax) offset
    (dataSizeMax - (bytes.take dataSizeMax).length) 0 (by omega) (by omega)
  have one := @wordAt_filled (bytes.take dataSizeMax) offset
    (dataSizeMax - (bytes.take dataSizeMax).length) 1 (by omega) (by omega)
  rw [same, one] at zero
  exact absurd zero (by decide)

theorem Determined.opcode (determined : Determined reception tftp source bytes opens sends) :
    2 ≤ (bytes.take dataSizeMax).length := by
  have same := congrArg Reaction.opcode determined.zeros_ones
  unfold reaction at same
  rw [receive_replicate, receive_replicate] at same
  exact word_received (by decide) same

private theorem command_receive (long : 2 ≤ (bytes.take dataSizeMax).length) (former : List UInt8) :
    command ((tftp.on former).receive source bytes).buffer =
      command (bytes.take dataSizeMax) :=
  wordAt_behind long _

theorem Determined.blockNum (determined : Determined reception tftp source bytes opens sends)
    (acks : reception.acks (command (bytes.take dataSizeMax))) :
    4 ≤ (bytes.take dataSizeMax).length := by
  have long := determined.opcode
  have same := congrArg Reaction.blockNum determined.zeros_ones
  unfold reaction at same
  rw [command_receive long, command_receive long] at same
  simp only [if_pos acks, Option.some.injEq, receive_replicate] at same
  exact word_received (by decide) same

theorem Determined.strings (determined : Determined reception tftp source bytes opens sends)
    (parses : reception.parses (command (bytes.take dataSizeMax))) :
    requestIn (bytes.take dataSizeMax) ≠ none := by
  intro missing
  have long := determined.opcode
  refine determined.inside (List.replicate dataSizeMax 1) List.length_replicate
    (Reception.go_missing ?_ ?_ opens sends)
  · rw [command_receive long]
    exact parses
  · rw [receive_replicate]
    exact requestIn_unended missing long _

private theorem optionIn_receive {filename : CText} {rest : List UInt8}
    (found : requestIn (bytes.take dataSizeMax) = some (filename, rest)) (some_ : rest ≠ [])
    (open_ : strcmp rest (text "blksize") = none) (long : 2 ≤ (bytes.take dataSizeMax).length)
    (former : List UInt8) :
    ∃ ptr, requestIn ((tftp.on former).receive source bytes).buffer = some (filename, ptr) ∧
      optionIn ((tftp.on former).receive source bytes) ptr =
        strcmp (former.drop (bytes.take dataSizeMax).length)
          ((text "blksize").drop rest.length) := by
  refine ⟨rest ++ former.drop (bytes.take dataSizeMax).length, requestIn_behind found _, ?_⟩
  have more := List.length_pos_iff.mpr some_
  have there : ((tftp.on former).receive source bytes).buffer =
      bytes.take dataSizeMax ++ former.drop (bytes.take dataSizeMax).length := rfl
  have size : ((tftp.on former).receive source bytes).dataSize =
      (bytes.take dataSizeMax).length := rfl
  unfold optionIn
  rw [there, size, List.length_append, List.length_append, if_pos (by omega)]
  exact strcmp_goes_on open_ _

private theorem Determined.option {filename : CText} {rest : List UInt8}
    (determined : Determined reception tftp source bytes true sends)
    (parses : reception.parses (command (bytes.take dataSizeMax)))
    (found : requestIn (bytes.take dataSizeMax) = some (filename, rest))
    (isWrite : command (bytes.take dataSizeMax) = cmdWrq) (some_ : rest ≠ []) :
    strcmp rest (text "blksize") ≠ none := by
  intro open_
  have long := determined.opcode
  have fits := received_le bytes
  have opcode := @command_receive _ tftp source bytes long
  let spelt := ((text "blksize").drop rest.length ++ List.replicate (dataSizeMax + 1) 0).take
    (dataSizeMax - (bytes.take dataSizeMax).length)
  let spelling := List.replicate (bytes.take dataSizeMax).length 0 ++ spelt
  have whole : spelling.length = dataSizeMax := by
    simp only [spelling, spelt, List.length_append, List.length_take, List.length_replicate]
    omega
  have behind : spelling.drop (bytes.take dataSizeMax).length = spelt :=
    List.drop_left' List.length_replicate
  rcases @optionIn_receive _ tftp source bytes _ _ found some_ open_ long
    (List.replicate dataSizeMax 1) with ⟨ptr, foundOnes, seenOnes⟩
  rcases @optionIn_receive _ tftp source bytes _ _ found some_ open_ long spelling with
    ⟨other, foundSpelt, seenSpelt⟩
  have parsesHere : ∀ former,
      reception.parses (command ((tftp.on former).receive source bytes).buffer) := by
    intro former
    rw [opcode]
    exact parses
  have isWriteHere : ∀ former,
      command ((tftp.on former).receive source bytes).buffer = cmdWrq := by
    intro former
    rw [opcode]
    exact isWrite
  have same := congrArg Reaction.option
    (determined.same (List.replicate dataSizeMax 1) spelling List.length_replicate whole)
  rw [reaction_option (parsesHere _) (isWriteHere _) foundOnes,
    reaction_option (parsesHere _) (isWriteHere _) foundSpelt, seenOnes, seenSpelt, behind,
    List.drop_replicate] at same
  have letters : (1 : UInt8) ∉ (text "blksize").drop rest.length :=
    fun member => absurd (List.mem_of_mem_drop member) (by decide)
  have leaves : optionIn ((tftp.on (List.replicate dataSizeMax 1)).receive source bytes) ptr =
      none := by
    rw [seenOnes, List.drop_replicate]
    exact strcmp_undecided letters same
  exact determined.inside (List.replicate dataSizeMax 1) List.length_replicate
    (Reception.go_leaves (parsesHere _) (isWriteHere _) foundOnes leaves sends)

end Necessity

/-- The reaction to a datagram is determined by its bytes exactly when these hold
all that is read of the packet. -/
theorem determined_iff_legible (reception : Reception) (tftp : Members Address)
    (source : Address) (bytes : List UInt8) (opens sends : Bool) :
    Determined reception tftp source bytes opens sends ↔
      Legible reception (bytes.take dataSizeMax) opens := by
  constructor
  · intro determined
    constructor
    · exact determined.opcode
    · exact determined.blockNum
    · exact determined.strings
    · intro filename rest parses found isWrite can some_
      subst can
      exact determined.option parses found isWrite some_
  · intro legible
    exact determined_of_legible legible sends

/-- A server that receives a legible datagram in either place goes on as one with
any other `m_buffer`. -/
theorem step_of_legible {reception : Reception} {tftp : Members Address} {source : Address}
    {bytes buffer : List UInt8} {opens : Bool}
    (legible : Legible reception (bytes.take dataSizeMax) opens) (sends : Bool)
    (allocated : tftp.buffer.length = dataSizeMax) (full : buffer.length = dataSizeMax) :
    ((Server.mk tftp reception.control).step
        { received := .datagram source bytes, opens := opens, sends := sends }).map
          Server.forget =
      ((Server.mk (tftp.on buffer) reception.control).step
        { received := .datagram source bytes, opens := opens, sends := sends }).map
          Server.forget := by
  have determined := @determined_of_legible _ _ tftp source _ _ legible sends
  have same := congrArg Reaction.after (determined.same tftp.buffer buffer allocated full)
  rw [Reception.go_step, Reception.go_step]
  exact congrArg some same

/-! ### An empty datagram -/

set_option maxRecDepth 8192 in
/-- It is taken for the packet before it. -/
theorem empty_datagram_replays :
    ¬ ∀ (reception : Reception) (tftp : Members Nat) (source : Nat) (bytes : List UInt8)
      (opens sends : Bool), Determined reception tftp source bytes opens sends := by
  intro always
  have determined := always .run (Start.fresh fun _ => none).members 7 [] true true
  exact absurd determined.opcode (by decide)

end Tftp

end DlcServer
