/-
A file read from the TFTP server.

The client acknowledges every DATA packet with its number.  After `index`
acknowledgements the server has sent the first `index + 1` blocks and waits for
the next one; what it does when the file has no further bytes decides whether
the transfer ends with a short block or with an error.
-/

import DlcServer.TftpClients

namespace DlcServer

open Library

namespace Tftp

variable {Address : Type}

/-! ### The client -/

/-- The datagram that acknowledges the last packet, when that is a DATA packet. -/
def acknowledgement (client : Address) (server : Server Address) : Option (Event Address) :=
  match server.tftp.sent.getLast? with
  | none => none
  | some (_, packet) =>
      if command packet = cmdData then
        some
          { received := .datagram client (ackPacket (number packet))
            opens := true
            sends := true }
      else none

/-- The server after the next `count` DATA packets have been acknowledged. -/
def acknowledged (client : Address) (server : Server Address) : Nat → Option (Server Address)
  | 0 => some server
  | count + 1 => do
      let waiting ← acknowledged client server count
      let event ← acknowledgement client waiting
      waiting.step event

/-- What a served read request has come to, `before` counting the packets sent
until then: `process_read` has returned 0, and all packets are DATA packets that
carry the file and end with a short one. -/
structure Delivered (content : List UInt8) (before : Nat) (final : Server Address) : Prop where
  returned : final.control = .listens
  noError : ∀ packet ∈ final.tftp.sent.drop before, command packet.2 = cmdData
  whole : (final.tftp.sent.drop before).flatMap (fun packet => packet.2.drop 4) = content
  endsShort : ∃ full last, final.tftp.sent.drop before = full ++ [last] ∧
    (∀ packet ∈ full, (packet.2.drop 4).length = blockSize) ∧
      (last.2.drop 4).length < blockSize

def Downloads (client : Address) (content : List UInt8) (before : Nat)
    (server : Server Address) : Prop :=
  ∃ count final, acknowledged client server count = some final ∧ Delivered content before final

/-! ### Blocks sent -/

def blocksSent (client : Address) (content : List UInt8) (count : Nat) :
    List (Address × List UInt8) :=
  (List.range count).map (fun index => (client, dataPacket content index))

theorem blocksSent_succ (client : Address) (content : List UInt8) (count : Nat) :
    blocksSent client content (count + 1) =
      blocksSent client content count ++ [(client, dataPacket content count)] := by
  simp [blocksSent, List.range_succ]

private theorem blocksSent_payload (client : Address) (content : List UInt8) (count : Nat) :
    (blocksSent client content count).flatMap (fun packet => packet.2.drop 4) =
      content.take (count * blockSize) := by
  rw [blocksSent, List.flatMap_map]
  simp only [dataPacket_drop]
  exact flatMap_block blockSize content count

private theorem mem_blocksSent {client : Address} {content : List UInt8} {count : Nat}
    {packet : Address × List UInt8} (member : packet ∈ blocksSent client content count) :
    ∃ index < count, packet = (client, dataPacket content index) := by
  simp only [blocksSent, List.mem_map, List.mem_range] at member
  obtain ⟨index, inside, rfl⟩ := member
  exact ⟨index, inside, rfl⟩

/-! ### The server between two acknowledgements -/

/-- The block at `index` has been sent to `client` once and the server waits for
its acknowledgement. -/
structure Awaits (client : Address) (content : List UInt8)
    (before : List (Address × List UInt8)) (index : Nat) (server : Server Address) : Prop where
  control : server.control = .reads (index + 1) 0
  dataSize : server.tftp.dataSize = (block blockSize content index).length
  unread : server.tftp.filefdR = content.drop ((index + 1) * blockSize)
  sent : server.tftp.sent = before ++ blocksSent client content (index + 1)

theorem processRead_awaits {tftp : Members Address} {client : Address} {content : List UInt8}
    {before : List (Address × List UInt8)} {index : Nat} (sender : tftp.client = client)
    (unread : tftp.filefdR = content.drop (index * blockSize))
    (sent : tftp.sent = before ++ blocksSent client content index)
    (remains : block blockSize content index ≠ []) :
    Awaits client content before index
      (Server.reading (processRead tftp (index + 1) true)) := by
  have data : tftp.filefdR.take blockSize = block blockSize content index := by
    rw [unread]
    rfl
  unfold processRead
  simp only [data, if_neg remains, sendBlock, Members.sendto, if_true, Server.reading]
  constructor
  · rfl
  · rfl
  · simp only [unread, List.drop_drop, Nat.succ_mul]
  · have packet : (header cmdData (index + 1) ++ (block blockSize content index ++
        tftp.buffer.drop (4 + (block blockSize content index).length))).take
          ((block blockSize content index).length + 4) = dataPacket content index := by
      rw [← List.append_assoc]
      refine List.take_left' ?_
      rw [List.length_append, header_length, Nat.add_comm]
    simp only [packet, sent, sender, blocksSent_succ, List.append_assoc]

/-- With nothing left to read the server answers the acknowledgement of a full
block by an error and gives up. -/
theorem processRead_gives_up {tftp : Members Address} {blockNum : Nat}
    (unread : tftp.filefdR = []) (sends : Bool) :
    (Server.reading (processRead tftp blockNum sends)).control = .stopped := by
  simp [processRead, unread, Server.reading, Server.runReturns]

private theorem acknowledgement_of_awaits {client : Address} {content : List UInt8}
    {before : List (Address × List UInt8)} {index : Nat} {server : Server Address}
    (awaits : Awaits client content before index server) :
    acknowledgement client server =
      some
        { received := .datagram client (ackPacket ((index + 1) % 65536))
          opens := true
          sends := true } := by
  unfold acknowledgement
  rw [awaits.sent, blocksSent_succ, ← List.append_assoc, List.getLast?_concat]
  simp [dataPacket_command, dataPacket_number]

private theorem acknowledged_succ {client : Address} {content : List UInt8}
    {before : List (Address × List UInt8)} {index : Nat} {first server : Server Address}
    (reached : acknowledged client first index = some server)
    (awaits : Awaits client content before index server) :
    ∃ next, acknowledged client first (index + 1) = some next ∧
      ((block blockSize content index).length < blockSize → next.control = .listens ∧
        next.tftp.sent = before ++ blocksSent client content (index + 1)) ∧
      ((block blockSize content index).length = blockSize →
        block blockSize content (index + 1) ≠ [] →
          Awaits client content before (index + 1) next) ∧
      ((block blockSize content index).length = blockSize →
        block blockSize content (index + 1) = [] → next.control = .stopped) := by
  have right : acknowledges (index + 1) (ackPacket ((index + 1) % 65536)) = true :=
    (acknowledges_ackPacket _ _).mpr (Nat.mod_mod _ _)
  simp only [acknowledged, reached, acknowledgement_of_awaits awaits, Option.bind_eq_bind,
    Option.bind_some, Server.step, awaits.control, waitForAck, isAck_ackPacket, right,
    Bool.not_true, Bool.false_eq_true, if_false, awaits.dataSize]
  refine ⟨_, rfl, ?_, ?_, ?_⟩
  · intro short
    rw [if_pos short]
    exact ⟨rfl, awaits.sent⟩
  · intro full remains
    rw [if_neg (by omega)]
    exact processRead_awaits rfl awaits.unread awaits.sent remains
  · intro full none_
    rw [if_neg (by omega)]
    refine processRead_gives_up ?_ true
    have read := awaits.unread
    have nothing : content.drop ((index + 1) * blockSize) = [] := by
      simpa [block, blockSize] using none_
    rw [nothing] at read
    exact read

/-! ### The transfer -/

theorem block_ne_nil_iff {content : List UInt8} {index : Nat} :
    block blockSize content index ≠ [] ↔ index * blockSize < content.length := by
  rw [← List.length_pos_iff, block_length]
  unfold blockSize
  omega

theorem block_full_iff {content : List UInt8} {index : Nat} :
    (block blockSize content index).length = blockSize ↔
      (index + 1) * blockSize ≤ content.length := by
  rw [block_length]
  unfold blockSize
  omega

private theorem acknowledged_awaits {client : Address} {content : List UInt8}
    {before : List (Address × List UInt8)} {first : Server Address}
    (start : Awaits client content before 0 first) {index : Nat}
    (remains : index * blockSize < content.length) :
    ∃ server, acknowledged client first index = some server ∧
      Awaits client content before index server := by
  induction index with
  | zero => exact ⟨first, rfl, start⟩
  | succ index ih =>
      have full : (index + 1) * blockSize ≤ content.length := le_of_lt remains
      have before : index * blockSize < content.length :=
        Nat.lt_of_le_of_lt (Nat.mul_le_mul_right _ (Nat.le_succ index)) remains
      obtain ⟨server, reached, awaits⟩ := ih before
      obtain ⟨next, further, _, goesOn, _⟩ := acknowledged_succ reached awaits
      exact ⟨next, further, goesOn (block_full_iff.mpr full) (block_ne_nil_iff.mpr remains)⟩

private theorem acknowledged_of_stopped {client : Address} {first server : Server Address} {count : Nat}
    (reached : acknowledged client first count = some server)
    (stopped : server.control = .stopped) :
    acknowledged client first (count + 1) = none := by
  simp only [acknowledged, reached, Option.bind_eq_bind, Option.bind_some]
  cases acknowledgement client server with
  | none => rfl
  | some event => simp [Server.step, stopped]

private theorem acknowledged_mono_none {client : Address} {first : Server Address} {count later : Nat}
    (ended : acknowledged client first count = none) (after : count ≤ later) :
    acknowledged client first later = none := by
  induction later, after using Nat.le_induction with
  | base => exact ended
  | succ later after ih => simp [acknowledged, ih]

private theorem not_downloads_of_stopped {client : Address} {content : List UInt8} {before count : Nat}
    {first stopped : Server Address}
    (waits : ∀ earlier < count, ∀ server, acknowledged client first earlier = some server →
      server.control ≠ .listens)
    (reached : acknowledged client first count = some stopped)
    (gaveUp : stopped.control = .stopped) : ¬ Downloads client content before first := by
  rintro ⟨other, final, there, delivered⟩
  have returned := delivered.returned
  rcases Nat.lt_trichotomy other count with early | same | late
  · exact waits other early final there returned
  · subst same
    obtain rfl := Option.some.inj (there.symm.trans reached)
    rw [gaveUp] at returned
    contradiction
  · have ended := acknowledged_mono_none (acknowledged_of_stopped reached gaveUp) late
    rw [ended] at there
    contradiction

/-- The request as it reaches the server. -/
def readEvent (client : Address) (request : Request) : Event Address where
  received := .datagram client (request.bytes cmdRrq)
  opens := true
  sends := true

theorem step_readEvent {tftp : Members Address} {client : Address} {request : Request}
    {content : List UInt8} (stored : tftp.files request.filename = some content) :
    (Server.mk tftp .listens).step (readEvent client request) =
      some (Server.reading (processRead
        { tftp.receive client (request.bytes cmdRrq) with filefdR := content } 1 true)) := by
  obtain ⟨afterName, ptr, named, moded⟩ :=
    @request_filename _ tftp client request cmdRrq
  have isRead : command (tftp.receive client (request.bytes cmdRrq)).buffer = cmdRrq :=
    request_command request cmdRrq
  have there : (tftp.receive client (request.bytes cmdRrq)).files request.filename =
      some content := stored
  simp only [Server.step, readEvent, Server.parseRq, isRead, parseRrq, named, moded,
    Members.onRead, there, if_true]
  rw [if_neg (by decide)]

/-- A file read with every block acknowledged is delivered exactly when its
length is no multiple of the block size. -/
theorem downloads_iff (tftp : Members Address) (client : Address) (request : Request)
    (content : List UInt8) (stored : tftp.files request.filename = some content) :
    (∃ first, (Server.mk tftp .listens).step (readEvent client request) = some first ∧
        Downloads client content tftp.sent.length first) ↔
      content.length % blockSize ≠ 0 := by
  rw [step_readEvent stored]
  simp only [Option.some.injEq, exists_eq_left']
  generalize requested : { tftp.receive client (request.bytes cmdRrq) with filefdR := content } =
    opened
  have unread : opened.filefdR = content.drop (0 * blockSize) := by rw [← requested]; rfl
  have sender : opened.client = client := by rw [← requested]; rfl
  have sent : opened.sent = tftp.sent ++ blocksSent client content 0 := by
    rw [← requested]
    exact (List.append_nil _).symm
  have start : content ≠ [] →
      Awaits client content tftp.sent 0 (Server.reading (processRead opened 1 true)) := by
    intro some_
    refine processRead_awaits sender unread sent (block_ne_nil_iff.mpr ?_)
    have positive := List.length_pos_iff.mpr some_
    omega
  have divided := Nat.div_add_mod content.length blockSize
  have rest := Nat.mod_lt content.length (show 0 < blockSize by decide)
  constructor
  · intro downloads multiple
    refine absurd downloads ?_
    rcases Nat.eq_zero_or_pos (content.length / blockSize) with none_ | some_
    · have empty : content = [] := List.eq_nil_of_length_eq_zero (by rw [none_] at divided; omega)
      subst empty
      refine @not_downloads_of_stopped _ client [] tftp.sent.length 0 _ _ ?_ rfl ?_
      · intro earlier early
        omega
      · exact processRead_gives_up unread true
    · obtain ⟨last, count⟩ := Nat.exists_eq_succ_of_ne_zero (Nat.pos_iff_ne_zero.mp some_)
      have whole : (last + 1) * blockSize = content.length := by
        rw [count, multiple] at divided
        rw [Nat.mul_comm]
        exact divided
      have begun := start (by rintro rfl; simp [blockSize] at whole)
      have before : last * blockSize < content.length := by unfold blockSize at whole ⊢; omega
      obtain ⟨server, reached, awaits⟩ := acknowledged_awaits begun before
      obtain ⟨next, further, _, _, givesUp⟩ := acknowledged_succ reached awaits
      refine not_downloads_of_stopped ?_ further (givesUp ?_ ?_)
      · intro earlier early other there
        have inside : earlier * blockSize < content.length :=
          Nat.lt_of_le_of_lt (Nat.mul_le_mul_right _ (Nat.lt_succ_iff.mp early)) before
        obtain ⟨same, reachedToo, waits⟩ := acknowledged_awaits begun inside
        obtain rfl := Option.some.inj (there.symm.trans reachedToo)
        rw [waits.control]
        exact Control.noConfusion
      · exact block_full_iff.mpr (Nat.le_of_eq whole)
      · have none_ : ¬ (last + 1) * blockSize < content.length := by omega
        exact not_not.mp (fun some_ => none_ (block_ne_nil_iff.mp some_))
  · intro remainder
    have begun := start (by rintro rfl; simp at remainder)
    generalize counted : content.length / blockSize = last at divided
    have inside : last * blockSize < content.length := by rw [Nat.mul_comm] at divided; omega
    have short : (block blockSize content last).length < blockSize := by
      rw [block_length]
      rw [Nat.mul_comm] at divided
      omega
    obtain ⟨server, reached, awaits⟩ := acknowledged_awaits begun inside
    obtain ⟨next, further, ends, _, _⟩ := acknowledged_succ reached awaits
    obtain ⟨listens, packets⟩ := ends short
    have news : next.tftp.sent.drop tftp.sent.length = blocksSent client content (last + 1) := by
      rw [packets]
      exact List.drop_left
    refine ⟨last + 1, next, further, listens, ?_, ?_, ?_⟩
    · intro packet member
      rw [news] at member
      obtain ⟨index, _, rfl⟩ := mem_blocksSent member
      exact dataPacket_command content index
    · rw [news, blocksSent_payload, ← counted]
      exact take_blockCount (by decide) content
    · refine ⟨blocksSent client content last, (client, dataPacket content last), ?_, ?_, short⟩
      · rw [news, blocksSent_succ]
      · intro packet member
        obtain ⟨index, before, rfl⟩ := mem_blocksSent member
        refine block_full_iff.mpr ?_
        exact Nat.le_of_lt (Nat.lt_of_le_of_lt (Nat.mul_le_mul_right _ before) inside)

/-! ### Two files -/

/-- A server with one file, named `f`. -/
def hostWith (content : List UInt8) : Start Nat :=
  .fresh fun filename => if filename = text "f" then some content else none

theorem two_blocks_download :
    ∃ first, (Server.mk (hostWith twoBlocks).members .listens).step
        (readEvent 7 requestForF) = some first ∧
      Downloads 7 twoBlocks 0 first := by
  have uneven : twoBlocks.length % blockSize ≠ 0 := by
    rw [twoBlocks, List.length_append, List.length_replicate]
    decide
  exact (downloads_iff (hostWith twoBlocks).members 7 requestForF twoBlocks rfl).mpr uneven

/-- An empty file ends with an error packet, and with the server. -/
theorem empty_file_not_downloaded :
    ¬ ∀ (tftp : Members Nat) (client : Nat) (request : Request) (content : List UInt8),
      tftp.files request.filename = some content →
        ∃ first, (Server.mk tftp .listens).step (readEvent client request) = some first ∧
          Downloads client content tftp.sent.length first := by
  intro always
  obtain ⟨first, taken, downloads⟩ := always (hostWith []).members 7 requestForF [] rfl
  rw [step_readEvent (show (hostWith []).members.files requestForF.filename = some [] from rfl)]
    at taken
  obtain rfl := Option.some.inj taken
  refine @not_downloads_of_stopped _ 7 [] 0 0 _ _ ?_ rfl ?_ downloads
  · intro earlier early
    omega
  · exact processRead_gives_up rfl true

end Tftp

end DlcServer
