/-
Messages that come in chunks.

The handler puts the chunks together where they lie, and forgets with the next
piece of the stream how far it has got: it then looks for a chunk at the start of
data that it has already taken out of one.  So the body comes out as it was sent
if all of the message comes before the first chunk has been put together.
-/

import DlcServer.HttpDelivery
import DlcServer.HttpTermination

namespace DlcServer

open Library

variable {leaves : HttpEvent → Bool}

/-- A chunk as it is sent: the size in hexadecimal digits and as much data. -/
structure Chunk where
  size : CText
  data : CText
  digits : ∀ byte ∈ size, isXdigit byte = true
  some_ : size ≠ []
  short : size.length ≤ 6
  counts : chunkSize size = data.length

namespace Chunk

def bytes (chunk : Chunk) : CText :=
  chunk.size ++ [13, 10] ++ chunk.data ++ [13, 10]

private theorem bytes_length (chunk : Chunk) :
    chunk.bytes.length = chunk.size.length + chunk.data.length + 4 := by
  unfold bytes
  simp only [List.length_append, List.length_cons, List.length_nil]
  omega

private theorem takeWhile_size (chunk : Chunk) (behind : CText) :
    (chunk.size ++ ([13, 10] ++ behind)).takeWhile isXdigit = chunk.size := by
  rw [List.takeWhile_append_of_pos chunk.digits]
  change chunk.size ++ [] = chunk.size
  exact List.append_nil _

end Chunk

private theorem mgHttpParseChunk_bytes (chunk : Chunk) (behind : CText) :
    mgHttpParseChunk (chunk.bytes ++ behind) = some (chunk.data, chunk.bytes.length) := by
  have split : chunk.bytes ++ behind =
      chunk.size ++ ([13, 10] ++ (chunk.data ++ ([13, 10] ++ behind))) := by
    unfold Chunk.bytes
    simp only [List.append_assoc]
  have afterSize : (chunk.bytes ++ behind).drop chunk.size.length =
      [13, 10] ++ (chunk.data ++ ([13, 10] ++ behind)) := by
    rw [split, List.drop_left]
  have atData : (chunk.bytes ++ behind).drop (chunk.size.length + 2) =
      chunk.data ++ ([13, 10] ++ behind) :=
    drop_append afterSize
  have afterData := drop_append atData
  have digits : (chunk.bytes ++ behind).takeWhile isXdigit = chunk.size := by
    rw [split, chunk.takeWhile_size]
  have short := chunk.short
  have start : ¬(chunk.size = [] ∨ ([13, 10] ++ (chunk.data ++ ([13, 10] ++ behind))).take 2 ≠
      [13, 10]) :=
    not_or.mpr ⟨chunk.some_, not_not.mpr rfl⟩
  have ended : ¬([13, 10] ++ behind).take 2 ≠ [13, 10] := not_not.mpr rfl
  unfold mgHttpParseChunk
  dsimp only
  rw [digits, chunk.counts, afterSize, afterData, atData, if_neg (by omega), if_neg start,
    if_neg ended, List.take_left, chunk.bytes_length]
  rw [show chunk.size.length + 2 + chunk.data.length + 2 =
    chunk.size.length + chunk.data.length + 4 by omega]

private theorem mgHttpParseChunk_append {buf : CText} {found : CText × Nat}
    (parsed : mgHttpParseChunk buf = some found) (more : CText) :
    mgHttpParseChunk (buf ++ more) = some found := by
  obtain ⟨data, n⟩ := found
  have inside := mgHttpParseChunk_inside parsed
  unfold mgHttpParseChunk at parsed ⊢
  dsimp only at parsed ⊢
  split at parsed
  · cases parsed
  next short =>
  split at parsed
  · cases parsed
  next start =>
  split at parsed
  · cases parsed
  next ended =>
  obtain ⟨rfl, rfl⟩ := Prod.mk.inj (Option.some.inj parsed)
  have notAll : ¬(buf.takeWhile isXdigit).length = buf.length := by omega
  have sameDigits : (buf ++ more).takeWhile isXdigit = buf.takeWhile isXdigit := by
    rw [List.takeWhile_append, if_neg notAll]
  have twoMore {position : Nat} (there : position + 2 ≤ buf.length) :
      ((buf ++ more).drop position).take 2 = (buf.drop position).take 2 := by
    rw [List.drop_append_of_le_length (by omega), List.take_append_of_le_length]
    rw [List.length_drop]
    omega
  rw [sameDigits, twoMore (by omega), twoMore (by omega), if_neg short, if_neg start, if_neg ended,
    List.drop_append_of_le_length (by omega), List.take_append_of_le_length]
  rw [List.length_drop]
  omega

private theorem mgHttpParseChunk_part {chunk : Chunk} {part : CText} (isPart : part <+: chunk.bytes)
    (less : part.length < chunk.bytes.length) : mgHttpParseChunk part = none := by
  cases parsed : mgHttpParseChunk part with
  | none => rfl
  | some found =>
      obtain ⟨behind, whole⟩ := isPart
      have inside := mgHttpParseChunk_inside parsed
      have same := mgHttpParseChunk_append parsed behind
      rw [whole, ← List.append_nil chunk.bytes, mgHttpParseChunk_bytes chunk []] at same
      obtain rfl := Option.some.inj same
      omega

private theorem mgHttpParseChunk_other {buf : CText} (other : ∀ byte ∈ buf.head?, isXdigit byte = false) :
    mgHttpParseChunk buf = none := by
  have digits : buf.takeWhile isXdigit = [] := by
    cases buf with
    | nil => rfl
    | cons byte rest => rw [List.takeWhile_cons, other byte rfl, if_neg (by decide)]
  unfold mgHttpParseChunk
  dsimp only
  rw [digits, if_neg (by decide), if_pos (.inl rfl)]

/-! ### Putting chunks together -/

def chunksBytes (chunks : List Chunk) : CText :=
  (chunks.map Chunk.bytes).flatten

def chunksData (chunks : List Chunk) : CText :=
  (chunks.map Chunk.data).flatten

private theorem chunksBytes_append (first second : List Chunk) :
    chunksBytes (first ++ second) = chunksBytes first ++ chunksBytes second := by
  unfold chunksBytes
  rw [List.map_append, List.flatten_append]

private theorem chunksData_append (first second : List Chunk) :
    chunksData (first ++ second) = chunksData first ++ chunksData second := by
  unfold chunksData
  rw [List.map_append, List.flatten_append]

private theorem chunksBytes_cons (chunk : Chunk) (chunks : List Chunk) :
    chunksBytes (chunk :: chunks) = chunk.bytes ++ chunksBytes chunks :=
  rfl

private theorem chunksData_length (chunks : List Chunk) :
    (chunksData chunks).length + 4 * chunks.length ≤ (chunksBytes chunks).length := by
  induction chunks with
  | nil => exact le_refl _
  | cons chunk chunks ih =>
      have long := chunk.bytes_length
      change (chunk.data ++ chunksData chunks).length + 4 * (chunks.length + 1) ≤
        (chunk.bytes ++ chunksBytes chunks).length
      rw [List.length_append, List.length_append]
      omega

private theorem collapseChunks_front {chunks : List Chunk} (each : ∀ chunk ∈ chunks, chunk.data ≠ [])
    {behind decoded left : CText} {zero : Bool}
    (collapsed : ∀ fuel, behind.length < fuel →
      collapseChunks fuel behind = .ok (decoded, left, zero))
    {fuel : Nat} (enough : (chunksBytes chunks ++ behind).length < fuel) :
    collapseChunks fuel (chunksBytes chunks ++ behind) =
      .ok (chunksData chunks ++ decoded, left, zero) := by
  induction chunks generalizing fuel with
  | nil => exact collapsed fuel enough
  | cons chunk chunks ih =>
      obtain ⟨fuel, rfl⟩ : ∃ less, fuel = less + 1 := ⟨fuel - 1, by omega⟩
      have long := chunk.bytes_length
      rw [chunksBytes_cons, List.append_assoc, List.length_append] at enough
      rw [chunksBytes_cons, List.append_assoc, collapseChunks, mgHttpParseChunk_bytes]
      dsimp only
      rw [if_neg (each chunk List.mem_cons_self), List.drop_left,
        ih (fun other member => each other (List.mem_cons_of_mem _ member)) (by omega),
        overstep_bind_ok]
      change Except.ok (chunk.data ++ (chunksData chunks ++ decoded), left, zero) = _
      rw [← List.append_assoc]
      rfl

private theorem collapseChunks_none {buf : CText} (none_ : mgHttpParseChunk buf = none) :
    ∀ fuel, buf.length < fuel → collapseChunks fuel buf = .ok ([], buf, false) := by
  intro fuel enough
  obtain ⟨fuel, rfl⟩ : ∃ less, fuel = less + 1 := ⟨fuel - 1, by omega⟩
  rw [collapseChunks, none_]

private theorem collapseChunks_last {last : Chunk} (empty : last.data = []) :
    ∀ fuel, last.bytes.length < fuel → collapseChunks fuel last.bytes = .ok ([], [], true) := by
  intro fuel enough
  obtain ⟨fuel, rfl⟩ : ∃ less, fuel = less + 1 := ⟨fuel - 1, by omega⟩
  have parsed := mgHttpParseChunk_bytes last []
  rw [List.append_nil] at parsed
  rw [collapseChunks, parsed]
  dsimp only
  rw [if_pos empty, List.drop_length]

private theorem chunks_split {chunks : List Chunk} {part : CText} (isPart : part <+: chunksBytes chunks)
    (less : part.length < (chunksBytes chunks).length) :
    ∃ done waiting more, chunks = done ++ waiting ∧ waiting ≠ [] ∧
      part = chunksBytes done ++ more ∧ mgHttpParseChunk more = none := by
  induction chunks generalizing part with
  | nil => exact absurd less (Nat.not_lt_zero _)
  | cons chunk chunks ih =>
      rw [chunksBytes_cons] at isPart less
      by_cases inFirst : part.length < chunk.bytes.length
      · have ofFirst : part <+: chunk.bytes :=
          List.prefix_of_prefix_length_le isPart (List.prefix_append _ _) inFirst.le
        exact ⟨[], chunk :: chunks, part, rfl, List.cons_ne_nil _ _, rfl,
          mgHttpParseChunk_part ofFirst inFirst⟩
      · obtain ⟨rest, rfl⟩ : chunk.bytes <+: part :=
          List.prefix_of_prefix_length_le (List.prefix_append _ _) isPart (by omega)
        rw [List.length_append, List.length_append] at less
        obtain ⟨done, waiting, more, rfl, some_, rfl, none_⟩ :=
          ih ((List.prefix_append_right_inj _).mp isPart) (by omega)
        exact ⟨chunk :: done, waiting, more, rfl, some_, by rw [chunksBytes_cons, List.append_assoc],
          none_⟩

/-! ### One round -/

/-- The head of a message in chunks that says nothing else of its length. -/
structure ChunkedHead (isReq : Bool) (head : CText) (hm : HttpMessage) : Prop where
  parsed : mgParseHttp head isReq = .ok ((head.length : Int), hm)
  headed : head ≠ []
  short : head.length ≤ maxHttpRequestSize
  chunked : isChunked head hm = .ok true
  endless : hm.message.len = sizeMax

section Rounds

variable {isReq : Bool} {head body decoded left : CText} {hm : HttpMessage}

theorem ChunkedHead.round (start : ChunkedHead isReq head hm) (body : CText) :
    mgHttpRound leaves isReq (head ++ body) = mgHttpMessage leaves isReq head.length (head ++ body) hm := by
  have positive := List.length_pos_of_ne_nil start.headed
  have parsed := mgParseHttp_append start.parsed (by omega) body
  have neither : ¬((head.length : Int) < 0 ∨ (head.length : Int) = 0 ∧
      maxHttpRequestSize ≤ (head ++ body).length) := by
    omega
  have notZero : ¬(head.length : Int) = 0 := by omega
  unfold mgHttpRound
  rw [parsed, overstep_bind_ok]
  dsimp only
  rw [if_neg neither, if_neg notZero, Int.toNat_natCast]

private theorem ChunkedHead.body_start (start : ChunkedHead isReq head hm) : hm.body.p = head.length := by
  have positive := List.length_pos_of_ne_nil start.headed
  obtain ⟨n, found, isFound, outcome⟩ := mgParseHttp_within head isReq
  rw [start.parsed] at isFound
  cases isFound
  rcases outcome with ⟨zero, _⟩ | bad | ⟨last, isLast, _, within⟩
  · omega
  · omega
  · cases Int.ofNat.inj isLast
    exact within.body

private theorem mgHandleChunked_shorter {zero : Bool} (hm : HttpMessage)
    (collapsed : collapseChunks (body.length + 1) body = .ok (decoded, left, zero))
    (shorter : left.length < body.length) :
    ∃ piece : HttpEvent, ¬piece.Whole ∧
      mgHandleChunked (head ++ body) head.length hm = .ok (head ++ (decoded ++ left),
        hm.resized (if zero then decoded.length + left.length + head.length else hm.message.len)
          decoded.length, [piece]) := by
  unfold mgHandleChunked
  dsimp only
  rw [List.drop_left, collapsed, overstep_bind_ok]
  dsimp only
  rw [if_pos shorter, List.take_left, List.append_assoc]
  cases zero with
  | false => exact ⟨_, fun whole => whole rfl, rfl⟩
  | true => exact ⟨_, fun whole => whole rfl, rfl⟩

private theorem mgHttpRound_someChunks (start : ChunkedHead isReq head hm)
    (collapsed : collapseChunks (body.length + 1) body = .ok (decoded, left, false))
    (fits : (head ++ body).length < sizeMax) :
    ∃ events, mgHttpRound leaves isReq (head ++ body) =
        .ok (.rest ⟨head ++ (decoded ++ left), false⟩, events) ∧
      ∀ event ∈ events, ¬event.Whole := by
  obtain ⟨after, message, pieces, handled, isAfter, isMessage, noWhole⟩ :
      ∃ after message pieces, reassemble true head.length (head ++ body) hm =
          .ok (after, message, pieces) ∧ after = head ++ (decoded ++ left) ∧
        message.message.len = sizeMax ∧ ∀ piece ∈ pieces, ¬HttpEvent.Whole piece := by
    unfold reassemble
    rw [if_pos rfl]
    by_cases shorter : left.length < body.length
    · obtain ⟨piece, noWhole, handled⟩ := @mgHandleChunked_shorter head _ _ _ _ hm collapsed shorter
      exact ⟨_, _, _, handled, rfl, start.endless, List.forall_mem_singleton.mpr noWhole⟩
    · obtain ⟨decoded', left', zero', same, accounted⟩ :=
        @collapseChunks_inside (body.length + 1) body (Nat.lt_succ_self _)
      rw [collapsed] at same
      cases same
      rcases accounted with ⟨rfl, rfl, _⟩ | less
      · refine ⟨head ++ left, hm, [], ?_, rfl, start.endless,
          fun _ member => absurd member List.not_mem_nil⟩
        unfold mgHandleChunked
        dsimp only
        rw [List.drop_left, collapsed, overstep_bind_ok]
        dsimp only
        rw [if_neg shorter]
        rfl
      · omega
  have stillOpen : (head ++ body).length < message.message.len := isMessage ▸ fits
  rw [start.round, mgHttpMessage, isChunked_append start.chunked body, overstep_bind_ok, handled,
    overstep_bind_ok]
  dsimp only
  rw [if_pos stillOpen, isAfter]
  refine ⟨_, rfl, List.forall_mem_append.mpr ⟨noWhole, ?_⟩⟩
  exact List.forall_mem_singleton.mpr (fun whole => whole rfl)

private theorem mgHttpRound_allChunks (start : ChunkedHead isReq head hm)
    (collapsed : collapseChunks (body.length + 1) body = .ok (decoded, [], true))
    (some_ : body ≠ []) :
    ∃ events whole, mgHttpRound leaves isReq (head ++ body) = .ok (.rest ⟨[], false⟩, events) ∧
      events.filter HttpEvent.Whole = [whole] ∧ whole.body = decoded := by
  have shorter : ([] : CText).length < body.length := List.length_pos_of_ne_nil some_
  obtain ⟨decoded', left', zero', same, accounted⟩ :=
    @collapseChunks_inside (body.length + 1) body (Nat.lt_succ_self _)
  rw [collapsed] at same
  cases same
  have less : decoded.length < body.length := by
    rcases accounted with ⟨_, _, isTrue⟩ | less
    · contradiction
    · exact less
  obtain ⟨piece, noWhole, handled⟩ := @mgHandleChunked_shorter head _ _ _ _ hm collapsed shorter
  rw [if_pos rfl, List.append_nil, List.length_nil, Nat.add_zero] at handled
  have positive := List.length_pos_of_ne_nil start.headed
  have whole : reassemble true head.length (head ++ body) hm =
      .ok (head ++ decoded, hm.resized (decoded.length + head.length) decoded.length, [piece]) :=
    handled
  have arrived : ¬(head ++ body).length <
      (hm.resized (decoded.length + head.length) decoded.length).message.len := by
    change ¬(head ++ body).length < decoded.length + head.length
    rw [List.length_append]
    omega
  have removed : mbufRemove (head ++ decoded)
      (hm.resized (decoded.length + head.length) decoded.length).message.len = [] := by
    change mbufRemove (head ++ decoded) (decoded.length + head.length) = []
    unfold mbufRemove
    rw [if_pos (by rw [List.length_append]; omega), List.drop_of_length_le]
    rw [List.length_append]
    omega
  rw [start.round, mgHttpMessage, isChunked_append start.chunked body, overstep_bind_ok, whole,
    overstep_bind_ok]
  dsimp only
  rw [if_neg arrived, removed, if_neg (fun both => both.2 rfl)]
  refine ⟨_, ⟨wholeEv isReq, deliverChunk (head ++ decoded) head.length
    (hm.resized (decoded.length + head.length) decoded.length), head ++ decoded⟩, rfl, ?_, ?_⟩
  · rw [List.cons_append, List.nil_append, List.filter_cons_of_neg (by simpa using noWhole),
      List.filter_cons_of_neg (by simp [HttpEvent.Whole]), List.filter_cons_of_pos, List.filter_nil]
    exact decide_eq_true (wholeEv_ne isReq)
  · change ((head ++ decoded).drop hm.body.p).take ((head ++ decoded).length - head.length) = decoded
    rw [start.body_start, List.drop_left, List.length_append, Nat.add_sub_cancel_left,
      List.take_length]

/-- A round that hands no message over and leaves the buffer as it is. -/
def Calm (leaves : HttpEvent → Bool) (isReq : Bool) (io : CText) : Prop :=
  ∃ events, mgHttpRound leaves isReq io = .ok (.rest ⟨io, false⟩, events) ∧
    ∀ event ∈ events, ¬event.Whole

private theorem calm_nil (leaves : HttpEvent → Bool) (isReq : Bool) : Calm leaves isReq [] :=
  mgHttpRound_unfinished (unfinished_nil isReq)

private theorem ChunkedHead.calm (start : ChunkedHead isReq head hm)
    (none_ : mgHttpParseChunk body = none) (fits : (head ++ body).length < sizeMax) :
    Calm leaves isReq (head ++ body) :=
  mgHttpRound_someChunks start (collapseChunks_none none_ _ (Nat.lt_succ_self _)) fits

private theorem ChunkedHead.calm_front (start : ChunkedHead isReq head hm) {front : CText}
    (isFront : front <+: head) (less : front.length < head.length) : Calm leaves isReq front := by
  obtain ⟨behind, rfl⟩ := isFront
  have parsed := mgParseHttp_front start.parsed (List.length_pos_of_ne_nil start.headed)
  rw [if_neg (by omega)] at parsed
  have short := start.short
  exact mgHttpRound_unfinished (.headless parsed (by omega))

end Rounds

/-! ### Runs -/

section Runs

variable {isReq : Bool}

private theorem recvAll_append (receiver : Receiver) (first second : List CText) :
    receiver.recvAll leaves isReq (first ++ second) = (do
      let (between, events) ← receiver.recvAll leaves isReq first
      let (last, more) ← between.recvAll leaves isReq second
      return (last, events ++ more)) := by
  induction first generalizing receiver with
  | nil =>
      rw [List.nil_append, Receiver.recvAll, overstep_bind_ok]
      dsimp only
      cases receiver.recvAll leaves isReq second with
      | error bad => rfl
      | ok found => rfl
  | cons piece first ih =>
      rw [List.cons_append, Receiver.recvAll, Receiver.recvAll]
      cases receiver.recv leaves isReq piece with
      | error bad => rfl
      | ok found =>
          obtain ⟨between, events⟩ := found
          rw [overstep_bind_ok, overstep_bind_ok]
          dsimp only
          rw [ih]
          cases between.recvAll leaves isReq first with
          | error bad => rfl
          | ok found =>
              obtain ⟨between, more⟩ := found
              rw [overstep_bind_ok, overstep_bind_ok]
              dsimp only [Pure.pure, Except.pure]
              rw [overstep_bind_ok]
              dsimp only
              cases between.recvAll leaves isReq second with
              | error bad => rfl
              | ok found =>
                  change Except.ok (found.1, events ++ (more ++ found.2)) =
                    Except.ok (found.1, events ++ more ++ found.2)
                  rw [List.append_assoc]

private theorem recv_round {io piece : CText} {receiver : Receiver} {events : List HttpEvent}
    (round : mgHttpRound leaves isReq (io ++ piece) = .ok (.rest receiver, events)) :
    Receiver.recv leaves isReq ⟨io, false⟩ piece = .ok (receiver, events) := by
  unfold Receiver.recv
  dsimp only
  rw [if_neg Bool.false_ne_true]
  rw [mgHttpRecv, round]
  rfl

private theorem recvAll_calm {io : CText} {pieces : List CText}
    (calm : ∀ before after, pieces = before ++ after → before ≠ [] →
      Calm leaves isReq (io ++ before.flatten)) :
    ∃ events, Receiver.recvAll leaves isReq ⟨io, false⟩ pieces =
        .ok (⟨io ++ pieces.flatten, false⟩, events) ∧ ∀ event ∈ events, ¬event.Whole := by
  induction pieces generalizing io with
  | nil =>
      rw [List.flatten_nil, List.append_nil]
      exact ⟨[], rfl, fun _ member => absurd member List.not_mem_nil⟩
  | cons piece pieces ih =>
      obtain ⟨events, round, noWhole⟩ := calm [piece] pieces rfl (List.cons_ne_nil _ _)
      rw [List.flatten_singleton] at round
      obtain ⟨more, recv, noWholeMore⟩ := @ih (io ++ piece) (by
        intro before after same some_
        rw [List.append_assoc, ← List.flatten_cons]
        exact calm (piece :: before) after (by rw [same]; rfl) (List.cons_ne_nil _ _))
      rw [Receiver.recvAll, recv_round round, overstep_bind_ok]
      dsimp only
      rw [recv, overstep_bind_ok, List.flatten_cons, ← List.append_assoc]
      exact ⟨events ++ more, rfl, List.forall_mem_append.mpr ⟨noWhole, noWholeMore⟩⟩

/-- A message in chunks: the head, chunks with data in them, and an empty one. -/
structure ChunkedMessage (isReq : Bool) where
  head : CText
  hm : HttpMessage
  start : ChunkedHead isReq head hm
  first : Chunk
  more : List Chunk
  last : Chunk
  each : ∀ chunk ∈ first :: more, chunk.data ≠ []
  empty : last.data = []
  fits : (head ++ chunksBytes (first :: more ++ [last])).length < sizeMax

namespace ChunkedMessage

variable (message : ChunkedMessage isReq)

def chunks : List Chunk := message.first :: message.more ++ [message.last]

def bytes : CText := message.head ++ chunksBytes message.chunks

def data : CText := chunksData (message.first :: message.more)

/-- No piece ends between the end of the first chunk and that of the message. -/
def KeptWhole (pieces : List CText) : Prop :=
  ∀ before after, pieces = before ++ after →
    before.flatten.length < (message.head ++ message.first.bytes).length ∨ after.flatten = []

variable {message}

private theorem encoded_eq : chunksBytes message.chunks =
    message.first.bytes ++ (chunksBytes message.more ++ message.last.bytes) := by
  unfold chunks
  rw [List.cons_append, chunksBytes_cons, chunksBytes_append]
  congr 2
  exact List.append_nil _

private theorem first_less :
    (message.head ++ message.first.bytes).length < message.bytes.length := by
  have long := message.last.bytes_length
  unfold bytes
  rw [encoded_eq, List.length_append, List.length_append, List.length_append, List.length_append]
  omega

private theorem each_of_waiting {done waiting : List Chunk} (split : message.chunks = done ++ waiting)
    (some_ : waiting ≠ []) : ∀ chunk ∈ done, chunk.data ≠ [] := by
  have front : done ++ waiting.dropLast = message.first :: message.more := by
    have dropped := congrArg List.dropLast split
    unfold chunks at dropped
    rw [List.dropLast_concat, List.dropLast_append_of_ne_nil some_] at dropped
    exact dropped.symm
  exact fun chunk member => message.each chunk (front ▸ List.mem_append_left _ member)

private theorem data_head {done waiting : List Chunk} (split : message.chunks = done ++ waiting)
    (some_ : done ≠ []) (rest : CText) :
    (chunksData done ++ rest).head? = message.first.data.head? := by
  cases done with
  | nil => exact absurd rfl some_
  | cons chunk done =>
      obtain ⟨rfl, _⟩ := List.cons.inj split
      have first := message.each message.first List.mem_cons_self
      change ((message.first.data ++ chunksData done) ++ rest).head? = _
      rw [List.append_assoc, List.head?_append_of_ne_nil _ first]

private theorem data_ne {done waiting : List Chunk} (split : message.chunks = done ++ waiting)
    (some_ : waiting ≠ []) : chunksData done ++ chunksBytes waiting ≠ message.data := by
  intro same
  have all : message.data = chunksData done ++ chunksData waiting := by
    rw [← chunksData_append, ← split]
    unfold data chunks
    rw [chunksData_append]
    change _ = _ ++ (message.last.data ++ [])
    rw [message.empty]
    exact (List.append_nil _).symm
  rw [all, List.append_cancel_left_eq] at same
  have longer := chunksData_length waiting
  have positive := List.length_pos_of_ne_nil some_
  rw [same] at longer
  omega

private theorem calm_before {io : CText} (isFront : io <+: message.bytes)
    (less : io.length < (message.head ++ message.first.bytes).length) : Calm leaves isReq io := by
  rw [List.length_append] at less
  by_cases inHead : io.length < message.head.length
  · exact message.start.calm_front
      (List.prefix_of_prefix_length_le isFront (List.prefix_append _ _) inHead.le) inHead
  · obtain ⟨part, rfl⟩ : message.head <+: io :=
      List.prefix_of_prefix_length_le (List.prefix_append _ _) isFront (by omega)
    rw [List.length_append] at less
    have isPart : part <+: message.first.bytes := by
      refine List.prefix_of_prefix_length_le ((List.prefix_append_right_inj _).mp isFront) ?_
        (by omega)
      rw [encoded_eq]
      exact List.prefix_append _ _
    have bound := isFront.length_le
    have fits := message.fits
    exact message.start.calm (mgHttpParseChunk_part isPart (by omega))
      (lt_of_le_of_lt bound fits)

private theorem round_whole :
    ∃ events whole, mgHttpRound leaves isReq message.bytes = .ok (.rest ⟨[], false⟩, events) ∧
      events.filter HttpEvent.Whole = [whole] ∧ whole.body = message.data := by
  have split : chunksBytes message.chunks =
      chunksBytes (message.first :: message.more) ++ message.last.bytes := by
    unfold chunks
    rw [chunksBytes_append]
    congr 1
    exact List.append_nil _
  have collapsed := collapseChunks_front message.each (collapseChunks_last message.empty)
    (Nat.lt_succ_self _)
  rw [← split, List.append_nil] at collapsed
  refine mgHttpRound_allChunks message.start collapsed ?_
  rw [encoded_eq]
  exact List.append_ne_nil_of_left_ne_nil (by simp [Chunk.bytes]) _

private theorem round_part {io behind : CText} (split : io ++ behind = message.bytes)
    (some_ : behind ≠ []) (enough : (message.head ++ message.first.bytes).length ≤ io.length) :
    ∃ done waiting left events, message.chunks = done ++ waiting ∧ done ≠ [] ∧ waiting ≠ [] ∧
      left ++ behind = chunksBytes waiting ∧
      mgHttpRound leaves isReq io =
        .ok (.rest ⟨message.head ++ (chunksData done ++ left), false⟩, events) ∧
      ∀ event ∈ events, ¬event.Whole := by
  have isFront : io <+: message.bytes := ⟨behind, split⟩
  have positive := List.length_pos_of_ne_nil some_
  have total := congrArg List.length split
  have fits := message.fits
  rw [List.length_append] at enough total
  obtain ⟨part, rfl⟩ : message.head <+: io :=
    List.prefix_of_prefix_length_le (List.prefix_append _ _) isFront (by omega)
  unfold bytes at split total isFront
  rw [List.append_assoc, List.append_cancel_left_eq] at split
  rw [List.length_append, List.length_append] at total
  rw [List.length_append] at enough
  obtain ⟨done, waiting, left, isSplit, someLeft, rfl, none_⟩ :=
    chunks_split ⟨behind, split⟩ (by omega)
  rw [isSplit, chunksBytes_append, List.append_assoc, List.append_cancel_left_eq] at split
  have someDone : done ≠ [] := by
    rintro rfl
    obtain ⟨rest, rfl⟩ : message.first.bytes <+: left := by
      refine List.prefix_of_prefix_length_le ?_ ((List.prefix_append_right_inj _).mp isFront)
        (by change _ ≤ _ + left.length at enough; omega)
      rw [encoded_eq]
      exact List.prefix_append _ _
    rw [mgHttpParseChunk_bytes] at none_
    cases none_
  have collapsed := collapseChunks_front (each_of_waiting isSplit someLeft)
    (collapseChunks_none none_) (Nat.lt_succ_self _)
  rw [List.append_nil] at collapsed
  obtain ⟨events, round, noWhole⟩ := mgHttpRound_someChunks message.start collapsed
    (lt_of_le_of_lt isFront.length_le fits)
  exact ⟨done, waiting, left, events, isSplit, someDone, someLeft, split, round, noWhole⟩

end ChunkedMessage

private theorem pieces_cross {pieces : List CText} {bound : Nat} (positive : 0 < bound)
    (long : bound ≤ pieces.flatten.length) :
    ∃ before piece after, pieces = before ++ piece :: after ∧ before.flatten.length < bound ∧
      bound ≤ (before.flatten ++ piece).length := by
  induction pieces generalizing bound with
  | nil => exact absurd long (by rw [List.flatten_nil, List.length_nil]; omega)
  | cons piece pieces ih =>
      by_cases here : bound ≤ piece.length
      · exact ⟨[], piece, pieces, rfl, positive, here⟩
      · rw [List.flatten_cons, List.length_append] at long
        obtain ⟨before, crossing, after, rfl, less, enough⟩ :=
          @ih (bound - piece.length) (by omega) (by omega)
        rw [List.length_append] at enough
        refine ⟨piece :: before, crossing, after, rfl, ?_, ?_⟩
        · rw [List.flatten_cons, List.length_append]
          omega
        · rw [List.flatten_cons, List.length_append, List.length_append]
          omega

private theorem ChunkedMessage.keptWhole_iff {message : ChunkedMessage isReq} {before after : List CText}
    {piece : CText} (less : before.flatten.length < (message.head ++ message.first.bytes).length)
    (enough : (message.head ++ message.first.bytes).length ≤ (before.flatten ++ piece).length) :
    message.KeptWhole (before ++ piece :: after) ↔ after.flatten = [] := by
  constructor
  · intro kept
    have crossing := kept (before ++ [piece]) after (by simp)
    rw [List.flatten_append, List.flatten_singleton] at crossing
    exact crossing.resolve_left (by omega)
  · intro none_ early late split
    rcases List.append_eq_append_iff.mp split with ⟨middle, rfl, isLate⟩ | ⟨middle, rfl, _⟩
    · cases middle with
      | nil =>
          rw [List.append_nil]
          exact .inl less
      | cons first middle =>
          obtain ⟨_, isAfter⟩ := List.cons.inj isLate
          change after = middle ++ late at isAfter
          rw [isAfter, List.flatten_append] at none_
          exact .inr (List.append_eq_nil_iff.mp none_).2
    · rw [List.flatten_append, List.length_append] at less
      exact .inl (by omega)

end Runs

private theorem mgHttpClose_body {isReq : Bool} {head body : CText} {hm : HttpMessage}
    (start : ChunkedHead isReq head hm) :
    ∃ events whole, mgHttpClose isReq (head ++ body) = .ok events ∧
      events.filter HttpEvent.Whole = [whole] ∧ whole.body = body := by
  have positive := List.length_pos_of_ne_nil start.headed
  have parsed := mgParseHttp_append start.parsed (by omega) body
  have isHead : head ++ body ≠ [] ∧ (0 : Int) < (head.length : Int) :=
    ⟨List.append_ne_nil_of_left_ne_nil start.headed _, by omega⟩
  unfold mgHttpClose
  rw [parsed, overstep_bind_ok]
  dsimp only
  rw [if_pos isHead, Int.toNat_natCast]
  refine ⟨_, ⟨wholeEv isReq, deliverChunk (head ++ body) head.length
    (hm.resized (head ++ body).length hm.body.len), head ++ body⟩, rfl, ?_, ?_⟩
  · rw [List.filter_cons_of_neg (by simp [HttpEvent.Whole]), List.filter_cons_of_pos,
      List.filter_nil]
    · rfl
    · exact decide_eq_true (wholeEv_ne isReq)
  · change ((head ++ body).drop hm.body.p).take ((head ++ body).length - head.length) = body
    rw [start.body_start, List.drop_left, List.length_append, Nat.add_sub_cancel_left,
      List.take_length]

private theorem httpConnection_parts {isReq : Bool} {before after : List CText}
    {io piece next last : CText} {early events late closing : List HttpEvent}
    (first : Receiver.recvAll leaves isReq ⟨[], false⟩ before = .ok (⟨io, false⟩, early))
    (round : mgHttpRound leaves isReq (io ++ piece) = .ok (.rest ⟨next, false⟩, events))
    (second : Receiver.recvAll leaves isReq ⟨next, false⟩ after = .ok (⟨last, false⟩, late))
    (close : mgHttpClose isReq last = .ok closing) :
    httpConnection leaves isReq (before ++ piece :: after) = .ok (early ++ (events ++ late) ++ closing) := by
  unfold httpConnection
  rw [recvAll_append, first, overstep_bind_ok]
  dsimp only
  rw [Receiver.recvAll, recv_round round, overstep_bind_ok]
  dsimp only
  rw [second, overstep_bind_ok]
  dsimp only [Pure.pure, Except.pure]
  rw [overstep_bind_ok, overstep_bind_ok]
  dsimp only
  rw [close, overstep_bind_ok]

/-- A message in chunks that does not begin with a hexadecimal digit is handed
over once, and its body is the data of the chunks if and only if no piece ends
between the end of the first chunk and that of the message. -/
theorem httpConnection_chunks {isReq : Bool} (message : ChunkedMessage isReq)
    (other : ∀ byte ∈ message.first.data.head?, isXdigit byte = false) {pieces : List CText}
    (cut : pieces.flatten = message.bytes) :
    ∃ events whole, httpConnection leaves isReq pieces = .ok events ∧
      events.filter HttpEvent.Whole = [whole] ∧
      (whole.body = message.data ↔ message.KeptWhole pieces) := by
  have threshold := message.first_less
  obtain ⟨before, piece, after, rfl, less, enough⟩ := pieces_cross
    (by
      have positive := List.length_pos_of_ne_nil message.start.headed
      rw [List.length_append]
      omega)
    (cut.symm ▸ threshold.le)
  rw [List.flatten_append, List.flatten_cons, ← List.append_assoc] at cut
  rw [ChunkedMessage.keptWhole_iff less enough]
  obtain ⟨early, recvEarly, calmEarly⟩ := @recvAll_calm leaves isReq [] before (by
    rintro front rest rfl _
    rw [List.flatten_append, List.length_append] at less
    refine @ChunkedMessage.calm_before leaves isReq message _ ?_ (by
      rw [List.nil_append]
      omega)
    rw [List.nil_append, ← cut, List.flatten_append, List.append_assoc, List.append_assoc]
    exact List.prefix_append _ _)
  rw [List.nil_append] at recvEarly
  have noEarly := filter_pieces calmEarly
  by_cases atOnce : after.flatten = []
  · rw [atOnce, List.append_nil] at cut
    obtain ⟨events, whole, round, isWhole, body⟩ := message.round_whole
    rw [← cut] at round
    obtain ⟨late, recvLate, calmLate⟩ := @recvAll_calm leaves isReq [] after (by
      rintro front rest rfl _
      rw [List.flatten_append] at atOnce
      rw [(List.append_eq_nil_iff.mp atOnce).1]
      exact calm_nil leaves isReq)
    rw [List.nil_append, atOnce] at recvLate
    have noLate := filter_pieces calmLate
    refine ⟨_, whole, httpConnection_parts recvEarly round recvLate rfl, ?_,
      iff_of_true body atOnce⟩
    rw [List.append_nil, List.filter_append, List.filter_append, noEarly, isWhole, noLate]
    rfl
  · obtain ⟨done, waiting, left, events, split, someDone, someLeft, pending, round, calmRound⟩ :=
      message.round_part cut atOnce enough
    have noEvents := filter_pieces calmRound
    have noChunk (rest : CText) : mgHttpParseChunk (chunksData done ++ left ++ rest) = none := by
      refine mgHttpParseChunk_other ?_
      rw [List.append_assoc, message.data_head split someDone]
      exact other
    obtain ⟨late, recvLate, calmLate⟩ := @recvAll_calm leaves isReq
        (message.head ++ (chunksData done ++ left)) after (by
      rintro front rest rfl _
      rw [List.append_assoc]
      refine message.start.calm (noChunk _) (lt_of_le_of_lt ?_ message.fits)
      have accounted := congrArg List.length pending
      have dataDone := chunksData_length done
      change _ ≤ (message.head ++ chunksBytes message.chunks).length
      rw [split, chunksBytes_append]
      simp only [List.length_append, List.flatten_append] at accounted ⊢
      omega)
    obtain ⟨closing, whole, close, isWhole, body⟩ :=
      @mgHttpClose_body isReq message.head (chunksData done ++ left ++ after.flatten) _ message.start
    rw [List.append_assoc] at recvLate
    have noLate := filter_pieces calmLate
    refine ⟨_, whole, httpConnection_parts recvEarly round recvLate close, ?_,
      iff_of_false ?_ atOnce⟩
    · rw [List.filter_append, List.filter_append, List.filter_append, noEarly, noEvents, noLate,
        isWhole]
      rfl
    · rw [body, List.append_assoc, pending]
      exact message.data_ne split someLeft

/-- An empty JSON object in one chunk. -/
def chunkedReply : ChunkedMessage false where
  head := text "HTTP/1.1 200 OK\r\nTransfer-Encoding: chunked\r\n\r\n"
  hm :=
    { HttpMessage.start 47 with
      proto := { p := 0, len := 8 }
      respCode := 200
      respStatusMsg := { p := 13, len := 2 }
      headers := [({ p := 17, len := 17 }, { p := 36, len := 7 })] }
  start := ⟨rfl, by decide, by decide, rfl, rfl⟩
  first := ⟨[50], [123, 125], by decide +kernel, by decide, by decide, rfl⟩
  more := []
  last := ⟨[48], [], by decide +kernel, by decide, by decide, rfl⟩
  each := by
    intro chunk member
    obtain rfl := List.mem_singleton.mp member
    exact List.cons_ne_nil _ _
  empty := rfl
  fits := by decide

theorem httpConnection_chunks_torn :
    ∃ events whole, httpConnection (fun _ => false) false
        [chunkedReply.bytes.take 55, chunkedReply.bytes.drop 55] = .ok events ∧
      events.filter HttpEvent.Whole = [whole] ∧
      (whole.body = chunkedReply.data ↔
        chunkedReply.KeptWhole [chunkedReply.bytes.take 55, chunkedReply.bytes.drop 55]) :=
  httpConnection_chunks chunkedReply (by decide +kernel) rfl

end DlcServer
