/-
Which messages a handler gets of a stream, however it is cut into pieces.

A message that says how long it is comes once, when its last byte is there, and
messages come in their order.  Its body is its own with whatever of the next
messages has come in the same piece.  A message that is not whole when the
connection is closed is handed over as far as it has come.
-/

import DlcServer.HttpHandler

namespace DlcServer

open Library

variable {leaves : HttpEvent → Bool}

/-! ### Header fields -/

section Fields

variable {buf : CText}

private theorem find_within {headers : List (MgStr × MgStr)} (name : CText)
    (inside : ∀ header ∈ headers, header.1.p + header.1.len ≤ buf.length) :
    ∃ found, mgGetHttpHeader.find buf name headers = .ok found ∧
      ∀ v ∈ found, ∃ k, (k, v) ∈ headers := by
  induction headers with
  | nil => exact ⟨none, rfl, fun v member => by cases member⟩
  | cons header more ih =>
      obtain ⟨h, v⟩ := header
      rw [List.forall_mem_cons] at inside
      obtain ⟨found, isFound, member⟩ := ih inside.2
      have later : ∀ value ∈ found, ∃ k, (k, value) ∈ (h, v) :: more :=
        fun value isValue => (member value isValue).imp fun _ => List.mem_cons_of_mem _
      rw [mgGetHttpHeader.find]
      split
      · next sameLength =>
          obtain ⟨diff, compared⟩ := mgNcasecmp_inside name (sameLength ▸ inside.1)
          rw [compared, overstep_bind_ok]
          split
          · exact ⟨some v, rfl, fun value isValue => ⟨h, by cases isValue; exact List.mem_cons_self⟩⟩
          · exact ⟨found, isFound, later⟩
      · exact ⟨found, isFound, later⟩

private theorem find_append {headers : List (MgStr × MgStr)} {name : CText} {found : Option MgStr}
    (done : mgGetHttpHeader.find buf name headers = .ok found) (more : CText) :
    mgGetHttpHeader.find (buf ++ more) name headers = .ok found := by
  induction headers with
  | nil => exact done
  | cons header others ih =>
      obtain ⟨h, v⟩ := header
      rw [mgGetHttpHeader.find] at done ⊢
      split at done
      · next sameLength =>
          obtain ⟨diff, compared, done⟩ := overstep_bind_eq_ok done
          rw [if_pos sameLength, mgNcasecmp_append compared more, overstep_bind_ok]
          split at done
          · next same =>
              rw [if_pos same]
              exact done
          · next other =>
              rw [if_neg other]
              exact ih done
      · next otherLength =>
          rw [if_neg otherLength]
          exact ih done

theorem isChunked_within {last : Nat} {hm : HttpMessage} (within : WithinHead last hm)
    (inside : last ≤ buf.length) : ∃ chunked, isChunked buf hm = .ok chunked := by
  obtain ⟨found, isFound, member⟩ := @find_within buf _ (text "Transfer-Encoding")
    (fun header isHeader => (within.headers header isHeader).2.2.1.trans inside)
  have isField : mgGetHttpHeader buf hm (text "Transfer-Encoding") = .ok found := isFound
  unfold isChunked
  rw [isField, overstep_bind_ok]
  cases found with
  | none => exact ⟨false, rfl⟩
  | some s =>
      obtain ⟨k, isHeader⟩ := member s rfl
      obtain ⟨diff, compared⟩ := mgVcasecmp_inside
        ((within.headers _ isHeader).2.2.2.trans inside) (text "chunked")
      dsimp only at compared ⊢
      rw [compared]
      exact ⟨_, rfl⟩

theorem isChunked_append {hm : HttpMessage} {chunked : Bool}
    (done : isChunked buf hm = .ok chunked) (more : CText) :
    isChunked (buf ++ more) hm = .ok chunked := by
  unfold isChunked at done ⊢
  obtain ⟨found, isFound, done⟩ := overstep_bind_eq_ok done
  have stays : mgGetHttpHeader (buf ++ more) hm (text "Transfer-Encoding") = .ok found :=
    find_append isFound more
  rw [stays, overstep_bind_ok]
  cases found with
  | none => exact done
  | some s =>
      dsimp only at done ⊢
      obtain ⟨diff, compared, done⟩ := overstep_bind_eq_ok done
      rw [mgVcasecmp_append compared more]
      exact done

end Fields

/-! ### What a message is -/

/-- A head that is not too long, of a message that comes in one part. -/
structure PlainHead (isReq : Bool) (stream : CText) (len : Nat) (hm : HttpMessage) : Prop where
  parsed : mgParseHttp stream isReq = .ok ((len : Int), hm)
  headed : 0 < len
  short : len ≤ maxHttpRequestSize
  plain : isChunked stream hm = .ok false

/-- One message and nothing else, by the length it gives. -/
structure OneMessage (isReq : Bool) (message : CText) (len : Nat) (hm : HttpMessage) : Prop
    extends PlainHead isReq message len hm where
  whole : hm.message.len = message.length

/-- The start of a message that has not ended: its head has not, or it gives a
length that is not reached. -/
inductive Unfinished (isReq : Bool) (stream : CText) : Prop
  | headless (parsed : mgParseHttp stream isReq = .ok (0, .zero))
      (short : stream.length < maxHttpRequestSize)
  | headed (len : Nat) (hm : HttpMessage) (head : PlainHead isReq stream len hm)
      (more : stream.length < hm.message.len)

namespace PlainHead

variable {isReq : Bool} {stream : CText} {len : Nat} {hm : HttpMessage}

theorem inside (head : PlainHead isReq stream len hm) : len ≤ stream.length := by
  obtain ⟨n, found, isFound, outcome⟩ := mgParseHttp_within stream isReq
  have headed := head.headed
  rw [head.parsed] at isFound
  cases isFound
  rcases outcome with ⟨zero, _⟩ | bad | ⟨last, isLast, headAt, _⟩
  · omega
  · omega
  · have inside := headAt.inside
    omega

theorem within (head : PlainHead isReq stream len hm) : WithinHead len hm := by
  obtain ⟨n, found, isFound, outcome⟩ := mgParseHttp_within stream isReq
  have headed := head.headed
  rw [head.parsed] at isFound
  cases isFound
  rcases outcome with ⟨zero, _⟩ | bad | ⟨last, isLast, _, within⟩
  · omega
  · omega
  · cases Int.ofNat.inj isLast
    exact within

theorem append (head : PlainHead isReq stream len hm) (more : CText) :
    PlainHead isReq (stream ++ more) len hm where
  parsed := mgParseHttp_append head.parsed (by have headed := head.headed; omega) more
  headed := head.headed
  short := head.short
  plain := isChunked_append head.plain more

/-- The head is found in any part of the stream that it is in. -/
theorem front {front behind : CText} (head : PlainHead isReq (front ++ behind) len hm)
    (enough : len ≤ front.length) : PlainHead isReq front len hm := by
  have parsed := mgParseHttp_front head.parsed head.headed
  rw [if_pos enough] at parsed
  refine ⟨parsed, head.headed, head.short, ?_⟩
  obtain ⟨chunked, isChunked_⟩ := isChunked_within head.within enough
  have same := isChunked_append isChunked_ behind
  rw [head.plain] at same
  cases same
  exact isChunked_

end PlainHead

/-- What has come of a message that is not whole is the start of one. -/
theorem PlainHead.unfinished {isReq : Bool} {front behind : CText} {len : Nat} {hm : HttpMessage}
    (head : PlainHead isReq (front ++ behind) len hm) (more : front.length < hm.message.len) :
    Unfinished isReq front := by
  by_cases enough : len ≤ front.length
  · exact .headed len hm (head.front enough) more
  · have parsed := mgParseHttp_front head.parsed head.headed
    rw [if_neg enough] at parsed
    have short := head.short
    exact .headless parsed (by omega)

theorem Unfinished.front {isReq : Bool} {front behind : CText}
    (unfinished : Unfinished isReq (front ++ behind)) : Unfinished isReq front := by
  cases unfinished with
  | headed len hm head more =>
      rw [List.length_append] at more
      exact head.unfinished (by omega)
  | headless parsed short =>
      rw [List.length_append] at short
      obtain ⟨n, found, isFound, outcome⟩ := mgParseHttp_within front isReq
      by_cases undecided : n = 0
      · rcases outcome with ⟨_, isZero⟩ | bad | ⟨last, isLast, headAt, _⟩
        · subst undecided isZero
          exact .headless isFound (by omega)
        · omega
        · have long := headAt.long
          omega
      · have same := mgParseHttp_append isFound undecided behind
        rw [parsed] at same
        cases same
        exact absurd rfl undecided

/-! ### One round -/

theorem filter_pieces {events : List HttpEvent} (pieces : ∀ event ∈ events, ¬event.Whole) :
    events.filter HttpEvent.Whole = [] :=
  List.filter_eq_nil_iff.mpr (by simpa using pieces)

/-- The event that hands a message over when `behind` has come behind it. -/
def handedOver (isReq : Bool) (message behind : CText) (len : Nat) (hm : HttpMessage) : HttpEvent where
  ev := wholeEv isReq
  hm := deliverChunk (message ++ behind) len hm
  buf := message ++ behind

theorem wholeEv_ne (isReq : Bool) : wholeEv isReq ≠ .chunk := by
  cases isReq <;> decide

private theorem handedOver_body {isReq : Bool} {message : CText} {len : Nat} {hm : HttpMessage}
    (head : PlainHead isReq message len hm) (behind : CText) :
    (handedOver isReq message behind len hm).body = message.drop len ++ behind := by
  have start := head.within.body
  have inside := head.inside
  unfold handedOver HttpEvent.body MgStr.bytes deliverChunk
  dsimp only
  rw [start, List.drop_append_of_le_length inside, List.length_append,
    List.take_of_length_le]
  rw [List.length_append, List.length_drop]
  omega

private theorem reassemble_plain (reqLen : Nat) (io : CText) (hm : HttpMessage) :
    reassemble false reqLen io hm = .ok (io, hm, []) :=
  rfl

/-- A round over the start of a message waits, with a piece of it handed over at
most. -/
theorem mgHttpRound_unfinished {isReq : Bool} {io : CText} (unfinished : Unfinished isReq io) :
    ∃ events, mgHttpRound leaves isReq io = .ok (.rest ⟨io, false⟩, events) ∧
      ∀ event ∈ events, ¬event.Whole := by
  unfold mgHttpRound
  cases unfinished with
  | headless parsed short =>
      have neither : ¬((0 : Int) < 0 ∨ (0 : Int) = 0 ∧ maxHttpRequestSize ≤ io.length) := by omega
      rw [parsed, overstep_bind_ok]
      dsimp only
      rw [if_neg neither, if_pos rfl]
      exact ⟨[], rfl, fun _ member => absurd member List.not_mem_nil⟩
  | headed len hm head more =>
      have headed := head.headed
      have neither : ¬((len : Int) < 0 ∨ (len : Int) = 0 ∧ maxHttpRequestSize ≤ io.length) := by
        omega
      have notZero : ¬(len : Int) = 0 := by omega
      rw [head.parsed, overstep_bind_ok]
      dsimp only
      rw [if_neg neither, if_neg notZero]
      unfold mgHttpMessage
      rw [head.plain, overstep_bind_ok, reassemble_plain, overstep_bind_ok]
      dsimp only
      rw [if_pos more]
      refine ⟨_, rfl, ?_⟩
      rw [List.nil_append, List.forall_mem_singleton]
      exact fun whole => whole rfl

private theorem mgHttpRound_message {isReq : Bool} {message behind : CText} {len : Nat} {hm : HttpMessage}
    (one : OneMessage isReq message len hm)
    (unheld : behind ≠ [] → leaves (handedOver isReq message behind len hm) = false) :
    ∃ chunk, mgHttpRound leaves isReq (message ++ behind) =
        .ok (if behind = [] then .rest ⟨[], false⟩ else .again behind,
          [chunk, handedOver isReq message behind len hm]) ∧
      ¬chunk.Whole := by
  have head := one.toPlainHead.append behind
  have headed := head.headed
  have long := one.toPlainHead.inside
  unfold mgHttpRound
  have neither : ¬((len : Int) < 0 ∨ (len : Int) = 0 ∧
      maxHttpRequestSize ≤ (message ++ behind).length) := by
    omega
  have notZero : ¬(len : Int) = 0 := by omega
  have arrived : ¬(message ++ behind).length < hm.message.len := by
    rw [one.whole, List.length_append]
    omega
  have removed : mbufRemove (message ++ behind) hm.message.len = behind := by
    unfold mbufRemove
    rw [one.whole, if_pos (by rw [List.length_append]; omega), List.drop_left]
  rw [head.parsed, overstep_bind_ok]
  dsimp only
  rw [if_neg neither, if_neg notZero]
  unfold mgHttpMessage
  rw [head.plain, overstep_bind_ok, reassemble_plain, overstep_bind_ok]
  dsimp only
  rw [if_neg arrived, removed, Int.toNat_natCast]
  refine ⟨{ ev := .chunk, hm := deliverChunk (message ++ behind) len hm, buf := message ++ behind },
    ?_, fun whole => whole rfl⟩
  by_cases none_ : behind = []
  · rw [if_pos none_, if_neg (fun both => both.2 none_), none_]
    rfl
  · have requestDone : leaves { ev := wholeEv isReq
                                hm := deliverChunk (message ++ behind) len hm
                                buf := message ++ behind } = false := unheld none_
    rw [if_neg none_, requestDone, if_pos ⟨rfl, none_⟩]
    rfl

/-! ### Runs -/

/-- The messages and the events that hand them over, one each and in order.  What
comes with a message is the start of what follows it, and is handed over with its own
body: `behind` follows them all. -/
inductive Delivers (isReq : Bool) (behind : CText) : List CText → List HttpEvent → Prop
  | nil : Delivers isReq behind [] []
  | cons {message came : CText} {len : Nat} {hm : HttpMessage} {messages : List CText}
      {events : List HttpEvent} (one : OneMessage isReq message len hm)
      (follows : came <+: messages.flatten ++ behind)
      (body : (handedOver isReq message came len hm).body = message.drop len ++ came)
      (more : Delivers isReq behind messages events) :
      Delivers isReq behind (message :: messages) (handedOver isReq message came len hm :: events)

theorem Delivers.append {isReq : Bool} {behind : CText} {first second : List CText}
    {events more : List HttpEvent} (delivers : Delivers isReq (second.flatten ++ behind) first events)
    (delivered : Delivers isReq behind second more) :
    Delivers isReq behind (first ++ second) (events ++ more) := by
  induction delivers with
  | nil => exact delivered
  | cons one follows body _ ih =>
      refine .cons one ?_ body ih
      change _ <+: (_ ++ second).flatten ++ behind
      rw [List.flatten_append, List.append_assoc]
      exact follows

/-- No handler leaves an answer under way while more of the stream is there. -/
def Unheld (leaves : HttpEvent → Bool) (isReq : Bool) (behind : CText) : List CText → Prop
  | [] => True
  | message :: messages =>
      (∀ len hm came, OneMessage isReq message len hm → came ≠ [] →
        came <+: messages.flatten ++ behind →
          leaves (handedOver isReq message came len hm) = false) ∧
        Unheld leaves isReq behind messages

theorem Unheld.right {isReq : Bool} {behind : CText} {first second : List CText}
    (unheld : Unheld leaves isReq behind (first ++ second)) :
    Unheld leaves isReq behind second := by
  induction first with
  | nil => exact unheld
  | cons message first ih => exact ih unheld.2

theorem unfinished_nil (isReq : Bool) : Unfinished isReq [] :=
  .headless rfl (by decide)

section Runs

variable {isReq : Bool} {tail : CText}

/-- What is received on has ended in whole messages, and what is left of it is the
start of the next one. -/
structure HttpProgress (isReq : Bool) (tail behind : CText) (messages : List CText)
    (outcome : Except Overstep (Receiver × List HttpEvent)) : Prop where
  parts : ∃ done waiting left events, messages = done ++ waiting ∧
    outcome = .ok (⟨left, false⟩, events) ∧ left ++ behind = waiting.flatten ++ tail ∧
    (∀ message ∈ waiting.head?, left.length < message.length) ∧
    Delivers isReq (waiting.flatten ++ tail) done (events.filter HttpEvent.Whole)

private theorem unfinished_of_waiting {io behind : CText} {messages : List CText}
    (each : ∀ message ∈ messages, ∃ len hm, OneMessage isReq message len hm)
    (unfinished : Unfinished isReq tail) (split : io ++ behind = messages.flatten ++ tail)
    (short : ∀ message ∈ messages.head?, io.length < message.length) : Unfinished isReq io := by
  cases messages with
  | nil =>
      rw [List.flatten_nil, List.nil_append] at split
      subst split
      exact unfinished.front
  | cons message messages =>
      obtain ⟨len, hm, one⟩ := each message List.mem_cons_self
      have less := short message rfl
      rw [List.flatten_cons, List.append_assoc] at split
      obtain ⟨rest, rfl⟩ : ∃ rest, message = io ++ rest := by
        have taken := congrArg (List.take io.length) split
        rw [List.take_left, List.take_append_of_le_length less.le] at taken
        exact ⟨message.drop io.length, by conv_lhs => rw [← List.take_append_drop io.length message, ← taken]⟩
      exact one.toPlainHead.unfinished (one.whole ▸ less)

private theorem mgHttpRecv_received {io behind : CText} {messages : List CText} {fuel : Nat}
    (each : ∀ message ∈ messages, ∃ len hm, OneMessage isReq message len hm)
    (unheld : Unheld leaves isReq tail messages) (unfinished : Unfinished isReq tail)
    (split : io ++ behind = messages.flatten ++ tail) (enough : io.length < fuel) :
    HttpProgress isReq tail behind messages (mgHttpRecv leaves isReq fuel io) := by
  induction messages generalizing io fuel with
  | nil =>
      obtain ⟨fuel, rfl⟩ : ∃ less, fuel = less + 1 := ⟨fuel - 1, by omega⟩
      have start := unfinished_of_waiting each unfinished split (fun _ none_ => by cases none_)
      obtain ⟨events, round, pieces⟩ := mgHttpRound_unfinished start
      rw [mgHttpRecv, round, overstep_bind_ok]
      refine ⟨[], [], io, events, rfl, rfl, split, (fun _ none_ => by cases none_), ?_⟩
      rw [filter_pieces pieces]
      exact .nil
  | cons message messages ih =>
      obtain ⟨fuel, rfl⟩ : ∃ less, fuel = less + 1 := ⟨fuel - 1, by omega⟩
      by_cases short : io.length < message.length
      · have start := unfinished_of_waiting each unfinished split
          (fun other isFirst => by cases isFirst; exact short)
        obtain ⟨events, round, pieces⟩ := mgHttpRound_unfinished start
        rw [mgHttpRecv, round, overstep_bind_ok]
        refine ⟨[], message :: messages, io, events, rfl, rfl, split,
          (fun other isFirst => by cases isFirst; exact short), ?_⟩
        rw [filter_pieces pieces]
        exact .nil
      · obtain ⟨len, hm, one⟩ := each message List.mem_cons_self
        rw [List.flatten_cons, List.append_assoc] at split
        obtain ⟨came, rfl⟩ : ∃ came, io = message ++ came := by
          have taken := congrArg (List.take message.length) split
          rw [List.take_left, List.take_append_of_le_length (by omega)] at taken
          exact ⟨io.drop message.length, by
            conv_lhs => rw [← List.take_append_drop message.length io, taken]⟩
        rw [List.append_assoc, List.append_cancel_left_eq] at split
        have long := one.toPlainHead.inside
        have headed := one.headed
        rw [List.length_append] at enough
        have follows : came <+: messages.flatten ++ tail := ⟨behind, split⟩
        have body := handedOver_body one.toPlainHead came
        obtain ⟨chunk, round, piece⟩ := mgHttpRound_message one
          (fun some_ => unheld.1 len hm came one some_ follows)
        have others : ∀ other ∈ messages, ∃ len hm, OneMessage isReq other len hm :=
          fun other member => each other (List.mem_cons_of_mem _ member)
        rw [mgHttpRecv, round, overstep_bind_ok]
        have filtered (events : List HttpEvent) :
            (chunk :: handedOver isReq message came len hm :: events).filter HttpEvent.Whole =
              handedOver isReq message came len hm :: events.filter HttpEvent.Whole := by
          rw [List.filter_cons_of_neg (by simpa using piece), List.filter_cons_of_pos]
          exact decide_eq_true (wholeEv_ne isReq)
        by_cases none_ : came = []
        · subst none_
          rw [if_pos rfl]
          refine ⟨[message], messages, [], _, rfl, rfl, split, ?_, ?_⟩
          · intro other isFirst
            obtain ⟨otherLen, otherHm, otherOne⟩ := others other (List.mem_of_mem_head? isFirst)
            have otherLong := otherOne.toPlainHead.inside
            have otherHeaded := otherOne.headed
            exact lt_of_lt_of_le otherHeaded otherLong
          · rw [filtered]
            exact .cons one follows body .nil
        · rw [if_neg none_]
          dsimp only
          obtain ⟨done, waiting, left, events, rfl, recv, rest, less, delivers⟩ :=
            (@ih came fuel others unheld.2 split (by omega)).parts
          rw [recv, overstep_bind_ok]
          refine ⟨message :: done, waiting, left, _, rfl, rfl, rest, less, ?_⟩
          rw [List.cons_append, List.cons_append, List.nil_append, filtered]
          refine .cons one ?_ body delivers
          rw [← List.append_assoc, ← List.flatten_append]
          exact follows

private theorem recvAll_received {left behind : CText} {messages : List CText} {pieces : List CText}
    (each : ∀ message ∈ messages, ∃ len hm, OneMessage isReq message len hm)
    (unheld : Unheld leaves isReq tail messages) (unfinished : Unfinished isReq tail)
    (short : ∀ message ∈ messages.head?, left.length < message.length)
    (split : left ++ (pieces.flatten ++ behind) = messages.flatten ++ tail) :
    HttpProgress isReq tail behind messages
      (Receiver.recvAll leaves isReq ⟨left, false⟩ pieces) := by
  induction pieces generalizing left messages with
  | nil => exact ⟨[], messages, left, [], rfl, rfl, split, short, .nil⟩
  | cons piece pieces ih =>
      rw [List.flatten_cons, List.append_assoc, ← List.append_assoc left] at split
      obtain ⟨done, waiting, between, events, rfl, recv, rest, less, delivers⟩ :=
        (mgHttpRecv_received each unheld unfinished split (Nat.lt_succ_self _)).parts
      have others : ∀ message ∈ waiting, ∃ len hm, OneMessage isReq message len hm :=
        fun message member => each message (List.mem_append_right _ member)
      obtain ⟨doneMore, waitingMore, last, more, rfl, recvMore, restMore, lessMore, deliversMore⟩ :=
        (ih others unheld.right less rest).parts
      have one : Receiver.recv leaves isReq ⟨left, false⟩ piece =
          .ok (⟨between, false⟩, events) := recv
      rw [Receiver.recvAll, one, overstep_bind_ok]
      dsimp only
      rw [recvMore, overstep_bind_ok]
      refine ⟨done ++ doneMore, waitingMore, last, events ++ more, by rw [List.append_assoc], rfl,
        restMore, lessMore, ?_⟩
      rw [List.filter_append]
      refine .append ?_ deliversMore
      rw [← List.append_assoc, ← List.flatten_append]
      exact delivers

private theorem recvAll_whole {messages : List CText} {pieces : List CText}
    (each : ∀ message ∈ messages, ∃ len hm, OneMessage isReq message len hm)
    (unheld : Unheld leaves isReq tail messages) (unfinished : Unfinished isReq tail)
    (cut : pieces.flatten = messages.flatten ++ tail) :
    ∃ events, Receiver.recvAll leaves isReq ⟨[], false⟩ pieces = .ok (⟨tail, false⟩, events) ∧
      Delivers isReq tail messages (events.filter HttpEvent.Whole) := by
  have start : ∀ message ∈ messages.head?, ([] : CText).length < message.length := by
    intro message isFirst
    obtain ⟨len, hm, one⟩ := each message (List.mem_of_mem_head? isFirst)
    exact lt_of_lt_of_le one.headed one.toPlainHead.inside
  obtain ⟨done, waiting, left, events, rfl, recv, rest, less, delivers⟩ :=
    (@recvAll_received leaves isReq tail [] [] _ pieces each unheld unfinished start (by
      rw [List.append_nil]
      exact cut)).parts
  rw [List.append_nil] at rest
  obtain rfl : waiting = [] := by
    cases waiting with
    | nil => rfl
    | cons message waiting =>
        have short := less message rfl
        rw [rest, List.flatten_cons, List.length_append, List.length_append] at short
        omega
  rw [List.flatten_nil, List.nil_append] at rest delivers
  subst rest
  refine ⟨events, recv, ?_⟩
  rw [List.append_nil]
  exact delivers

end Runs

/-- The event that hands over what has come of an unfinished message. -/
def cutOff (isReq : Bool) (tail : CText) : List HttpEvent :=
  match mgParseHttp tail isReq with
  | .ok (reqLen, hm) =>
      if 0 < reqLen then
        let hm := { hm with message := { hm.message with len := tail.length } }
        [{ ev := wholeEv isReq, hm := deliverChunk tail reqLen.toNat hm, buf := tail }]
      else []
  | .error _ => []

private theorem mgHttpClose_cutOff (isReq : Bool) (tail : CText) :
    ∃ events, mgHttpClose isReq tail = .ok events ∧
      events.filter HttpEvent.Whole = cutOff isReq tail := by
  obtain ⟨len, hm, parsed, _⟩ := mgParseHttp_within tail isReq
  unfold mgHttpClose cutOff
  rw [parsed, overstep_bind_ok]
  dsimp only
  by_cases headed : 0 < len
  · have some_ : tail ≠ [] := by
      rintro rfl
      cases parsed
      contradiction
    rw [if_pos ⟨some_, headed⟩, if_pos headed]
    refine ⟨_, rfl, ?_⟩
    rw [List.filter_cons_of_neg (by simp [HttpEvent.Whole]), List.filter_cons_of_pos,
      List.filter_nil]
    exact decide_eq_true (wholeEv_ne isReq)
  · rw [if_neg headed, if_neg (fun both => headed both.2)]
    exact ⟨[], rfl, rfl⟩

/-- However a stream of messages is cut into pieces, each message is handed over
once and in its turn, and what is left of it when the connection is closed comes
last, where no handler leaves an answer under way with more of the stream behind it. -/
theorem httpConnection_delivers {isReq : Bool} {messages : List CText} {tail : CText}
    (each : ∀ message ∈ messages, ∃ len hm, OneMessage isReq message len hm)
    (unheld : Unheld leaves isReq tail messages) (unfinished : Unfinished isReq tail)
    {pieces : List CText}
    (cut : pieces.flatten = messages.flatten ++ tail) :
    ∃ events handed, httpConnection leaves isReq pieces = .ok events ∧
      events.filter HttpEvent.Whole = handed ++ cutOff isReq tail ∧
      Delivers isReq tail messages handed := by
  obtain ⟨events, recv, delivers⟩ := recvAll_whole each unheld unfinished cut
  obtain ⟨last, close, isLast⟩ := mgHttpClose_cutOff isReq tail
  unfold httpConnection
  rw [recv, overstep_bind_ok]
  dsimp only
  rw [close]
  refine ⟨events ++ last, events.filter HttpEvent.Whole, rfl, ?_, delivers⟩
  rw [List.filter_append, isLast]

def shortReply : CText :=
  text "HTTP/1.1 200 OK\r\nContent-Length: 1\r\n\r\nx"

def shortReplyMessage : HttpMessage :=
  { HttpMessage.start 38 with
    message := { p := 0, len := 39 }
    body := { p := 38, len := 1 }
    proto := { p := 0, len := 8 }
    respCode := 200
    respStatusMsg := { p := 13, len := 2 }
    headers := [({ p := 17, len := 14 }, { p := 33, len := 1 })] }

private theorem shortReply_one : OneMessage false shortReply 38 shortReplyMessage where
  parsed := rfl
  headed := by decide
  short := by decide
  plain := rfl
  whole := rfl

theorem httpConnection_delivers_two :
    ∃ events handed, httpConnection (fun _ => false) false
        [shortReply.take 20, shortReply.drop 20 ++ shortReply] = .ok events ∧
      events.filter HttpEvent.Whole = handed ++ cutOff false [] ∧
      Delivers false [] [shortReply, shortReply] handed :=
  httpConnection_delivers
    (by
      intro message member
      simp only [List.mem_cons, List.not_mem_nil, or_false, or_self] at member
      subst member
      exact ⟨38, shortReplyMessage, shortReply_one⟩)
    (show Unheld (fun _ => false) false [] [shortReply, shortReply] from
      ⟨fun _ _ _ _ _ _ => rfl, fun _ _ _ _ _ _ => rfl, trivial⟩)
    (unfinished_nil false) rfl

/-- A connection that brings one message hands it over, with all of it there. -/
theorem httpConnection_one {isReq : Bool} {message : CText} {len : Nat} {hm : HttpMessage}
    (one : OneMessage isReq message len hm) {pieces : List CText} (cut : pieces.flatten = message) :
    ∃ events, httpConnection leaves isReq pieces = .ok events ∧
      events.filter HttpEvent.Whole = [handedOver isReq message [] len hm] := by
  obtain ⟨events, recv, delivers⟩ := @recvAll_whole leaves isReq [] [message] pieces
    (fun other member => ⟨len, hm, List.mem_singleton.mp member ▸ one⟩)
    ⟨fun _ _ _ _ some_ none_ => absurd (List.prefix_nil.mp none_) some_, trivial⟩
    (unfinished_nil isReq) (by rw [cut, List.flatten_singleton, List.append_nil])
  obtain ⟨last, close, isLast⟩ := mgHttpClose_cutOff isReq []
  have nothing : cutOff isReq [] = [] := rfl
  generalize isHanded : events.filter HttpEvent.Whole = handed at delivers
  have handedOne : handed = [handedOver isReq message [] len hm] := by
    cases delivers with
    | @cons _ came _ _ _ _ other follows _ more =>
        cases more
        rw [List.flatten_nil, List.append_nil, List.prefix_nil] at follows
        have same := one.parsed.symm.trans other.parsed
        injection same with both
        injection both with sameLen sameHm
        rw [follows, sameHm, Int.ofNat_inj.mp sameLen]
  unfold httpConnection
  rw [recv, overstep_bind_ok]
  dsimp only
  rw [close]
  refine ⟨events ++ last, rfl, ?_⟩
  rw [List.filter_append, isHanded, isLast, nothing, List.append_nil, handedOne]

end DlcServer
