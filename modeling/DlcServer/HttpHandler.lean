/-
The handler of mongoose that makes messages of what a connection receives.

After each piece of the stream it parses what is buffered, hands it over and goes
on with what is left, unless the handler of a message leaves an answer under way, a
file or a CGI process, as `ev_handler` of the monitor can.  Its own state is made
anew with every head that it finds, so the receive buffer is all it has.  No handler
of the program asks for data to be dropped, and buffers are shorter than an `int` can
count.
-/

import DlcServer.HttpHeads

namespace DlcServer

open Library

inductive HttpEv
  | chunk
  | request
  | reply
  deriving DecidableEq, Repr

/-- A call of the handler of a connection, with the receive buffer as it is then. -/
structure HttpEvent where
  ev : HttpEv
  hm : HttpMessage
  buf : CText

namespace HttpEvent

def body (event : HttpEvent) : CText :=
  event.hm.body.bytes event.buf

/-- A message and no piece of one. -/
def Whole (event : HttpEvent) : Prop :=
  event.ev ≠ .chunk

instance (event : HttpEvent) : Decidable event.Whole :=
  inferInstanceAs (Decidable (_ ≠ _))

end HttpEvent

/-- `recv_mbuf`, and whether the connection is to be closed. -/
structure Receiver where
  recvMbuf : CText
  closing : Bool

/-! ### Chunks -/

def isXdigit (byte : UInt8) : Bool :=
  (Json.hexDigit byte).isSome

def chunkSize (digits : CText) : Nat :=
  digits.foldl (fun n byte => 16 * n + (Json.hexDigit byte).getD 0) 0

/-- `mg_http_parse_chunk`: the data, and how many bytes the chunk takes. -/
def mgHttpParseChunk (buf : CText) : Option (CText × Nat) :=
  let digits := buf.takeWhile isXdigit
  let n := chunkSize digits
  if 6 < digits.length then none
  else if digits = [] ∨ (buf.drop digits.length).take 2 ≠ [13, 10] then none
  else
    let data := digits.length + 2
    if (buf.drop (data + n)).take 2 ≠ [13, 10] then none
    else some ((buf.drop data).take n, data + n + 2)

/-- The chunks at the start of a buffer: their data, what is behind them, and
whether the last one was empty. -/
def collapseChunks : Nat → CText → Except Overstep (CText × CText × Bool)
  | 0, _ => .error .fuel
  | fuel + 1, buf =>
      match mgHttpParseChunk buf with
      | none => .ok ([], buf, false)
      | some (data, n) =>
          if data = [] then .ok ([], buf.drop n, true)
          else do
            let (more, left, zeroChunkReceived) ← collapseChunks fuel (buf.drop n)
            return (data ++ more, left, zeroChunkReceived)

def mgHandleChunked (io : CText) (reqLen : Nat) (hm : HttpMessage) :
    Except Overstep (CText × HttpMessage × List HttpEvent) := do
  let buf := io.drop reqLen
  let (decoded, left, zeroChunkReceived) ← collapseChunks (buf.length + 1) buf
  if left.length < buf.length then
    let io := io.take reqLen ++ decoded ++ left
    let hm := { hm with body := { hm.body with len := decoded.length } }
    let event := { ev := .chunk, hm := hm, buf := io }
    if zeroChunkReceived then
      return (io, { hm with
        message := { hm.message with len := decoded.length + left.length + reqLen } }, [event])
    else return (io, hm, [event])
  else return (io, hm, [])

/-! ### Events -/

/-- `deliver_chunk`: the message, with all that is behind the head as its body. -/
def deliverChunk (io : CText) (reqLen : Nat) (hm : HttpMessage) : HttpMessage :=
  { hm with body := { hm.body with len := io.length - reqLen } }

def mbufRemove (io : CText) (n : Nat) : CText :=
  if 0 < n ∧ n ≤ io.length then io.drop n else io

def maxHttpRequestSize : Nat := 8192

inductive Round
  | rest (receiver : Receiver)
  | again (left : CText)

def wholeEv (isReq : Bool) : HttpEv :=
  if isReq then .request else .reply

/-- Is `Transfer-Encoding` there, and `chunked`? -/
def isChunked (io : CText) (hm : HttpMessage) : Except Overstep Bool := do
  match ← mgGetHttpHeader io hm (text "Transfer-Encoding") with
  | none => return false
  | some s => return (← mgVcasecmp io s (text "chunked")) = 0

/-- Chunks that are there are put together where the message comes in chunks. -/
def reassemble (chunked : Bool) (reqLen : Nat) (io : CText) (hm : HttpMessage) :
    Except Overstep (CText × HttpMessage × List HttpEvent) :=
  if chunked then mgHandleChunked io reqLen hm else .ok (io, hm, [])

/-- What is done with a head of `reqLen` bytes and what is behind it; `leaves` says
whether `pd->file.fp` or `pd->cgi.cgi_nc` is set behind the call of the handler. -/
def mgHttpMessage (leaves : HttpEvent → Bool) (isReq : Bool) (reqLen : Nat) (io : CText)
    (hm : HttpMessage) :
    Except Overstep (Round × List HttpEvent) := do
  let rcvd := io.length
  let (io, hm, events) ← reassemble (← isChunked io hm) reqLen io hm
  let delivered := deliverChunk io reqLen hm
  let chunk := { ev := .chunk, hm := delivered, buf := io }
  if rcvd < hm.message.len then return (.rest ⟨io, false⟩, events ++ [chunk])
  else
    let whole := { ev := wholeEv isReq, hm := delivered, buf := io }
    let left := mbufRemove io hm.message.len
    let requestDone := !leaves whole
    return (if requestDone = true ∧ left ≠ [] then .again left else .rest ⟨left, false⟩,
      events ++ [chunk, whole])

def mgHttpRound (leaves : HttpEvent → Bool) (isReq : Bool) (io : CText) :
    Except Overstep (Round × List HttpEvent) := do
  let (reqLen, hm) ← mgParseHttp io isReq
  if reqLen < 0 ∨ reqLen = 0 ∧ maxHttpRequestSize ≤ io.length then
    return (.rest ⟨io, true⟩, [])
  else if reqLen = 0 then return (.rest ⟨io, false⟩, [])
  else mgHttpMessage leaves isReq reqLen.toNat io hm

def mgHttpRecv (leaves : HttpEvent → Bool) (isReq : Bool) :
    Nat → CText → Except Overstep (Receiver × List HttpEvent)
  | 0, _ => .error .fuel
  | fuel + 1, io => do
      match ← mgHttpRound leaves isReq io with
      | (.rest receiver, events) => return (receiver, events)
      | (.again left, events) =>
          let (receiver, more) ← mgHttpRecv leaves isReq fuel left
          return (receiver, events ++ more)

/-- `mg_http_handler` on `MG_EV_CLOSE`. -/
def mgHttpClose (isReq : Bool) (io : CText) : Except Overstep (List HttpEvent) := do
  let (reqLen, hm) ← mgParseHttp io isReq
  if io ≠ [] ∧ 0 < reqLen then
    let hm := { hm with message := { hm.message with len := io.length } }
    let delivered := deliverChunk io reqLen.toNat hm
    return [{ ev := .chunk, hm := delivered, buf := io },
      { ev := wholeEv isReq, hm := delivered, buf := io }]
  else return []

/-! ### Connections -/

/-- A piece of the stream is received; nothing is read from a connection that is
to be closed. -/
def Receiver.recv (leaves : HttpEvent → Bool) (isReq : Bool) (receiver : Receiver)
    (piece : CText) : Except Overstep (Receiver × List HttpEvent) :=
  if receiver.closing then .ok (receiver, [])
  else
    let io := receiver.recvMbuf ++ piece
    mgHttpRecv leaves isReq (io.length + 1) io

def Receiver.recvAll (leaves : HttpEvent → Bool) (isReq : Bool) (receiver : Receiver) :
    List CText → Except Overstep (Receiver × List HttpEvent)
  | [] => .ok (receiver, [])
  | piece :: pieces => do
      let (receiver, events) ← receiver.recv leaves isReq piece
      let (receiver, more) ← receiver.recvAll leaves isReq pieces
      return (receiver, events ++ more)

/-- All events of a connection that receives these pieces and is closed then. -/
def httpConnection (leaves : HttpEvent → Bool) (isReq : Bool) (pieces : List CText) :
    Except Overstep (List HttpEvent) := do
  let (receiver, events) ← Receiver.recvAll leaves isReq ⟨[], false⟩ pieces
  let last ← mgHttpClose isReq receiver.recvMbuf
  return events ++ last

end DlcServer
