/-
HTTP messages, as mongoose parses them where they lie in a receive buffer.

A pointer is a position in the buffer, and a `struct mg_str` a position with a
length; one that is NULL is taken for an empty one at the start.  The scans up to
the end of the head stay inside the buffer because the head does.  What is read
without looking at that end, names that are compared and numbers that are
converted, is read byte by byte, and a byte behind the buffer is a result of its
own.
-/

import Mathlib.Data.List.DropRight
import DlcServer.CJson
import DlcServer.Library.DecimalDouble
import DlcServer.Library.Memory

namespace DlcServer

open Library

structure MgStr where
  p : Nat
  len : Nat
  deriving DecidableEq, Repr

namespace MgStr

def null : MgStr := { p := 0, len := 0 }

def bytes (str : MgStr) (buf : CText) : CText :=
  (buf.drop str.p).take str.len

end MgStr

/-! ### Characters and numbers of C -/

def isPrint (byte : UInt8) : Bool :=
  32 ≤ byte && byte ≤ 126

def isSpace (byte : UInt8) : Bool :=
  byte == 32 || (9 ≤ byte && byte ≤ 13)

def sizeT (value : Int) : Nat :=
  (value % 18446744073709551616).toNat

def sizeMax : Nat := 18446744073709551615

def strtoll (buf : CText) (s : Nat) : Except Overstep Int :=
  let start := s + ((buf.drop s).takeWhile isSpace).length
  let negative : Bool := buf[start]? == some Json.minus
  let sign := if negative ∨ buf[start]? = some 43 then 1 else 0
  let digits := (buf.drop (start + sign)).takeWhile Json.isDigit
  let value : Int := if negative then -(digitsValue digits : Int) else digitsValue digits
  -- the byte that ends the number is read as well
  if start + sign + digits.length < buf.length then
    .ok (max (-9223372036854775808) (min 9223372036854775807 value))
  else .error .read

def atoi (buf : CText) (s : Nat) : Except Overstep Int := do
  let value ← strtoll buf s
  return Int.bmod value 4294967296

def strUtilLowercase (byte : UInt8) : Int :=
  (CJson.tolower byte).toNat

def mgNcasecmp (buf : CText) : Nat → Nat → CText → Except Overstep Int
  | 0, _, _ => .ok 0
  | len + 1, s1, s2 => do
      let first ← peek buf s1
      let second ← peek (s2 ++ [0]) 0
      let diff := strUtilLowercase first - strUtilLowercase second
      if diff = 0 ∧ first ≠ 0 then mgNcasecmp buf len (s1 + 1) (s2.drop 1) else .ok diff

def mgVcasecmp (buf : CText) (str1 : MgStr) (str2 : CText) : Except Overstep Int := do
  let n2 := str2.length
  let n1 := str1.len
  let r ← mgNcasecmp buf (if n1 < n2 then n1 else n2) str1.p str2
  return if r = 0 then (n1 : Int) - n2 else r

/-! ### The head -/

/-- `mg_http_get_request_len`, from the byte at `i` on. -/
def requestLenFrom : Nat → CText → Int
  | _, [] => 0
  | i, byte :: behind =>
      if ¬isPrint byte ∧ byte ≠ 13 ∧ byte ≠ 10 ∧ byte < 128 then -1
      else if byte = 10 ∧ [10].isPrefixOf behind then i + 2
      else if byte = 10 ∧ [13, 10].isPrefixOf behind then i + 3
      else requestLenFrom (i + 1) behind

def mgHttpGetRequestLen (buf : CText) : Int :=
  requestLenFrom 0 buf

/-- `strchr(delims, byte) != NULL`, which finds the NUL of `delims` too. -/
def isDelim (delims : CText) (byte : UInt8) : Bool :=
  byte == 0 || decide (byte ∈ delims)

def mgSkip (buf : CText) (s last : Nat) (delims : CText) : Nat × MgStr :=
  let v := ((buf.take last).drop s).takeWhile (fun byte => !isDelim delims byte)
  let behind := s + v.length
  let skipped := ((buf.take last).drop behind).takeWhile (isDelim delims)
  (behind + skipped.length, { p := s, len := v.length })

/-- `struct http_message`.  Of the arrays of headers the entries before the first
empty one are kept, which is as far as anyone goes. -/
structure HttpMessage where
  message : MgStr
  body : MgStr
  method : MgStr
  uri : MgStr
  proto : MgStr
  respCode : Int
  respStatusMsg : MgStr
  queryString : MgStr
  headers : List (MgStr × MgStr)
  deriving Repr

/-- `memset(hm, 0, sizeof(*hm))`. -/
def HttpMessage.zero : HttpMessage where
  message := .null
  body := .null
  method := .null
  uri := .null
  proto := .null
  respCode := 0
  respStatusMsg := .null
  queryString := .null
  headers := []

def maxHttpHeaders : Nat := 40

/-- The value without the spaces at its end. -/
def trimmed (buf : CText) (v : MgStr) : MgStr :=
  { v with len := ((v.bytes buf).rdropWhile (· == 32)).length }

/-- What a header makes of the lengths of the message. -/
def contentLength (buf : CText) (len : Nat) (k v : MgStr) (hm : HttpMessage) :
    Except Overstep HttpMessage := do
  let diff ← mgNcasecmp buf 14 k.p (text "Content-Length")
  if diff = 0 then
    let bodyLen := sizeT (← strtoll buf v.p)
    return { hm with
      body := { hm.body with len := bodyLen }
      message := { hm.message with len := sizeT (len + bodyLen) } }
  else return hm

def mgHttpParseHeaders (buf : CText) (last len : Nat) :
    Nat → Nat → HttpMessage → Except Overstep HttpMessage
  | 0, _, _ => .error .fuel
  | fuel + 1, s, hm =>
      if hm.headers.length < maxHttpHeaders - 1 then
        let (afterName, k) := mgSkip buf s last (text ": ")
        let (next, value) := mgSkip buf afterName last [13, 10]
        let v := trimmed buf value
        -- a header without a value is left out
        if k.len ≠ 0 ∧ v.len = 0 then mgHttpParseHeaders buf last len fuel next hm
        else if k.len = 0 ∨ v.len = 0 then .ok hm
        else do
          let hm ← contentLength buf len k v hm
          mgHttpParseHeaders buf last len fuel next { hm with headers := hm.headers ++ [(k, v)] }
      else .ok hm

/-- The request line: method, URI and protocol, and where the headers begin. -/
def requestLine (buf : CText) (s last : Nat) (hm : HttpMessage) : Option (Nat × HttpMessage) :=
  let (afterMethod, method) := mgSkip buf s last [32]
  let (afterUri, uri) := mgSkip buf afterMethod last [32]
  let (next, proto) := mgSkip buf afterUri last [13, 10]
  if uri.p ≤ method.p ∨ proto.p ≤ uri.p then none
  else
    let path := (uri.bytes buf).takeWhile (· != 63)
    let hm := { hm with method := method, uri := uri, proto := proto }
    if path.length < uri.len then
      some (next, { hm with
        uri := { uri with len := path.length }
        queryString := { p := uri.p + path.length + 1, len := uri.len - (path.length + 1) } })
    else some (next, hm)

/-- The status line: protocol, code and message, and where the headers begin. -/
def statusLine (buf : CText) (s last : Nat) (hm : HttpMessage) :
    Except Overstep (Option (Nat × HttpMessage)) :=
  let (afterProto, proto) := mgSkip buf s last [32]
  if last - afterProto < 4 then .ok none
  else do
    let first ← peek buf afterProto
    let fourth ← peek buf (afterProto + 3)
    if first < 48 ∨ 57 < first ∨ fourth ≠ 32 then return none
    else
      let respCode ← atoi buf afterProto
      if respCode < 100 ∨ 600 ≤ respCode then return none
      else
        let (next, respStatusMsg) := mgSkip buf (afterProto + 4) last [13, 10]
        return some (next, { hm with
          proto := proto, respCode := respCode, respStatusMsg := respStatusMsg })

/-- Requests without `Content-Length` have a body only where their method says so. -/
def bodyless (buf : CText) (len : Nat) (isReq : Bool) (hm : HttpMessage) :
    Except Overstep HttpMessage :=
  if hm.body.len = sizeMax ∧ isReq = true then do
    let put ← mgVcasecmp buf hm.method (text "PUT")
    let post ← mgVcasecmp buf hm.method (text "POST")
    if put ≠ 0 ∧ post ≠ 0 then
      return { hm with
        body := { hm.body with len := 0 }
        message := { hm.message with len := len } }
    else return hm
  else .ok hm

/-- `hm` before the first line: everything is empty, and the body has no end. -/
def HttpMessage.start (last : Nat) : HttpMessage :=
  { HttpMessage.zero with
    message := { p := 0, len := sizeMax }
    body := { p := last, len := sizeMax } }

def firstLine (buf : CText) (isReq : Bool) (s last : Nat) :
    Except Overstep (Option (Nat × HttpMessage)) :=
  if isReq then .ok (requestLine buf s last (.start last))
  else statusLine buf s last (.start last)

/-- `mg_parse_http` where there is a head of `last` bytes. -/
def readHead (buf : CText) (isReq : Bool) (last : Nat) : Except Overstep (Int × HttpMessage) := do
  let s := ((buf.take last).takeWhile isSpace).length
  match ← firstLine buf isReq s last with
  | none => return (-1, .start last)
  | some (next, hm) =>
      let hm ← mgHttpParseHeaders buf last last (last + 1) next hm
      let hm ← bodyless buf last isReq hm
      return (last, hm)

/-- `mg_parse_http` on the whole of a buffer: its result, and `hm`. -/
def mgParseHttp (buf : CText) (isReq : Bool) : Except Overstep (Int × HttpMessage) :=
  let len := mgHttpGetRequestLen buf
  if len ≤ 0 then .ok (len, .zero) else readHead buf isReq len.toNat

def mgGetHttpHeader (buf : CText) (hm : HttpMessage) (name : CText) :
    Except Overstep (Option MgStr) :=
  find hm.headers
where
  find : List (MgStr × MgStr) → Except Overstep (Option MgStr)
    | [] => .ok none
    | (h, v) :: more =>
        if h.len = name.length then do
          let diff ← mgNcasecmp buf name.length h.p name
          if diff = 0 then return some v else find more
        else find more

end DlcServer
