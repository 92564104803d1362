/-
Which handler a request reaches, and what becomes of a request to the monitor thread.

An endpoint is found by a pattern that stands for the beginning of a path, so that
the handler of status reports takes every path that its pattern begins.  What is
posted there goes through the reader of the messages and the handler to the DMC.
-/

import DlcServer.HttpRequests
import DlcServer.StatusRelay

namespace DlcServer

open Library

/-! ### Patterns -/

/-- What a `*` stands for is tried from `len` bytes down. -/
def shrink (rest : CText → Nat) (str : CText) : Nat → Nat
  | 0 => rest str
  | len + 1 =>
      let res := rest (str.drop (len + 1))
      if res = 0 then shrink rest str len else res + (len + 1)

/-- What is said where the loop of `mg_match_prefix_n` has been left. -/
def matchEnd (pattern str : CText) (j : Nat) : Nat :=
  if pattern.head? = some 36 then if str = [] then j else 0
  else if pattern = [] then j else 0

/-- The pattern in front of an alternative, and behind it. -/
def splitPattern (pattern : CText) : Option (CText × CText) :=
  let bar : UInt8 := if 124 ∈ pattern then 124 else 44
  if bar ∈ pattern then
    some (pattern.takeWhile (· != bar), (pattern.dropWhile (· != bar)).tail)
  else none

private theorem splitPattern_shorter {pattern first second : CText}
    (cut : splitPattern pattern = some (first, second)) :
    first.length < pattern.length ∧ second.length < pattern.length := by
  unfold splitPattern at cut
  dsimp only at cut
  generalize (if (124 : UInt8) ∈ pattern then (124 : UInt8) else 44) = bar at cut
  split at cut
  · next member =>
      cases cut
      have whole := congrArg List.length
        (List.takeWhile_append_dropWhile (p := (· != bar)) (l := pattern))
      have some_ : pattern.dropWhile (· != bar) ≠ [] := by
        intro none_
        rw [List.dropWhile_eq_nil_iff] at none_
        exact bne_iff_ne.mp (none_ bar member) rfl
      have long := List.length_pos_iff.mpr some_
      rw [List.length_append] at whole
      rw [List.length_tail]
      omega
  · cases cut

mutual

def mgMatchPrefixN (pattern str : CText) : Nat :=
  match _cut : splitPattern pattern with
  | some (first, second) =>
      let res := mgMatchPrefixN first str
      if 0 < res then res else mgMatchPrefixN second str
  | none => matchLoop pattern str 0
termination_by (pattern.length, 1)
decreasing_by
  · exact Prod.Lex.left _ _ (splitPattern_shorter ‹_›).1
  · exact Prod.Lex.left _ _ (splitPattern_shorter ‹_›).2
  · exact Prod.Lex.right _ Nat.zero_lt_one

/-- The loop, with what is left of the pattern and of the text. -/
def matchLoop : CText → CText → Nat → Nat
  | byte :: pattern, other :: str, j =>
      if byte = 63 then matchLoop pattern str (j + 1)
      else if byte = 42 then
        let rest := if pattern.head? = some 42 then pattern.tail else pattern
        let len :=
          if pattern.head? = some 42 then str.length + 1
          else ((other :: str).takeWhile (· != 47)).length
        if rest = [] ∨ rest = [36] then j + len
        else
          let res := shrink (fun str => mgMatchPrefixN rest str) (other :: str) len
          if res = 0 then 0 else j + res
      else if strUtilLowercase byte ≠ strUtilLowercase other then
        matchEnd (byte :: pattern) (other :: str) j
      else matchLoop pattern str (j + 1)
  | pattern, str, j => matchEnd pattern str j
termination_by pattern => (pattern.length, 0)
decreasing_by
  · exact Prod.Lex.left _ _ (by simp)
  · refine Prod.Lex.left _ _ ?_
    rw [List.length_cons]
    split
    · rw [List.length_tail]
      omega
    · exact Nat.lt_succ_self _
  · exact Prod.Lex.left _ _ (by simp)

end

/-! A pattern takes no more than there is. -/

private theorem shrink_le {rest : CText → Nat} (each : ∀ str, rest str ≤ str.length) (str : CText)
    {len : Nat} (inside : len ≤ str.length) : shrink rest str len ≤ str.length := by
  induction len with
  | zero => exact each str
  | succ len ih =>
      have behind := each (str.drop (len + 1))
      rw [List.length_drop] at behind
      rw [shrink]
      split
      · exact ih (by omega)
      · omega

private theorem matchEnd_le (pattern str : CText) (j : Nat) : matchEnd pattern str j ≤ j := by
  unfold matchEnd
  split
  · split
    · exact le_refl j
    · exact Nat.zero_le j
  · split
    · exact le_refl j
    · exact Nat.zero_le j

private theorem matchLoop_le {most : Nat}
    (shorter : ∀ pattern : CText, pattern.length < most → ∀ str,
      mgMatchPrefixN pattern str ≤ str.length)
    {pattern : CText} (short : pattern.length ≤ most) (str : CText) (j : Nat) :
    matchLoop pattern str j ≤ j + str.length := by
  induction pattern generalizing str j with
  | nil =>
      rw [matchLoop]
      · exact (matchEnd_le [] str j).trans (Nat.le_add_right j _)
      · intro _ _ _ _ impossible
        cases impossible
  | cons byte pattern ih =>
      rw [List.length_cons] at short
      cases str with
      | nil =>
          rw [matchLoop]
          · exact matchEnd_le (byte :: pattern) [] j
          · intro _ _ _ _ _ impossible
            cases impossible
      | cons other str =>
          have next := ih (by omega) str (j + 1)
          have tokens := (List.takeWhile_prefix (l := other :: str) (· != 47)).length_le
          have restShort : (if pattern.head? = some 42 then pattern.tail
              else pattern).length < most := by
            split
            · rw [List.length_tail]
              omega
            · omega
          have inside : (if pattern.head? = some 42 then str.length + 1
              else ((other :: str).takeWhile (· != 47)).length) ≤ (other :: str).length := by
            split
            · exact le_refl _
            · exact tokens
          rw [matchLoop]
          dsimp only
          generalize (if pattern.head? = some 42 then pattern.tail else pattern) = rest
            at restShort ⊢
          generalize (if pattern.head? = some 42 then str.length + 1
            else ((other :: str).takeWhile (· != 47)).length) = len at inside ⊢
          have tried : shrink (fun str => mgMatchPrefixN rest str) (other :: str) len ≤
              (other :: str).length := shrink_le (shorter rest restShort) (other :: str) inside
          rw [List.length_cons] at tried inside ⊢
          by_cases isAny : byte = 63
          · rw [if_pos isAny]
            omega
          rw [if_neg isAny]
          by_cases isStar : byte = 42
          · rw [if_pos isStar]
            by_cases last : rest = [] ∨ rest = [36]
            · rw [if_pos last]
              omega
            · rw [if_neg last]
              split
              · exact Nat.zero_le _
              · omega
          rw [if_neg isStar]
          split
          · exact (matchEnd_le _ _ j).trans (Nat.le_add_right j _)
          · omega

private theorem mgMatchPrefixN_le (pattern str : CText) : mgMatchPrefixN pattern str ≤ str.length := by
  induction isMost : pattern.length using Nat.strong_induction_on generalizing pattern str with
  | _ most ih =>
      have shorter (other : CText) (less : other.length < most) (str : CText) :
          mgMatchPrefixN other str ≤ str.length := ih other.length less other str rfl
      rw [mgMatchPrefixN]
      split
      · next first second cut =>
          obtain ⟨firstShort, secondShort⟩ := splitPattern_shorter cut
          dsimp only
          split
          · exact shorter first (by omega) str
          · exact shorter second (by omega) str
      · have looked := matchLoop_le shorter isMost.le str 0
        omega

/-- A pattern of bytes that match nothing but themselves. -/
def Literal (pattern : CText) : Prop :=
  ∀ byte ∈ pattern, byte ∉ text "|,?*$"

theorem Literal.apart {byte : UInt8} (plain : byte ∉ text "|,?*$") :
    (byte ≠ 124 ∧ byte ≠ 44) ∧ byte ≠ 63 ∧ byte ≠ 42 ∧ byte ≠ 36 := by
  refine ⟨⟨?_, ?_⟩, ?_, ?_, ?_⟩
  all_goals
    rintro rfl
    exact plain (by simp [text])

private theorem matchLoop_literal {pattern : CText} (literal : Literal pattern) (str : CText) (j : Nat) :
    matchLoop pattern str j =
      if pattern.map CJson.tolower <+: str.map CJson.tolower then j + pattern.length else 0 := by
  induction pattern generalizing str j with
  | nil =>
      cases str with
      | nil => simp [matchLoop, matchEnd]
      | cons other str => simp [matchLoop, matchEnd]
  | cons byte pattern ih =>
      unfold Literal at literal
      rw [List.forall_mem_cons] at literal
      obtain ⟨-, notAny, notStar, notEnd⟩ := Literal.apart literal.1
      have left (str : CText) : matchEnd (byte :: pattern) str j = 0 := by
        unfold matchEnd
        simp [notEnd]
      cases str with
      | nil => simp [matchLoop, left]
      | cons other str =>
          have same : strUtilLowercase byte = strUtilLowercase other ↔
              CJson.tolower byte = CJson.tolower other := by
            rw [← sub_eq_zero]
            exact strUtilLowercase_sub_eq_zero
          rw [matchLoop, if_neg notAny, if_neg notStar, left, ih literal.2]
          simp only [List.map_cons, List.cons_prefix_cons]
          by_cases equal : CJson.tolower byte = CJson.tolower other
          · have length : j + 1 + pattern.length = j + (byte :: pattern).length := by
              rw [List.length_cons]
              omega
            rw [if_neg (not_not.mpr (same.mpr equal)), length]
            simp [equal]
          · rw [if_pos (fun lower => equal (same.mp lower))]
            simp [equal]

private theorem mgMatchPrefixN_literal {pattern : CText} (literal : Literal pattern) (str : CText) :
    mgMatchPrefixN pattern str =
      if pattern.map CJson.tolower <+: str.map CJson.tolower then pattern.length else 0 := by
  have noBar : (124 : UInt8) ∉ pattern := fun member => (Literal.apart (literal _ member)).1.1 rfl
  have noComma : (44 : UInt8) ∉ pattern := fun member => (Literal.apart (literal _ member)).1.2 rfl
  have whole : splitPattern pattern = none := by
    unfold splitPattern
    simp [noBar, noComma]
  rw [mgMatchPrefixN]
  split
  · next cut =>
      rw [whole] at cut
      cases cut
  · rw [matchLoop_literal literal str 0, Nat.zero_add]

/-! ### Endpoints -/

/-- `struct mg_http_endpoint`, which no domain has been given for. -/
structure HttpEndpoint (Handler : Type) where
  uriPattern : CText
  handler : Handler

section Endpoints

variable {Handler : Type}

def mgRegisterHttpEndpoint (endpoints : List (HttpEndpoint Handler)) (uriPath : CText)
    (handler : Handler) : List (HttpEndpoint Handler) :=
  { uriPattern := uriPath, handler := handler } :: endpoints

def HttpEndpoint.matched (ep : HttpEndpoint Handler) (uriPath : CText) : Int :=
  Int.bmod (mgMatchPrefixN ep.uriPattern uriPath) 4294967296

def endpointLoop (uriPath : CText) :
    List (HttpEndpoint Handler) → Option (HttpEndpoint Handler) → Int →
      Option (HttpEndpoint Handler)
  | [], ret, _ => ret
  | ep :: next, ret, matchedMax =>
      if 0 < ep.matched uriPath ∧ matchedMax < ep.matched uriPath then
        endpointLoop uriPath next (some ep) (ep.matched uriPath)
      else endpointLoop uriPath next ret matchedMax

def mgHttpGetEndpointHandler (endpoints : List (HttpEndpoint Handler)) (uriPath : CText) :
    Option (HttpEndpoint Handler) :=
  endpointLoop uriPath endpoints none 0

/-- The handler of an event: that of an endpoint for a whole request, otherwise
that of the connection. -/
def HttpEvent.handledBy (event : HttpEvent) (endpoints : List (HttpEndpoint Handler))
    (handler : Handler) : Handler :=
  if event.ev = .request then
    match mgHttpGetEndpointHandler endpoints (event.hm.uri.bytes event.buf) with
    | some ep => ep.handler
    | none => handler
  else handler

/-! The endpoint that takes the most of the path. -/

/-- How much of the path is taken by what has been found. -/
def taken (uriPath : CText) : Option (HttpEndpoint Handler) → Nat
  | none => 0
  | some ep => mgMatchPrefixN ep.uriPattern uriPath

private theorem matched_eq {uriPath : CText} (short : uriPath.length < 2147483648)
    (ep : HttpEndpoint Handler) : ep.matched uriPath = taken uriPath (some ep) := by
  have inside := mgMatchPrefixN_le ep.uriPattern uriPath
  exact Int.bmod_eq_of_le (by omega) (by omega)

private theorem endpointLoop_longest {uriPath : CText} (short : uriPath.length < 2147483648)
    (endpoints : List (HttpEndpoint Handler)) (ret : Option (HttpEndpoint Handler)) :
    ∃ found, endpointLoop uriPath endpoints ret (taken uriPath ret) = found ∧
      (found = ret ∨ ∃ ep ∈ endpoints, found = some ep ∧ 0 < taken uriPath (some ep)) ∧
      taken uriPath ret ≤ taken uriPath found ∧
      ∀ ep ∈ endpoints, taken uriPath (some ep) ≤ taken uriPath found := by
  induction endpoints generalizing ret with
  | nil => exact ⟨ret, rfl, .inl rfl, le_refl _, fun _ member => absurd member List.not_mem_nil⟩
  | cons ep next ih =>
      rw [endpointLoop, matched_eq short]
      by_cases better : 0 < taken uriPath (some ep) ∧ taken uriPath ret < taken uriPath (some ep)
      · obtain ⟨found, loop, from_, more, each⟩ := ih (some ep)
        rw [if_pos (by omega)]
        refine ⟨found, loop, .inr ?_, by omega, List.forall_mem_cons.mpr ⟨more, each⟩⟩
        rcases from_ with rfl | ⟨other, member, isFound, some_⟩
        · exact ⟨ep, List.mem_cons_self, rfl, better.1⟩
        · exact ⟨other, List.mem_cons_of_mem _ member, isFound, some_⟩
      · obtain ⟨found, loop, from_, more, each⟩ := ih ret
        rw [if_neg (by omega)]
        refine ⟨found, loop, ?_, more, List.forall_mem_cons.mpr ⟨by omega, each⟩⟩
        exact from_.imp_right fun ⟨other, member, isFound⟩ =>
          ⟨other, List.mem_cons_of_mem _ member, isFound⟩

/-- The endpoint that is found takes the most of the path, and none is found only
where none takes anything. -/
theorem mgHttpGetEndpointHandler_longest {uriPath : CText}
    (short : uriPath.length < 2147483648) (endpoints : List (HttpEndpoint Handler)) :
    (∀ ep, mgHttpGetEndpointHandler endpoints uriPath = some ep →
      ep ∈ endpoints ∧ 0 < mgMatchPrefixN ep.uriPattern uriPath) ∧
    ∀ ep ∈ endpoints, mgMatchPrefixN ep.uriPattern uriPath ≤
      taken uriPath (mgHttpGetEndpointHandler endpoints uriPath) := by
  obtain ⟨found, loop, from_, -, each⟩ := endpointLoop_longest short endpoints none
  have isFound : mgHttpGetEndpointHandler endpoints uriPath = found := loop
  rw [isFound]
  refine ⟨?_, each⟩
  rintro ep rfl
  rcases from_ with none_ | ⟨other, member, same, some_⟩
  · cases none_
  · cases same
    exact ⟨member, some_⟩

end Endpoints

/-! ### The monitor thread -/

inductive MonitorHandler
  | evHandler
  | cgwMonitorHandleStatus
  deriving DecidableEq, Repr

/-- What `cgw_msg_monitor_thread` registers. -/
def monitorEndpoints : List (HttpEndpoint MonitorHandler) :=
  mgRegisterHttpEndpoint [] (text "/status") .cgwMonitorHandleStatus

/-- What is in `resp` at a call of the handler, and the memory behind the receive
buffer. -/
structure CallMemory where
  resp : Nat → UInt8
  beyond : CText

/-- What an event sends to the DMC; `ev_handler` serves files. -/
def monitorCall (memory : CallMemory) (dmc : Option Nat) (event : HttpEvent) : Relay :=
  match event.handledBy monitorEndpoints .evHandler with
  | .evHandler => .done []
  | .cgwMonitorHandleStatus =>
      cgwMonitorRelay memory.resp dmc (some {
        bytes := event.body
        behind := event.buf.drop (event.hm.body.p + event.hm.body.len) ++ memory.beyond })

/-- The events of a connection, each with the memory as it is then. -/
def monitorCalls (memory : Nat → CallMemory) (dmc : Option Nat) : List HttpEvent → Relay
  | [] => .done []
  | event :: events =>
      match monitorCall (memory 0) dmc event with
      | .done frames =>
          match monitorCalls (fun k => memory (k + 1)) dmc events with
          | .done more => .done (frames ++ more)
          | fault => fault
      | fault => fault

private theorem monitorEndpoints_found (uriPath : CText) :
    mgHttpGetEndpointHandler monitorEndpoints uriPath =
      if text "/status" <+: uriPath.map CJson.tolower then
        some { uriPattern := text "/status", handler := .cgwMonitorHandleStatus }
      else none := by
  have literal : Literal (text "/status") := by
    unfold Literal
    simp [text]
  have lower : (text "/status").map CJson.tolower = text "/status" := by rfl
  unfold mgHttpGetEndpointHandler monitorEndpoints mgRegisterHttpEndpoint
  rw [endpointLoop]
  unfold HttpEndpoint.matched
  rw [mgMatchPrefixN_literal literal uriPath, lower]
  by_cases begins : text "/status" <+: uriPath.map CJson.tolower
  · have seven : Int.bmod (text "/status").length 4294967296 = 7 :=
      Int.bmod_eq_of_le (show _ ≤ ((7 : Nat) : Int) by omega) (show ((7 : Nat) : Int) < _ by omega)
    rw [if_pos begins, if_pos begins, seven, if_pos (by decide), endpointLoop]
  · have zero : Int.bmod (0 : Nat) 4294967296 = 0 :=
      Int.bmod_eq_of_le (by omega) (by omega)
    rw [if_neg begins, if_neg begins, zero, if_neg (by decide), endpointLoop]

private theorem handledBy_piece {event : HttpEvent} (piece : ¬event.Whole) :
    event.handledBy monitorEndpoints .evHandler = .evHandler := by
  have isChunk : event.ev = .chunk := not_not.mp piece
  unfold HttpEvent.handledBy
  rw [isChunk, if_neg (by decide)]

private theorem handledBy_request {event : HttpEvent} (isRequest : event.ev = .request) {path : CText}
    (isPath : event.hm.uri.bytes event.buf = path) :
    event.handledBy monitorEndpoints .evHandler =
      if text "/status" <+: path.map CJson.tolower then .cgwMonitorHandleStatus
      else .evHandler := by
  unfold HttpEvent.handledBy
  rw [if_pos isRequest, isPath, monitorEndpoints_found]
  split
  · next found =>
      split at found
      · next begins =>
          cases found
          rw [if_pos begins]
      · cases found
  · next found =>
      split at found
      · cases found
      · next apart => rw [if_neg apart]

private theorem monitorCall_piece (memory : CallMemory) (dmc : Option Nat) {event : HttpEvent}
    (piece : ¬event.Whole) : monitorCall memory dmc event = .done [] := by
  unfold monitorCall
  rw [handledBy_piece piece]

private theorem monitorCalls_pieces (memory : Nat → CallMemory) (dmc : Option Nat)
    {events : List HttpEvent} (pieces : ∀ event ∈ events, ¬event.Whole) :
    monitorCalls memory dmc events = .done [] := by
  induction events generalizing memory with
  | nil => rfl
  | cons event events ih =>
      rw [List.forall_mem_cons] at pieces
      rw [monitorCalls, monitorCall_piece _ _ pieces.1]
      dsimp only
      rw [ih _ pieces.2]
      rfl

private theorem monitorCalls_one (dmc : Option Nat) {events : List HttpEvent} {event : HttpEvent}
    (one : events.filter HttpEvent.Whole = [event]) :
    ∃ k, ∀ memory, monitorCalls memory dmc events = monitorCall (memory k) dmc event := by
  induction events with
  | nil => cases one
  | cons first events ih =>
      by_cases whole : first.Whole
      · rw [List.filter_cons_of_pos (by simpa using whole)] at one
        obtain ⟨rfl, others⟩ := List.cons.inj one
        rw [List.filter_eq_nil_iff] at others
        refine ⟨0, fun memory => ?_⟩
        rw [monitorCalls, monitorCalls_pieces _ _ (by simpa using others)]
        cases monitorCall (memory 0) dmc first with
        | done frames => exact congrArg Relay.done (List.append_nil frames)
        | unreadable => rfl
        | overrun => rfl
      · rw [List.filter_cons_of_neg (by simpa using whole)] at one
        obtain ⟨k, same⟩ := ih one
        refine ⟨k + 1, fun memory => ?_⟩
        rw [monitorCalls, monitorCall_piece _ _ whole]
        dsimp only
        rw [same]
        cases monitorCall (memory (k + 1)) dmc event with
        | done frames => rfl
        | unreadable => rfl
        | overrun => rfl

private theorem cgwMonitorRelay_eq (resp : Nat → UInt8) (nc : Nat) (body : HttpBody) :
    cgwMonitorRelay resp (some nc) (some body) =
      match CText.read (body.bytes ++ body.behind) with
      | none => .unreadable
      | some status =>
          if status.length + 5 ≤ 2048 then .done [frame status] else .overrun := by
  unfold cgwMonitorRelay
  dsimp only
  cases CText.read (body.bytes ++ body.behind) with
  | none => rfl
  | some status =>
      dsimp only
      unfold cgwMonitorHandleStatus
      rw [lengthPrefixed_top]
      by_cases fits : status.length + 5 ≤ 2048
      · rw [if_pos fits, if_pos fits, lengthPrefixed_sent _ (by omega)]
      · rw [if_neg fits, if_neg fits]

private theorem cgwMonitorRelay_done_iff (resp : Nat → UInt8) (nc : Nat) (bytes behind : CText) :
    cgwMonitorRelay resp (some nc) (some ⟨bytes, behind⟩) = .done [frame bytes] ↔
      0 ∉ bytes ∧ behind.head? = some 0 ∧ bytes.length + 5 ≤ 2048 := by
  rw [← and_assoc, ← CText.read_append_eq_iff, cgwMonitorRelay_eq]
  dsimp only
  cases CText.read (bytes ++ behind) with
  | none =>
      constructor
      · intro sent
        cases sent
      · rintro ⟨same, -⟩
        cases same
  | some status =>
      dsimp only
      constructor
      · intro sent
        split at sent
        · next fits =>
            have same := frame_injective (List.singleton_inj.mp (Relay.done.inj sent))
            exact ⟨congrArg some same, same ▸ fits⟩
        · cases sent
      · rintro ⟨same, fits⟩
        cases same
        rw [if_pos fits]

private theorem monitorCall_request (memory : CallMemory) (dmc : Option Nat) {event : HttpEvent}
    {path data : CText} (isRequest : event.ev = .request)
    (isPath : event.hm.uri.bytes event.buf = path) (isBody : event.body = data)
    (ends : event.buf.length ≤ event.hm.body.p + event.hm.body.len) :
    monitorCall memory dmc event =
      if text "/status" <+: path.map CJson.tolower then
        cgwMonitorRelay memory.resp dmc (some ⟨data, memory.beyond⟩)
      else .done [] := by
  unfold monitorCall
  rw [handledBy_request isRequest isPath, isBody, List.drop_eq_nil_of_le ends, List.nil_append]
  split
  · next apart =>
      split at apart
      · cases apart
      · next other => rw [if_neg other]
  · next begun =>
      split at begun
      · next begins => rw [if_pos begins]
      · cases begun

namespace Url

variable {url : Url} {extra : List HttpField} {postData : CText}

end Url

/-- Where a gateway reports its state. -/
def statusUrl : Url :=
  { pkgNewUrl with port := some 8019, path := text "/Status/7" }

private theorem statusUrl_sendable : statusUrl.Sendable :=
  { pkgNewUrl_sendable with
    port := fun _ isPort => by
      cases isPort
      norm_num
    path := by
      change ∀ byte ∈ text "/Status/7", byte ∉ text "?#"
      simp [text]
    rooted := rfl
    pathBytes := words_of_all rfl }

end DlcServer
