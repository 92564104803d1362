/-
What the DMC gets of a status report that is posted.

The body of a request is a pointer into the receive buffer and a length.  The
handler takes the pointer for that of a C string, so that the first NUL in
memory, and not the length, says where the report ends.
-/

import DlcServer.MessageTexts

namespace DlcServer

open Library

/-! ### The handler -/

/-- The body of a request, and the memory behind it as far as it can be read. -/
structure HttpBody where
  bytes : List UInt8
  behind : List UInt8

inductive Relay
  /-- The end of the readable memory is passed. -/
  | unreadable
  /-- The end of `resp` is passed. -/
  | overrun
  | done (frames : List (List UInt8))
  deriving DecidableEq

/-- `cgw_monitor_handle_status` with what it sends to the DMC; `resp` is what is
in its buffer of 2048 bytes, and `hm` is absent for a NULL `hm` or `hm->body.p`. -/
def cgwMonitorRelay (resp : Nat → UInt8) (dmc : Option Nat) (hm : Option HttpBody) : Relay :=
  match hm with
  | none => .done []
  | some body =>
      match CText.read (body.bytes ++ body.behind) with
      | none => .unreadable
      | some status =>
          let built := cgwMonitorHandleStatus { mem := resp, top := 0 } status
          if built.1.top ≤ 2048 then
            match dmc with
            | none => .done []
            | some _ => .done [built.1.sent built.2]
          else .overrun

/-- What the monitor thread logs of a report is what the handler sends of it. -/
theorem monitorStep_statusReport (shared : Shared) (body : HttpBody) {status : CText}
    (read : CText.read (body.bytes ++ body.behind) = some status) :
    monitorStep shared .serving (.statusReport status) =
      match cgwMonitorRelay (fun _ => 0) shared.gCtx.dmc (some body) with
      | .done frames =>
          some ⟨frames.foldl (fun shared frame => shared.log (.sent .dmc frame)) shared,
            .monitor .serving, []⟩
      | _ => none := by
  unfold monitorStep cgwMonitorRelay
  simp only [read]
  by_cases fits :
      (cgwMonitorHandleStatus { mem := fun _ => 0, top := 0 } status).1.top ≤ 2048
  · rw [if_pos fits, if_pos fits]
    cases shared.gCtx.dmc with
    | none => rfl
    | some nc => rfl
  · rw [if_neg fits, if_neg fits]

/-! ### The frame -/

theorem lengthPrefixed_top (resp : Nat → UInt8) (body : CText) :
    (lengthPrefixed { mem := resp, top := 0 } body).1.top = body.length + 5 := by
  simp only [lengthPrefixed, OutBuf.store, OutBuf.strcpy]
  omega

theorem lengthPrefixed_sent (resp : OutBuf) {body : CText}
    (short : body.length < 4294967296) :
    (lengthPrefixed resp body).1.sent (lengthPrefixed resp body).2 = frame body := by
  have length : (lengthPrefixed resp body).2 = 4 + body.length := by
    change body.length % 4294967296 + 4 = _
    rw [Nat.mod_eq_of_lt short, Nat.add_comm]
  have front : (lengthPrefixed resp body).1.sent 4 = bigEndian body.length := by
    simp [lengthPrefixed, OutBuf.sent, OutBuf.store, bigEndian, List.range_succ,
      Nat.mod_eq_of_lt short]
  have rest : (List.range body.length).map
      (fun i => (lengthPrefixed resp body).1.mem (4 + i)) = body := by
    refine List.ext_getElem (by simp) ?_
    intro i inside _
    rw [List.length_map, List.length_range] at inside
    have notFirst : 4 + i ≠ 0 := by omega
    have notSecond : 4 + i ≠ 1 := by omega
    have notThird : 4 + i ≠ 2 := by omega
    have notFourth : 4 + i ≠ 3 := by omega
    have behind : ¬4 + i < 4 := by omega
    have within : 4 + i ≤ 4 + body.length := by omega
    have place : 4 + i - 4 = i := by omega
    rw [List.getElem_map, List.getElem_range]
    simp only [lengthPrefixed, OutBuf.store, OutBuf.strcpy, if_neg notFirst, if_neg notSecond,
      if_neg notThird, if_neg notFourth, if_neg behind, if_pos within, place]
    simp [inside]
  rw [length, Writer.sent_add, front, rest]
  rfl

theorem frame_injective {first second : List UInt8} (same : frame first = frame second) :
    first = second := by
  rw [← frame_drop first, same, frame_drop]

/-! ### The law -/

/-- The DMC gets the body of the request in one frame, whatever lies behind it
and whatever was in the buffer. -/
def HttpBody.Relayed (body : HttpBody) (nc : Nat) : Prop :=
  ∀ resp, cgwMonitorRelay resp (some nc) (some body) = .done [frame body.bytes]

theorem relayed_iff (body : HttpBody) (nc : Nat) :
    body.Relayed nc ↔
      0 ∉ body.bytes ∧ body.behind.head? = some 0 ∧ body.bytes.length + 5 ≤ 2048 := by
  rw [← and_assoc, ← CText.read_append_eq_iff]
  constructor
  · intro relayed
    have sent := relayed (fun _ => 0)
    unfold cgwMonitorRelay at sent
    cases read : CText.read (body.bytes ++ body.behind) with
    | none =>
        simp only [read] at sent
        contradiction
    | some status =>
        simp only [read, cgwMonitorHandleStatus, lengthPrefixed_top] at sent
        by_cases fits : status.length + 5 ≤ 2048
        · rw [if_pos fits, lengthPrefixed_sent _ (by omega)] at sent
          simp only [Relay.done.injEq, List.cons.injEq, and_true] at sent
          have same := frame_injective sent
          rw [same] at fits ⊢
          exact ⟨rfl, fits⟩
        · rw [if_neg fits] at sent
          contradiction
  · intro ⟨read, fits⟩ resp
    unfold cgwMonitorRelay
    simp only [read, cgwMonitorHandleStatus, lengthPrefixed_top, if_pos fits]
    rw [lengthPrefixed_sent _ (by omega)]

/-- A request with the next one behind it in the receive buffer. -/
theorem pipelined_not_relayed : ¬∀ (body : HttpBody) (nc : Nat), body.Relayed nc := by
  intro always
  have relayed := always ⟨text "ok", text "GET /" ++ [0]⟩ 0 (fun _ => 0)
  revert relayed
  decide +kernel

end DlcServer
