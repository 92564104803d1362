/-
What the HMI handler makes of the byte stream of one connection.

On every receive event the handler parses what stands behind the first four
bytes of the receive buffer, and it takes nothing out of the buffer.  So the
first request heads the buffer for good, and every later event parses it again
together with all that has arrived since.
-/

import DlcServer.Library.LengthPrefix
import DlcServer.Library.Text

namespace DlcServer

open Library

/-- A call of `hmi_payload_parser`: the bytes of the buffer behind `payload`,
and the argument `len`, which the parser ignores. -/
structure PayloadCall where
  payload : List UInt8
  len : Nat
  deriving DecidableEq, Repr

/-- `hmi_msg_handler` on MG_EV_RECV: the call it makes and the receive buffer it
leaves. -/
def hmiMsgHandler (io : List UInt8) : PayloadCall × List UInt8 :=
  ({ payload := io.drop 4, len := decodedLength io }, io)

/-- The calls made while the pieces of a stream arrive; each is appended to what
the handler has left in the buffer. -/
def hmiReceive : List UInt8 → List (List UInt8) → List PayloadCall
  | _, [] => []
  | io, chunk :: later =>
      let handled := hmiMsgHandler (io ++ chunk)
      handled.1 :: hmiReceive handled.2 later

/-- The parser is run exactly once on each request, in the order sent, and on
nothing else. -/
def ParsesEachOnce {requests : List (List UInt8)} (sent : Segmented requests) : Prop :=
  (hmiReceive [] sent.chunks).map PayloadCall.payload = requests

private theorem hmiReceive_length (io : List UInt8) (chunks : List (List UInt8)) :
    (hmiReceive io chunks).length = chunks.length := by
  induction chunks generalizing io with
  | nil => rfl
  | cons chunk later ih =>
      simp only [hmiReceive, List.length_cons, ih]

private theorem whole_stream_mem_hmiReceive (io : List UInt8) {chunks : List (List UInt8)}
    (some_ : chunks ≠ []) :
    (io ++ chunks.flatten).drop 4 ∈ (hmiReceive io chunks).map PayloadCall.payload := by
  induction chunks generalizing io with
  | nil => contradiction
  | cons chunk later ih =>
      cases later with
      | nil => simp [hmiReceive, hmiMsgHandler]
      | cons second later =>
          have last := ih (io ++ chunk) (by simp)
          rw [List.append_assoc] at last
          exact List.mem_cons_of_mem _ last

private theorem not_parsesEachOnce_of_two {first second : List UInt8} {rest : List (List UInt8)}
    (sent : Segmented (first :: second :: rest)) : ¬ ParsesEachOnce sent := by
  intro once
  have whole := sent.whole
  have some_ : sent.chunks ≠ [] := by
    intro none_
    have lengths := congrArg List.length whole
    simp only [none_, List.flatten_nil, List.length_nil, stream_cons, List.length_append,
      frame_length] at lengths
    omega
  have last := whole_stream_mem_hmiReceive [] some_
  unfold ParsesEachOnce at once
  rw [once, List.nil_append, whole] at last
  have room := length_add_prefixes_le_stream last
  simp only [List.length_drop, List.length_cons] at room
  omega

/-- The requests of a connection are each parsed once exactly when there is at
most one, and that one arrives in one event. -/
theorem parsesEachOnce_iff {requests : List (List UInt8)} (sent : Segmented requests) :
    ParsesEachOnce sent ↔
      requests = [] ∨ ∃ request, requests = [request] ∧ sent.chunks = [frame request] := by
  cases requests with
  | nil =>
      refine iff_of_true ?_ (.inl rfl)
      have nothing : sent.chunks = [] := by
        cases chunks : sent.chunks with
        | nil => rfl
        | cons chunk later =>
            have whole := sent.whole
            rw [chunks, List.flatten_cons, stream_nil, List.append_eq_nil_iff] at whole
            exact absurd whole.1 (sent.received chunk (by simp [chunks]))
      unfold ParsesEachOnce
      rw [nothing]
      rfl
  | cons request rest =>
      cases rest with
      | cons second rest =>
          refine iff_of_false (not_parsesEachOnce_of_two sent) ?_
          rintro (none_ | ⟨only, single, _⟩)
          · contradiction
          · simp at single
      | nil =>
          have whole := sent.whole
          rw [stream_cons, stream_nil, List.append_nil] at whole
          constructor
          · intro once
            refine .inr ⟨request, rfl, ?_⟩
            have lengths := congrArg List.length once
            rw [List.length_map, hmiReceive_length, List.length_singleton] at lengths
            obtain ⟨chunk, single⟩ := List.length_eq_one_iff.mp lengths
            rw [single, List.flatten_cons, List.flatten_nil, List.append_nil] at whole
            rw [single, whole]
          · rintro (none_ | ⟨only, same, single⟩)
            · contradiction
            · cases same
              unfold ParsesEachOnce
              rw [single]
              simp [hmiReceive, hmiMsgHandler, frame_drop]

/-- Two requests that arrive in an event each: the second event parses the
first request again, with the second one behind it. -/
theorem second_request_misparsed :
    ¬ ∀ (requests : List (List UInt8)) (sent : Segmented requests), ParsesEachOnce sent := by
  intro always
  have check := text "\x7b\"func-id\":1,\"uuid\":\"a\"\x7d"
  have start := text "\x7b\"func-id\":2,\"uuid\":\"b\"\x7d"
  exact not_parsesEachOnce_of_two _ (always [check, start]
    { chunks := [frame check, frame start]
      received := by simp [frame_ne_nil]
      whole := by simp })

end DlcServer
