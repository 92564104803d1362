/-
What the DMC handler makes of the byte stream of one connection.

On every receive event the handler searches the text that starts at the fifth
byte of the receive buffer for the words of a manifest, and empties the buffer.
The text runs up to a NUL, and past the received bytes when they hold none: the
memory behind the buffer is a parameter of the handler.
-/

import DlcServer.Library.LengthPrefix
import DlcServer.Manifest
import Mathlib.Algebra.Ring.Nat

namespace DlcServer

open Library

/-! ### The handler -/

/-- The manifest that the C string at the start of `bytes` names: the stub that
is parsed in its place. -/
def manifestNamed (bytes : List UInt8) : Option StubManifest :=
  let found := CText.untilNul bytes
  if found.contains (text "fotaProtocolVersion") && found.contains (text "WPC") then
    some .mani
  else if found.contains (text "fotaProtocolVersion") && found.contains (text "VDCM") then
    some .maniVdcm
  else none

/-- `dmc_msg_handler` on MG_EV_RECV, with `behind` the memory after the received
bytes: the stub it calls `core_state_handler(dmc_msg_parse(...))` with, and the
receive buffer it leaves. -/
def dmcMsgHandler (io behind : List UInt8) : Option StubManifest × List UInt8 :=
  (manifestNamed ((io ++ behind).drop 4), [])

/-- A received piece, and what lies behind the buffer at that event. -/
abbrev Received := List UInt8 × List UInt8

/-- The calls of `core_state_handler` while the pieces of a stream arrive. -/
def dmcReceive : List UInt8 → List Received → List StubManifest
  | _, [] => []
  | io, (chunk, behind) :: later =>
      let handled := dmcMsgHandler (io ++ chunk) behind
      handled.1.toList ++ dmcReceive handled.2 later

/-- The calls are those of every message on its own, whatever lies behind the
buffer. -/
def HearsEachMessage {messages : List (List UInt8)} (sent : Segmented messages) : Prop :=
  ∀ received : List Received, received.map Prod.fst = sent.chunks →
    dmcReceive [] received = messages.filterMap manifestNamed

/-! ### Which pieces say the same over any memory -/

private theorem dmcReceive_cons (chunk behind : List UInt8) (later : List Received) :
    dmcReceive [] ((chunk, behind) :: later) =
      (manifestNamed ((chunk ++ behind).drop 4)).toList ++ dmcReceive [] later :=
  rfl

private theorem dmcReceive_append (first second : List Received) :
    dmcReceive [] (first ++ second) = dmcReceive [] first ++ dmcReceive [] second := by
  induction first with
  | nil => rfl
  | cons piece later ih =>
      obtain ⟨chunk, behind⟩ := piece
      rw [List.cons_append, dmcReceive_cons, dmcReceive_cons, ih, List.append_assoc]

def NamesWpc (bytes : List UInt8) : Prop :=
  manifestNamed bytes = some .mani

theorem namesWpc_iff (bytes : List UInt8) :
    NamesWpc bytes ↔
      (CText.untilNul bytes).contains (text "fotaProtocolVersion") = true ∧
        (CText.untilNul bytes).contains (text "WPC") = true := by
  simp only [NamesWpc, manifestNamed]
  split
  · rename_i both
    simpa using both
  · rename_i notBoth
    split <;> simpa using notBoth

private theorem manifestNamed_append_of_mem {bytes : List UInt8} (more : List UInt8)
    (ended : 0 ∈ bytes) : manifestNamed (bytes ++ more) = manifestNamed bytes := by
  unfold manifestNamed
  rw [CText.untilNul_append_of_mem more ended]

private theorem namesWpc_append {bytes : List UInt8} (more : List UInt8) (names : NamesWpc bytes) :
    NamesWpc (bytes ++ more) := by
  by_cases ended : 0 ∈ bytes
  · unfold NamesWpc
    rw [manifestNamed_append_of_mem more ended]
    exact names
  · rw [namesWpc_iff, CText.untilNul_of_not_mem ended] at names
    rw [namesWpc_iff, CText.untilNul_append_of_not_mem more ended]
    exact ⟨CText.contains_append _ _ _ names.1, CText.contains_append _ _ _ names.2⟩

/-- Words that turn any unfinished text into one that names the WPC manifest. -/
def wpcWords : CText :=
  text "fotaProtocolVersion" ++ text "WPC"

private theorem namesWpc_append_wpcWords {bytes : List UInt8} (open_ : 0 ∉ bytes) :
    NamesWpc (bytes ++ wpcWords) := by
  have whole : CText.untilNul wpcWords = wpcWords := by decide
  rw [namesWpc_iff, CText.untilNul_append_of_not_mem _ open_, whole]
  unfold wpcWords
  rw [← List.append_assoc]
  exact ⟨CText.contains_append _ _ _ (CText.contains_append_self _ _),
    CText.contains_append_self _ _⟩

/-! ### Events of whole messages -/

/-- The piece of an event that holds whole messages is heard as its first one:
its text ends with that message, or names the WPC manifest already, and the
messages after it name nothing. -/
def HeardAs : List (List UInt8) → Prop
  | [] => True
  | first :: later =>
      (0 ∈ first ∨ later ≠ [] ∨ NamesWpc first) ∧
        ∀ message ∈ later, manifestNamed message = none

/-- The events hold the messages whole, none of 16 MiB or more. -/
def WholeMessages {messages : List (List UInt8)} (sent : Segmented messages)
    (events : List (List (List UInt8))) : Prop :=
  sent.chunks = events.map stream ∧ events.flatten = messages ∧
    ∀ message ∈ messages, message.length < 16777216

private theorem prefix_starts_with_nul {message : List UInt8}
    (small : message.length < 16777216) (rest : List UInt8) :
    ∃ behind, frame message ++ rest = 0 :: behind := by
  have zero : UInt8.ofNat (message.length / 16777216) = 0 := by
    rw [Nat.div_eq_of_lt small]
    rfl
  refine ⟨[UInt8.ofNat (message.length / 65536), UInt8.ofNat (message.length / 256),
    UInt8.ofNat message.length] ++ message ++ rest, ?_⟩
  simp [frame, bigEndian, zero]

private theorem manifestNamed_of_second {first second : List UInt8} (rest : List UInt8)
    (small : second.length < 16777216) :
    manifestNamed (first ++ (frame second ++ rest)) = manifestNamed first := by
  obtain ⟨behind, starts⟩ := prefix_starts_with_nul small rest
  rw [starts]
  by_cases ended : 0 ∈ first
  · exact manifestNamed_append_of_mem _ ended
  · unfold manifestNamed
    rw [CText.untilNul_append_of_not_mem _ ended, CText.untilNul_eq_nil_of_head,
      List.append_nil, CText.untilNul_of_not_mem ended]

private theorem drop_stream_cons (first : List UInt8) (later : List (List UInt8))
    (behind : List UInt8) :
    (stream (first :: later) ++ behind).drop 4 = first ++ (stream later ++ behind) := by
  simp [frame, bigEndian]

private theorem manifestNamed_event (first : List UInt8) (later : List (List UInt8))
    (small : ∀ message ∈ later, message.length < 16777216) :
    manifestNamed ((stream (first :: later) ++ []).drop 4) = manifestNamed first := by
  rw [drop_stream_cons, List.append_nil]
  cases later with
  | nil => simp
  | cons second later =>
      rw [stream_cons]
      exact manifestNamed_of_second _ (small second (by simp))

private theorem manifestNamed_event_of_heardAs {first : List UInt8} {later : List (List UInt8)}
    (heard : HeardAs (first :: later))
    (small : ∀ message ∈ later, message.length < 16777216) (behind : List UInt8) :
    manifestNamed ((stream (first :: later) ++ behind).drop 4) = manifestNamed first := by
  rw [drop_stream_cons]
  rcases heard.1 with ended | more | names
  · exact manifestNamed_append_of_mem _ ended
  · cases later with
    | nil => contradiction
    | cons second later =>
        rw [stream_cons, List.append_assoc]
        exact manifestNamed_of_second _ (small second (by simp))
  · exact (namesWpc_append _ names).trans (Eq.symm names)

/-! ### Hearing each message -/

/-- Every event is heard as its first message, and no other message names
anything. -/
def HeardInWhole {messages : List (List UInt8)} (sent : Segmented messages) : Prop :=
  ∃ events, WholeMessages sent events ∧ ∀ event ∈ events, HeardAs event

private theorem event_ne_nil {messages : List (List UInt8)} {sent : Segmented messages}
    {events : List (List (List UInt8))} (whole : WholeMessages sent events)
    {event : List (List UInt8)} (here : event ∈ events) : event ≠ [] := by
  intro empty
  have piece : stream event ∈ sent.chunks := by
    rw [whole.1]
    exact List.mem_map_of_mem here
  exact sent.received _ piece (by rw [empty, stream_nil])

private theorem dmcReceive_of_heardAs (events : List (List (List UInt8)))
    (full : ∀ event ∈ events, event ≠ []) (heard : ∀ event ∈ events, HeardAs event)
    (small : ∀ event ∈ events, ∀ message ∈ event, message.length < 16777216)
    (received : List Received) (same : received.map Prod.fst = events.map stream) :
    dmcReceive [] received = events.flatten.filterMap manifestNamed := by
  induction events generalizing received with
  | nil =>
      rw [List.map_nil, List.map_eq_nil_iff] at same
      rw [same]
      rfl
  | cons event others ih =>
      rw [List.map_cons, List.map_eq_cons_iff] at same
      obtain ⟨⟨chunk, behind⟩, later, rfl, rfl, sameLater⟩ := same
      have rest := ih (fun event here => full event (List.mem_cons_of_mem _ here))
        (fun event here => heard event (List.mem_cons_of_mem _ here))
        (fun event here => small event (List.mem_cons_of_mem _ here)) later sameLater
      have heardHere := heard event List.mem_cons_self
      have smallHere := small event List.mem_cons_self
      cases event with
      | nil => exact absurd rfl (full [] List.mem_cons_self)
      | cons first silent =>
          have smallSilent (message : List UInt8) (member : message ∈ silent) :=
            smallHere message (List.mem_cons_of_mem first member)
          have nothing : silent.filterMap manifestNamed = [] :=
            List.filterMap_eq_nil_iff.mpr heardHere.2
          rw [dmcReceive_cons, rest, manifestNamed_event_of_heardAs heardHere smallSilent,
            List.flatten_cons, List.filterMap_append, List.filterMap_cons, nothing]
          cases manifestNamed first <;> rfl

private theorem dmcReceive_empty_length (events : List (List (List UInt8)))
    (full : ∀ event ∈ events, event ≠ [])
    (small : ∀ event ∈ events, ∀ message ∈ event, message.length < 16777216) :
    (events.flatten.filterMap manifestNamed).length =
      (dmcReceive [] (events.map fun event => (stream event, []))).length +
        (events.map fun event => (event.tail.filterMap manifestNamed).length).sum := by
  induction events with
  | nil => rfl
  | cons event others ih =>
      have rest := ih (fun event here => full event (List.mem_cons_of_mem _ here))
        (fun event here => small event (List.mem_cons_of_mem _ here))
      have smallHere := small event List.mem_cons_self
      cases event with
      | nil => exact absurd rfl (full [] List.mem_cons_self)
      | cons first silent =>
          have smallSilent (message : List UInt8) (member : message ∈ silent) :=
            smallHere message (List.mem_cons_of_mem first member)
          rw [List.flatten_cons, List.filterMap_append, List.length_append, rest,
            List.map_cons, dmcReceive_cons, manifestNamed_event first silent smallSilent,
            List.filterMap_cons, List.map_cons, List.sum_cons, List.length_append,
            List.tail_cons]
          cases manifestNamed first <;> simp <;> omega

private theorem not_hearsEachMessage_of_open {messages : List (List UInt8)}
    {sent : Segmented messages} {before after : List (List UInt8)} {message : List UInt8}
    (chunks : sent.chunks = before ++ frame message :: after) (open_ : 0 ∉ message)
    (other : ¬ NamesWpc message) : ¬ HearsEachMessage sent := by
  intro hears
  have calls (behind : List UInt8) :
      dmcReceive [] (before.map (·, [])) ++ ((manifestNamed (message ++ behind)).toList ++
        dmcReceive [] (after.map (·, []))) = messages.filterMap manifestNamed := by
    have heard := hears (before.map (·, []) ++ (frame message, behind) :: after.map (·, []))
      (by simp [chunks, Function.comp_def])
    have dropped : (frame message ++ behind).drop 4 = message ++ behind := by
      simp [frame, bigEndian]
    rw [dmcReceive_append, dmcReceive_cons, dropped] at heard
    exact heard
  have both := (calls []).trans (calls wpcWords).symm
  rw [List.append_cancel_left_eq, List.append_cancel_right_eq, List.append_nil] at both
  have named : manifestNamed (message ++ wpcWords) = some .mani :=
    namesWpc_append_wpcWords open_
  rw [named] at both
  refine other ?_
  unfold NamesWpc
  cases result : manifestNamed message with
  | none =>
      rw [result] at both
      contradiction
  | some stub =>
      rw [result] at both
      simpa using both

private theorem heardAs_of_hearsEachMessage {messages : List (List UInt8)}
    {sent : Segmented messages} {events : List (List (List UInt8))}
    (whole : WholeMessages sent events) (hears : HearsEachMessage sent) :
    ∀ event ∈ events, HeardAs event := by
  have full (event : List (List UInt8)) (here : event ∈ events) : event ≠ [] :=
    event_ne_nil whole here
  obtain ⟨chunks, flat, small⟩ := whole
  have smallHere : ∀ event ∈ events, ∀ message ∈ event, message.length < 16777216 := by
    intro event here message member
    exact small message (flat ▸ List.mem_flatten_of_mem here member)
  have silent : (events.map fun event => (event.tail.filterMap manifestNamed).length).sum = 0 := by
    have lengths := dmcReceive_empty_length events full smallHere
    have heard := hears (events.map fun event => (stream event, []))
      (by simp [chunks, Function.comp_def])
    rw [flat, heard] at lengths
    omega
  intro event here
  cases event with
  | nil => exact absurd rfl (full [] here)
  | cons first later =>
      have nothing : ∀ message ∈ later, manifestNamed message = none := by
        have zero := List.sum_eq_zero_iff_forall_eq_nat.mp silent
          (later.filterMap manifestNamed).length (List.mem_map.mpr ⟨first :: later, here, rfl⟩)
        exact List.filterMap_eq_nil_iff.mp (List.eq_nil_of_length_eq_zero zero)
      refine ⟨?_, nothing⟩
      by_cases ended : 0 ∈ first
      · exact .inl ended
      · cases later with
        | cons second later => exact .inr (.inl (by simp))
        | nil =>
            refine .inr (.inr ?_)
            obtain ⟨before, after, split⟩ := List.append_of_mem here
            have pieces : sent.chunks =
                before.map stream ++ frame first :: after.map stream := by
              rw [chunks, split]
              simp
            by_contra other
            exact not_hearsEachMessage_of_open pieces ended other hears

/-- Events that are heard as their messages are enough; and where the events
hold the messages whole, they are necessary too. -/
theorem hearsEachMessage_of_heardInWhole {messages : List (List UInt8)}
    (sent : Segmented messages) :
    (HeardInWhole sent → HearsEachMessage sent) ∧
      (∀ events, WholeMessages sent events → HearsEachMessage sent → HeardInWhole sent) := by
  constructor
  · rintro ⟨events, whole, heard⟩ received same
    have full (event : List (List UInt8)) (here : event ∈ events) : event ≠ [] :=
      event_ne_nil whole here
    obtain ⟨chunks, flat, small⟩ := whole
    rw [← flat]
    refine dmcReceive_of_heardAs events full heard ?_ received (same.trans chunks)
    intro event here message member
    exact small message (flat ▸ List.mem_flatten_of_mem here member)
  · intro events whole hears
    exact ⟨events, whole, heardAs_of_hearsEachMessage whole hears⟩

/-- A WPC manifest with another message behind it in its event, and once more alone. -/
def wpcTwice : Segmented [wpcWords, text "\x7b\x7d", wpcWords] :=
  { chunks := [stream [wpcWords, text "\x7b\x7d"], stream [wpcWords]]
    received := by simp [frame_ne_nil]
    whole := by simp }

theorem wpcTwice_heard : HearsEachMessage wpcTwice := by
  have names : NamesWpc wpcWords := by
    unfold NamesWpc
    decide
  have other : manifestNamed (text "\x7b\x7d") = none := by decide
  refine (hearsEachMessage_of_heardInWhole wpcTwice).1
    ⟨[[wpcWords, text "\x7b\x7d"], [wpcWords]], ⟨rfl, rfl, ?_⟩, ?_⟩
  · simp only [List.forall_mem_cons]
    decide
  · simp only [List.forall_mem_cons]
    exact ⟨⟨.inr (.inr names), List.forall_mem_singleton.mpr other⟩,
      ⟨.inr (.inr names), fun _ none_ => absurd none_ List.not_mem_nil⟩,
      fun _ none_ => absurd none_ List.not_mem_nil⟩

/-- The same manifest behind another message, in one event. -/
def wpcBehind : Segmented [text "\x7b\x7d", wpcWords] :=
  { chunks := [stream [text "\x7b\x7d", wpcWords]]
    received := by simp [frame_ne_nil]
    whole := by simp }

theorem wpcBehind_lost :
    ¬ ∀ (messages : List (List UInt8)) (sent : Segmented messages), HearsEachMessage sent := by
  intro always
  have heard := always _ wpcBehind [(stream [text "\x7b\x7d", wpcWords], [])] rfl
  revert heard
  decide

end DlcServer
