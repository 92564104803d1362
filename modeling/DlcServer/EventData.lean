/-
Is `ev_data` read as what it points to?

mongoose hands every event to the handler of a request with a pointer whose type
depends on the event.  The handlers are repeated here with that pointer, and
with the log line that one of them begins with.
-/

import DlcServer.Threads

namespace DlcServer

open Library

/-! ### Events and their data -/

/-- The events of the connection of a request. -/
inductive Ev
  | poll
  | connect
  | recv
  | send
  | close
  | httpReply
  | httpChunk

inductive EvData
  | time (now : Int)
  | int (value : Int)
  | message (hm : Body)
  | null

inductive Misread
  /-- `ev_data` is read as something it does not point to. -/
  | wrongType
  | fault (fault : Fault)

def EvData.asInt : EvData → Except Misread Int
  | .int value => .ok value
  | .null => .error (.fault .nullPointer)
  | _ => .error .wrongType

/-- `((struct http_message *) ev_data)->body`. -/
def EvData.asMessage : EvData → Except Misread Body
  | .message hm => .ok hm
  | .null => .error (.fault .nullPointer)
  | _ => .error .wrongType

/-! ### The handlers -/

def checked : Except Fault Handled → Except Misread Handled
  | .error fault => .error (.fault fault)
  | .ok handled => .ok handled

/-- The `default` branch. -/
def untouched (shared : Shared) : Handled :=
  { shared := shared, started := [], flagged := false, raised := false }

namespace Raw

/-- The cast of `ev_data` alone reads nothing. -/
def cgwHandlerPkgNew (shared : Shared) (self caller : Nat) :
    Ev → EvData → Except Misread Handled
  | .connect, _ => checked (DlcServer.cgwHandlerPkgNew shared self caller (.connect false))
  | .httpReply, _ =>
      checked (DlcServer.cgwHandlerPkgNew shared self caller (.reply ⟨[], none⟩))
  | .close, _ => checked (DlcServer.cgwHandlerPkgNew shared self caller .close)
  | _, _ => .ok (untouched shared)

def cgwHandlerPkgStat (shared : Shared) (self : Nat) : Ev → EvData → Except Misread Handled
  | .connect, evData => do
      let status ← evData.asInt
      checked (DlcServer.cgwHandlerPkgStat shared self (.connect (status != 0)))
  | .httpReply, evData => do
      let hm ← evData.asMessage
      checked (DlcServer.cgwHandlerPkgStat shared self (.reply hm))
  | .close, _ => checked (DlcServer.cgwHandlerPkgStat shared self .close)
  | _, _ => .ok (untouched shared)

def cgwHandlerTdrRun (shared : Shared) (self caller : Nat) :
    Ev → EvData → Except Misread Handled
  | .connect, _ => checked (DlcServer.cgwHandlerTdrRun shared self caller (.connect false))
  | .httpReply, evData => do
      let hm ← evData.asMessage
      checked (DlcServer.cgwHandlerTdrRun shared self caller (.reply hm))
  | .close, _ => checked (DlcServer.cgwHandlerTdrRun shared self caller .close)
  | _, _ => .ok (untouched shared)

def cgwHandlerTdrStat (shared : Shared) (self caller : Nat) (ev : Ev) (evData : EvData) :
    Except Misread Handled := do
  -- the response is logged before the event is looked at
  let _ ← evData.asMessage
  match ev with
  | .connect => do
      let status ← evData.asInt
      checked (DlcServer.cgwHandlerTdrStat shared self caller (.connect (status != 0)))
  | .httpReply => do
      let hm ← evData.asMessage
      checked (DlcServer.cgwHandlerTdrStat shared self caller (.reply hm))
  | .close => checked (DlcServer.cgwHandlerTdrStat shared self caller .close)
  | _ => .ok (untouched shared)

end Raw

/-- `handler->fn(nc, ev, ev_data)`. -/
def Api.raw (api : Api) (shared : Shared) (self caller : Nat) (ev : Ev) (evData : EvData) :
    Except Misread Handled :=
  match api with
  | .pkgNew => Raw.cgwHandlerPkgNew shared self caller ev evData
  | .pkgStat => Raw.cgwHandlerPkgStat shared self ev evData
  | .tdrRun => Raw.cgwHandlerTdrRun shared self caller ev evData
  | .tdrStat => Raw.cgwHandlerTdrStat shared self caller ev evData

/-! ### What mongoose delivers -/

inductive MgEvent
  | poll (now : Int)
  | connect (err : Int)
  | recv (length : Int)
  | send (length : Int)
  | chunk (hm : Body)
  | reply (hm : Body)
  | close

namespace MgEvent

def ev : MgEvent → Ev
  | poll _ => .poll
  | connect _ => .connect
  | recv _ => .recv
  | send _ => .send
  | chunk _ => .httpChunk
  | reply _ => .httpReply
  | close => .close

def evData : MgEvent → EvData
  | poll now => .time now
  | connect err => .int err
  | recv length => .int length
  | send length => .int length
  | chunk hm => .message hm
  | reply hm => .message hm
  | close => .null

/-- The event as the handlers of the threads have it, if they look at it. -/
def cgw : MgEvent → Option CgwEvent
  | connect err => some (.connect (err != 0))
  | reply hm => some (.reply hm)
  | close => some .close
  | _ => none

/-- When an event can come, and what it makes of its connection. -/
def next (phase : Phase) : MgEvent → Option Phase
  | poll _ => if phase = .closed then none else some phase
  | connect err =>
      if phase = .connecting then some (if err != 0 then .failed else .connected) else none
  | recv _ | send _ | chunk _ | reply _ => if phase = .connected then some phase else none
  | close => if phase = .closed then none else some .closed

end MgEvent

def mgConnection : Machine Phase MgEvent where
  initial := .connecting
  step phase event := event.next phase

/-- The events of one connection so far. -/
structure Delivery where
  events : List MgEvent
  phase : Phase
  delivered : mgConnection.run mgConnection.initial events = some phase

/-! ### The handlers of the threads -/

private theorem next_of_after {event : MgEvent} {seen : CgwEvent} (conn : Connection)
    (same : event.cgw = some seen) :
    (conn.after seen).map Connection.phase = event.next conn.phase := by
  cases event with
  | connect err =>
      cases same
      by_cases connecting : conn.phase = .connecting
      · simp [Connection.after, MgEvent.next, connecting]
      · simp [Connection.after, MgEvent.next, connecting]
  | reply hm =>
      cases same
      by_cases connected : conn.phase = .connected
      · simp [Connection.after, MgEvent.next, connected]
      · simp [Connection.after, MgEvent.next, connected]
  | close =>
      cases same
      by_cases closed : conn.phase = .closed
      · simp [Connection.after, MgEvent.next, closed]
      · simp [Connection.after, MgEvent.next, closed]
  | _ => cases same

private theorem raw_eq_fn {api : Api} {event : MgEvent} {seen : CgwEvent} (shared : Shared)
    (self caller : Nat) (quiet : api ≠ .tdrStat ∨ ∃ hm, event = .reply hm)
    (same : event.cgw = some seen) :
    api.raw shared self caller event.ev event.evData =
      checked (api.fn shared self caller seen) := by
  cases event with
  | connect err =>
      cases same
      cases api with
      | tdrStat =>
          rcases quiet with other | ⟨hm, reply⟩
          · contradiction
          · cases reply
      | _ => rfl
  | reply hm =>
      cases same
      cases api with
      | _ => rfl
  | close =>
      cases same
      cases api with
      | tdrStat =>
          rcases quiet with other | ⟨hm, reply⟩
          · contradiction
          · cases reply
      | _ => rfl
  | _ => cases same

/-- An event that the handlers of the threads look at takes the connection where it
takes theirs, and does what theirs does. -/
theorem cgw_simulates {api : Api} {event : MgEvent} {seen : CgwEvent} (conn : Connection)
    (same : event.cgw = some seen) :
    (conn.after seen).map Connection.phase = event.next conn.phase ∧
      ∀ shared self caller, (api ≠ .tdrStat ∨ ∃ hm, event = .reply hm) →
        api.raw shared self caller event.ev event.evData =
          checked (api.fn shared self caller seen) :=
  ⟨next_of_after conn same, fun shared self caller quiet =>
    raw_eq_fn shared self caller quiet same⟩

/-! ### The law -/

/-- Every event is handled to its end: `ev_data` is read as what it is, and no
NULL pointer is followed. -/
def ReadsWell (api : Api) (events : List MgEvent) : Prop :=
  ∀ event ∈ events, ∀ shared self caller, ∃ handled,
    api.raw shared self caller event.ev event.evData = .ok handled

/-- The body is JSON, and every child of the value it holds has a name. -/
def Body.NamesAll (hm : Body) : Prop :=
  ∃ res, hm.json = some res ∧ ∀ item ∈ res.child, item.string ≠ none

/-- What keeps the handler of a request out of trouble. -/
def Api.Readable : Api → List MgEvent → Prop
  | .pkgNew, _ => True
  | .pkgStat, _ => True
  | .tdrRun, events => ∀ hm, .reply hm ∈ events → hm.NamesAll
  | .tdrStat, events => events = []

private theorem pkgNew_readsWell (events : List MgEvent) : ReadsWell .pkgNew events := by
  intro event _ shared self caller
  cases event with
  | reply hm =>
      by_cases foreign : shared.gCtx.curManifest.devId = text "WPC"
      · simp [Api.raw, Raw.cgwHandlerPkgNew, MgEvent.ev, cgwHandlerPkgNew, foreign, checked]
      · simp [Api.raw, Raw.cgwHandlerPkgNew, MgEvent.ev, cgwHandlerPkgNew, foreign, checked]
  | _ => exact ⟨_, rfl⟩

private theorem pkgStat_readsWell (events : List MgEvent) : ReadsWell .pkgStat events := by
  intro event _ shared self caller
  cases event with
  | connect err =>
      have seen : Api.raw .pkgStat shared self caller .connect (.int err) =
        checked (cgwHandlerPkgStat shared self (.connect (err != 0))) := rfl
      rw [MgEvent.ev, MgEvent.evData, seen]
      cases err != 0 with
      | true => exact ⟨_, rfl⟩
      | false => exact ⟨_, rfl⟩
  | reply hm =>
      have seen : Api.raw .pkgStat shared self caller .httpReply (.message hm) =
        checked (cgwHandlerPkgStat shared self (.reply hm)) := rfl
      rw [MgEvent.ev, MgEvent.evData, seen, cgwHandlerPkgStat]
      by_cases ready : hm.text.contains (text "succ") = true
      · rw [if_pos ready]
        exact ⟨_, rfl⟩
      · rw [if_neg ready]
        exact ⟨_, rfl⟩
  | _ => exact ⟨_, rfl⟩

private theorem tdrRunScan_ok_iff (items : List CJson) :
    tdrRunScan items = .ok () ↔ ∀ item ∈ items, item.string ≠ none := by
  induction items with
  | nil => simp [tdrRunScan]
  | cons iterator next ih =>
      cases named : iterator.string with
      | none => simp [tdrRunScan, CJson.named, named]
      | some name => simp [tdrRunScan, CJson.named, named, ih]

private theorem tdrRun_reply_iff (hm : Body) (shared : Shared) (self caller : Nat) :
    (∃ handled, cgwHandlerTdrRun shared self caller (.reply hm) = .ok handled) ↔
      hm.NamesAll := by
  rcases hm with ⟨body, json⟩
  cases json with
  | none => simp [cgwHandlerTdrRun, Body.NamesAll]
  | some res =>
      simp only [cgwHandlerTdrRun, Body.NamesAll, Option.some.injEq, exists_eq_left',
        ← tdrRunScan_ok_iff]
      cases tdrRunScan res.child with
      | error fault => simp
      | ok done => simp

private theorem checked_ok_iff (result : Except Fault Handled) :
    (∃ handled, checked result = .ok handled) ↔ ∃ handled, result = .ok handled := by
  cases result with
  | error fault => simp [checked]
  | ok handled => simp [checked]

private theorem tdrRun_readsWell_iff (events : List MgEvent) :
    ReadsWell .tdrRun events ↔ ∀ hm, .reply hm ∈ events → hm.NamesAll := by
  constructor
  · intro reads hm member
    have handled := reads (.reply hm) member .init 0 0
    exact (tdrRun_reply_iff hm .init 0 0).mp ((checked_ok_iff _).mp handled)
  · intro named event member shared self caller
    cases event with
    | reply hm =>
        have handled := (tdrRun_reply_iff hm shared self caller).mpr (named hm member)
        exact (checked_ok_iff _).mpr handled
    | _ => exact ⟨_, rfl⟩

private theorem first_misread {event : MgEvent} {phase : Phase}
    (begins : event.next .connecting = some phase) (shared : Shared) (self caller : Nat) :
    ¬∃ handled, Api.raw .tdrStat shared self caller event.ev event.evData = .ok handled := by
  intro reads
  rcases reads with ⟨handled, read⟩
  cases event with
  | chunk hm => cases begins
  | reply hm => cases begins
  | _ => cases read

private theorem tdrStat_readsWell_iff (delivery : Delivery) :
    ReadsWell .tdrStat delivery.events ↔ delivery.events = [] := by
  rcases delivery with ⟨events, phase, delivered⟩
  constructor
  · intro reads
    cases events with
    | nil => rfl
    | cons event rest =>
        cases begins : event.next .connecting with
        | none =>
            have refused : mgConnection.step mgConnection.initial event = none := begins
            simp only [Machine.run, refused] at delivered
            contradiction
        | some after =>
            have handled := reads event (List.mem_cons_self ..) .init 0 0
            exact absurd handled (first_misread begins .init 0 0)
  · intro none_ event member
    rw [none_] at member
    cases member

/-- Which handlers get through which deliveries. -/
theorem readsWell_iff (api : Api) (delivery : Delivery) :
    ReadsWell api delivery.events ↔ api.Readable delivery.events := by
  cases api with
  | pkgNew => exact iff_of_true (pkgNew_readsWell _) trivial
  | pkgStat => exact iff_of_true (pkgStat_readsWell _) trivial
  | tdrRun => exact tdrRun_readsWell_iff _
  | tdrStat => exact tdrStat_readsWell_iff delivery

/-- The first poll of a /tdr/stat connection is read as an HTTP message. -/
theorem tdrStat_misreads_poll :
    ¬∀ (api : Api) (delivery : Delivery), ReadsWell api delivery.events := by
  intro always
  have reads := always .tdrStat ⟨[.poll 0], .connecting, rfl⟩ (.poll 0)
    (List.mem_cons_self ..) .init 0 0
  rcases reads with ⟨handled, read⟩
  cases read

end DlcServer
