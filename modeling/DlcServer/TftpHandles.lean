/-
The files the TFTP server opens and closes.

`m_filefd` and `m_filefd_r` are pointers that every function of the class calls
through without looking at them.  Beside the server this file keeps the two
pointers and the calls made through them, function by function as the source
makes them; `run` may be called again whatever it has returned.
-/

import DlcServer.TftpClients
import DlcServer.Library.HandleCalls

namespace DlcServer

open Library

namespace Tftp

variable {Address : Type}

/-! ### The calls -/

/-- The two modes of `fopen`: `write` is that of `m_filefd` and `fwrite`, `read`
that of `m_filefd_r` and `fread`. -/
inductive Mode
  | write
  | read
  deriving DecidableEq, Repr

/-- The pointers, and the calls made so far, newest first. -/
structure Handles where
  filefd : Mode → Option Nat
  calls : List (HandleCall Mode)

namespace Handles

def start : Handles :=
  { filefd := fun _ => none, calls := [] }

/-- `m_filefd = fopen(filename, ...)`, whose result is NULL when it fails. -/
def fopen (handles : Handles) (mode : Mode) (opens : Bool) : Handles :=
  let result := if opens then some handles.calls.length else none
  { filefd := Function.update handles.filefd mode result
    calls := .opened mode result :: handles.calls }

/-- `fwrite` or `fread`. -/
def transfer (handles : Handles) (mode : Mode) : Handles :=
  { handles with calls := .used mode (handles.filefd mode) :: handles.calls }

/-- `fclose(m_filefd); m_filefd = NULL;` -/
def fclose (handles : Handles) (mode : Mode) : Handles :=
  { filefd := Function.update handles.filefd mode none
    calls := .closed (handles.filefd mode) :: handles.calls }

/-! ### Function by function -/

/-- `on_write`, behind the two `strlen` of `parse_wrq`. -/
def parseWrq (handles : Handles) (tftp : Members Address) (opens : Bool) : Handles :=
  match cString (tftp.buffer.drop 2) with
  | none => handles
  | some (_, afterName) =>
      match cString afterName with
      | none => handles
      | some _ => handles.fopen .write opens

/-- `on_read`, behind the two `strlen` of `parse_rrq`; there is nothing to open
when there is no such file. -/
def parseRrq (handles : Handles) (tftp : Members Address) (opens : Bool) : Handles :=
  match cString (tftp.buffer.drop 2) with
  | none => handles
  | some (filename, afterName) =>
      match cString afterName with
      | none => handles
      | some _ => handles.fopen .read (opens && (tftp.files filename).isSome)

/-- `on_write_data`, which is called for a DATA packet that is no duplicate. -/
def processWrite (handles : Handles) (tftp : Members Address) (nextBlockNum : Nat) : Handles :=
  if command tftp.buffer = cmdData ∧ nextBlockNum ≤ number tftp.buffer then
    handles.transfer .write
  else handles

/-- `on_read_data`, at every new turn of the outer loop of `process_read`. -/
def processRead (handles : Handles) : Handles :=
  handles.transfer .read

/-- A wait that ends with the acknowledgement of a full block is followed by a
new turn. -/
def waitForAck (handles : Handles) (tftp : Members Address) (blockNum : Nat)
    (event : Event Address) : Handles :=
  match event.received with
  | .failed _ => handles
  | .datagram _ bytes =>
      if acknowledges blockNum bytes = true ∧ blockSize ≤ tftp.dataSize then handles.processRead
      else handles

/-- `on_close_r` once `process_read` has returned. -/
def reading (handles : Handles) : ReadTurn → Handles
  | .waits _ _ => handles
  | .returned _ => handles.fclose .read

def parseRq (handles : Handles) (tftp : Members Address) (opens sends : Bool) : Handles :=
  if command tftp.buffer = cmdWrq then handles.parseWrq tftp opens
  else if command tftp.buffer = cmdRrq then
    match Tftp.parseRrq tftp opens with
    | .accepted opened =>
        (handles.parseRrq tftp opens).processRead.reading (Tftp.processRead opened 1 sends).2
    | .refused _ => handles.parseRrq tftp opens
    | .fault => handles.parseRrq tftp opens
  else handles

/-- `on_close_w` once `process_write` has returned; a positive result leads to
another turn of `parse_rq`. -/
def writing (handles : Handles) (turned : Members Address × WriteTurn) (opens sends : Bool) :
    Handles :=
  match turned.2 with
  | .again _ => handles
  | .fault => handles
  | .returned result =>
      if result ≤ 0 then handles.fclose .write
      else (handles.fclose .write).parseRq turned.1.onCloseW opens sends

/-- From one `recvfrom` to the next. -/
def step (handles : Handles) (server : Server Address) (event : Event Address) : Handles :=
  match server.control with
  | .listens =>
      match event.received with
      | .failed _ => handles
      | .datagram source bytes =>
          handles.parseRq (server.tftp.receive source bytes) event.opens event.sends
  | .writes nextBlockNum =>
      match event.received with
      | .failed _ => handles.fclose .write
      | .datagram source bytes =>
          let tftp := server.tftp.receive source bytes
          (handles.processWrite tftp nextBlockNum).writing (Tftp.processWrite tftp nextBlockNum)
            event.opens event.sends
  | .reads blockNum r =>
      (handles.waitForAck server.tftp blockNum event).reading
        (Tftp.waitForAck server.tftp blockNum r event).2
  | .stopped | .spins | .faulted => handles

end Handles

/-! ### Calls of run -/

structure Runner (Address : Type) where
  server : Server Address
  handles : Handles

/-- `run` is called again also after a negative value. -/
def Server.again (server : Server Address) : Server Address :=
  if server.control = .stopped then { server with control := .listens } else server

/-- `run` has returned, or has not been called yet. -/
def Runner.Returned (runner : Runner Address) : Prop :=
  runner.server.control = .listens ∨ runner.server.control = .stopped

def Runner.step (runner : Runner Address) (event : Event Address) : Option (Runner Address) :=
  (runner.server.again.step event).map fun server =>
    { server := server, handles := runner.handles.step runner.server.again event }

/-- Any number of calls of `run`, after `start`. -/
def tftpRuns (start : Start Address) : Machine (Runner Address) (Event Address) where
  initial := { server := (tftpd start).initial, handles := .start }
  step := Runner.step

/-! ### What the pointers hold -/

/-- The calls so far are in order, and only the pointer named by `held` is not
NULL. -/
structure Handles.Holds (handles : Handles) (held : Option Mode) : Prop where
  orderly : HandleCall.Orderly handles.calls handles.filefd
  numbered : ∀ mode handle, .opened mode (some handle) ∈ handles.calls →
    handle < handles.calls.length
  pointers : ∀ mode, handles.filefd mode ≠ none ↔ held = some mode

namespace Handles

variable {handles : Handles} {mode : Mode}

theorem Holds.null (holds : handles.Holds none) (mode : Mode) : handles.filefd mode = none :=
  Classical.not_not.mp (fun some_ => absurd ((holds.pointers mode).mp some_) (by simp))

private theorem holds_start : start.Holds none where
  orderly := .start
  numbered := by intro mode handle opened; cases opened
  pointers := by simp [start]

theorem Holds.fopen (holds : handles.Holds none) (mode : Mode) (opens : Bool) :
    (handles.fopen mode opens).Holds (if opens then some mode else none) := by
  cases opens with
  | false =>
      have same : Function.update handles.filefd mode none = handles.filefd := by
        rw [← holds.null mode, Function.update_eq_self]
      constructor
      · simp only [Handles.fopen, Bool.false_eq_true, if_false, same]
        exact .fails mode holds.orderly (holds.null mode)
      · intro other handle opened
        have before := holds.numbered other handle (by simpa [Handles.fopen] using opened)
        exact Nat.lt_succ_of_lt before
      · simp only [Handles.fopen, Bool.false_eq_true, if_false, same]
        exact holds.pointers
  | true =>
      constructor
      · refine .opens mode _ holds.orderly (holds.null mode) ?_
        intro other opened
        exact absurd (holds.numbered other _ opened) (Nat.lt_irrefl _)
      · intro other handle opened
        rcases List.mem_cons.mp opened with now | before
        · cases now
          exact Nat.lt_succ_self _
        · exact Nat.lt_succ_of_lt (holds.numbered other handle before)
      · intro other
        by_cases same : other = mode
        · subst same
          simp [Handles.fopen]
        · have unlike : mode ≠ other := fun equal => same equal.symm
          simp [Handles.fopen, Function.update_of_ne same, holds.null other, unlike]

theorem Holds.handle (holds : handles.Holds (some mode)) :
    ∃ handle, handles.filefd mode = some handle :=
  Option.ne_none_iff_exists'.mp ((holds.pointers mode).mpr rfl)

theorem Holds.transfer (holds : handles.Holds (some mode)) :
    (handles.transfer mode).Holds (some mode) := by
  obtain ⟨handle, held⟩ := holds.handle
  constructor
  · simp only [Handles.transfer, held]
    exact .uses mode handle holds.orderly held
  · intro other there opened
    have before := holds.numbered other there (by simpa [Handles.transfer] using opened)
    exact Nat.lt_succ_of_lt before
  · exact holds.pointers

theorem Holds.fclose (holds : handles.Holds (some mode)) : (handles.fclose mode).Holds none := by
  obtain ⟨handle, held⟩ := holds.handle
  constructor
  · simp only [Handles.fclose, held]
    exact .closes mode handle holds.orderly held
  · intro other there opened
    have before := holds.numbered other there (by simpa [Handles.fclose] using opened)
    exact Nat.lt_succ_of_lt before
  · intro other
    by_cases same : other = mode
    · simp [Handles.fclose, same]
    · have unlike : mode ≠ other := fun equal => same equal.symm
      have null := (holds.pointers other).not.mpr (by simpa using unlike)
      simpa [Handles.fclose, Function.update_of_ne same] using null

/-- Where the server waits, or why it waits no more, tells which file is open.
A fault may come from the middle of a function. -/
def Fits (handles : Handles) : Control → Prop
  | .listens | .stopped | .spins => handles.Holds none
  | .writes _ => handles.Holds (some .write)
  | .reads _ _ => handles.Holds (some .read)
  | .faulted => ∃ held, handles.Holds held

/-! ### Function by function -/

variable {tftp : Members Address}

theorem Holds.runReturns (holds : handles.Holds none) (tftp : Members Address) (result : Int) :
    handles.Fits (Server.runReturns tftp result).control := by
  rcases Server.runReturns_control tftp result with stopped | listens
  · rw [stopped]
    exact holds
  · rw [listens]
    exact holds

theorem Holds.reading (holds : handles.Holds (some .read)) (turned : Members Address × ReadTurn) :
    (handles.reading turned.2).Fits (Server.reading turned).control := by
  obtain ⟨tftp, turn⟩ := turned
  cases turn with
  | waits blockNum r => exact holds
  | returned result => exact holds.fclose.runReturns _ _

/-- What `parse_wrq` and `parse_rrq` leave open. -/
def FitsParsed (handles : Handles) (mode : Mode) : Parsed Address → Prop
  | .accepted _ => handles.Holds (some mode)
  | .refused _ => handles.Holds none
  | .fault => ∃ held, handles.Holds held

theorem Holds.parseWrq (holds : handles.Holds none) (tftp : Members Address) (opens : Bool) :
    (handles.parseWrq tftp opens).FitsParsed .write (Tftp.parseWrq tftp opens) := by
  unfold Handles.parseWrq Tftp.parseWrq
  cases named : cString (tftp.buffer.drop 2) with
  | none => exact ⟨none, holds⟩
  | some found =>
      cases moded : cString found.2 with
      | none =>
          simp only [moded]
          exact ⟨none, holds⟩
      | some terminated =>
          simp only [moded]
          have opened := holds.fopen .write opens
          cases opens with
          | false => exact opened
          | true =>
              simp only [Members.onWrite, if_true]
              by_cases options : tftp.buffer.length - terminated.2.length < tftp.dataSize
              · rw [if_pos options]
                cases strcmp terminated.2 (text "blksize") with
                | none => exact ⟨_, opened⟩
                | some asked =>
                    cases asked with
                    | false => exact opened
                    | true => exact opened
              · rw [if_neg options]
                exact opened

theorem Holds.parseRrq (holds : handles.Holds none) (tftp : Members Address) (opens : Bool) :
    (handles.parseRrq tftp opens).FitsParsed .read (Tftp.parseRrq tftp opens) := by
  unfold Handles.parseRrq Tftp.parseRrq
  cases named : cString (tftp.buffer.drop 2) with
  | none => exact ⟨none, holds⟩
  | some found =>
      cases moded : cString found.2 with
      | none =>
          simp only [moded]
          exact ⟨none, holds⟩
      | some terminated =>
          simp only [moded, Members.onRead]
          have opened := holds.fopen .read (opens && (tftp.files found.1).isSome)
          cases stored : tftp.files found.1 with
          | none =>
              simp only [stored, Option.isSome_none, Bool.and_false] at opened ⊢
              exact opened
          | some content =>
              cases opens with
              | false =>
                  simp only [stored, Option.isSome_some, Bool.and_true] at opened ⊢
                  exact opened
              | true =>
                  simp only [stored, Option.isSome_some, Bool.and_true] at opened ⊢
                  exact opened

theorem Holds.parseRq (holds : handles.Holds none) (tftp : Members Address) (result : Int)
    (opens sends : Bool) :
    (handles.parseRq tftp opens sends).Fits
      (Server.parseRq tftp result opens sends).control := by
  unfold Handles.parseRq Server.parseRq
  by_cases isWrite : command tftp.buffer = cmdWrq
  · rw [if_pos isWrite, if_pos isWrite]
    have parsed := holds.parseWrq tftp opens
    cases outcome : Tftp.parseWrq tftp opens with
    | accepted opened =>
        rw [outcome] at parsed
        exact parsed
    | refused answered =>
        rw [outcome] at parsed
        exact Holds.runReturns parsed _ _
    | fault =>
        rw [outcome] at parsed
        exact parsed
  · rw [if_neg isWrite, if_neg isWrite]
    by_cases isRead : command tftp.buffer = cmdRrq
    · rw [if_pos isRead, if_pos isRead]
      have parsed := holds.parseRrq tftp opens
      cases outcome : Tftp.parseRrq tftp opens with
      | accepted opened =>
          rw [outcome] at parsed
          exact Holds.reading (Holds.transfer parsed) _
      | refused answered =>
          rw [outcome] at parsed
          exact Holds.runReturns parsed _ _
      | fault =>
          rw [outcome] at parsed
          exact parsed
    · rw [if_neg isRead, if_neg isRead]
      by_cases returns : result ≤ 0
      · rw [if_pos returns]
        exact holds.runReturns _ _
      · rw [if_neg returns]
        exact holds

theorem Holds.processWrite (holds : handles.Holds (some .write)) (tftp : Members Address)
    (nextBlockNum : Nat) : (handles.processWrite tftp nextBlockNum).Holds (some .write) := by
  unfold Handles.processWrite
  by_cases writes : command tftp.buffer = cmdData ∧ nextBlockNum ≤ number tftp.buffer
  · rw [if_pos writes]
    exact holds.transfer
  · rw [if_neg writes]
    exact holds

theorem Holds.writing (holds : handles.Holds (some .write))
    (turned : Members Address × WriteTurn) (opens sends : Bool) :
    (handles.writing turned opens sends).Fits (Server.writing turned opens sends).control := by
  obtain ⟨tftp, turn⟩ := turned
  cases turn with
  | again nextBlockNum => exact holds
  | fault => exact ⟨_, holds⟩
  | returned result =>
      simp only [Handles.writing, Server.writing]
      by_cases returns : result ≤ 0
      · rw [if_pos returns, if_pos returns]
        exact holds.fclose.runReturns _ _
      · rw [if_neg returns, if_neg returns]
        exact holds.fclose.parseRq _ _ _ _

theorem Holds.waitForAck (holds : handles.Holds (some .read)) (tftp : Members Address)
    (blockNum : Nat) (event : Event Address) :
    (handles.waitForAck tftp blockNum event).Holds (some .read) := by
  unfold Handles.waitForAck
  cases event.received with
  | failed again => exact holds
  | datagram source bytes =>
      by_cases goesOn : acknowledges blockNum bytes = true ∧ blockSize ≤ tftp.dataSize
      · simp only [if_pos goesOn]
        exact holds.transfer
      · simp only [if_neg goesOn]
        exact holds

/-- From one `recvfrom` to the next. -/
theorem Fits.step {server next : Server Address} {event : Event Address}
    (fits : handles.Fits server.control) (taken : server.step event = some next) :
    (handles.step server event).Fits next.control := by
  unfold Server.step at taken
  unfold Handles.step
  cases control : server.control with
  | listens =>
      rw [control] at fits
      cases received : event.received with
      | failed again =>
          simp only [control, received, Option.some.injEq] at taken
          rw [← taken]
          exact Holds.runReturns fits _ _
      | datagram source bytes =>
          simp only [control, received, Option.some.injEq] at taken
          rw [← taken]
          exact Holds.parseRq fits _ _ _ _
  | writes nextBlockNum =>
      rw [control] at fits
      cases received : event.received with
      | failed again =>
          simp only [control, received, Option.some.injEq] at taken
          rw [← taken]
          exact (Holds.fclose fits).runReturns _ _
      | datagram source bytes =>
          simp only [control, received, Option.some.injEq] at taken
          rw [← taken]
          exact (Holds.processWrite fits _ _).writing _ _ _
  | reads blockNum r =>
      rw [control] at fits
      simp only [control, Option.some.injEq] at taken
      rw [← taken]
      exact (Holds.waitForAck fits _ _ _).reading _
  | stopped => simp [control] at taken
  | spins => simp [control] at taken
  | faulted => simp [control] at taken

theorem Fits.again {server : Server Address} (fits : handles.Fits server.control) :
    handles.Fits server.again.control := by
  unfold Server.again
  by_cases stopped : server.control = .stopped
  · rw [if_pos stopped]
    rw [stopped] at fits
    exact fits
  · rw [if_neg stopped]
    exact fits

theorem Fits.holds {control : Control} (fits : handles.Fits control) :
    ∃ held, handles.Holds held := by
  cases control with
  | faulted => exact fits
  | listens => exact ⟨_, fits⟩
  | writes nextBlockNum => exact ⟨_, fits⟩
  | reads blockNum r => exact ⟨_, fits⟩
  | stopped => exact ⟨_, fits⟩
  | spins => exact ⟨_, fits⟩

end Handles

/-! ### Runs -/

def Runner.Fits (runner : Runner Address) : Prop :=
  runner.handles.Fits runner.server.control

private theorem fits_of_reachable {start : Start Address} {runner : Runner Address}
    (reached : (tftpRuns start).Reachable runner) : runner.Fits := by
  have atStart : (tftpRuns start).initial.Fits := Handles.holds_start
  refine Machine.Reaches.invariant atStart ?_ reached
  intro before event after _ fits _ taken
  obtain ⟨server, stepped, same⟩ := Option.map_eq_some_iff.mp taken
  subst same
  exact fits.again.step stepped

/-- What is asked of the calls, and of the pointers when `run` has returned. -/
structure Runner.Tidy (runner : Runner Address) : Prop where
  disciplined : HandleCall.Disciplined runner.handles.calls
  null : runner.Returned → ∀ mode, runner.handles.filefd mode = none
  allClosed : runner.Returned → HandleCall.AllClosed runner.handles.calls

/-- Whatever arrives, fails or is opened over any number of calls of `run`, the
files are used and closed while they are open only, each is closed exactly once,
and none is open when `run` has returned. -/
theorem tidy_of_reachable {start : Start Address} {runner : Runner Address}
    (reached : (tftpRuns start).Reachable runner) : runner.Tidy := by
  have fits : runner.handles.Fits runner.server.control := fits_of_reachable reached
  have empty (returned : runner.Returned) : runner.handles.Holds none := by
    rcases returned with listens | stopped
    · rw [listens] at fits
      exact fits
    · rw [stopped] at fits
      exact fits
  obtain ⟨held, holds⟩ := fits.holds
  constructor
  · exact holds.orderly.disciplined
  · intro returned
    exact (empty returned).null
  · intro returned
    exact (empty returned).orderly.allClosed (empty returned).null

/-- A read request in the middle of an upload. -/
def interruptedUpload : List (Event Nat) :=
  [arrival 7 (requestForF.bytes cmdWrq), arrival 7 (requestForF.bytes cmdRrq)]

set_option maxRecDepth 8192 in
theorem interrupted_upload_tidy :
    ∃ runner, (tftpRuns (.fresh fun _ => none)).run (tftpRuns (.fresh fun _ => none)).initial
        interruptedUpload = some runner ∧
      runner.handles.calls =
        [.closed (some 2), .used .read (some 2), .opened .read (some 2), .closed (some 0),
          .opened .write (some 0)] ∧
      runner.Tidy := by
  have ran : ∃ runner, (tftpRuns (.fresh fun _ => none)).run
      (tftpRuns (.fresh fun _ => none)).initial interruptedUpload = some runner ∧
        runner.handles.calls =
          [.closed (some 2), .used .read (some 2), .opened .read (some 2), .closed (some 0),
            .opened .write (some 0)] :=
    ⟨_, rfl, rfl⟩
  obtain ⟨runner, ended, calls⟩ := ran
  exact ⟨runner, ended, calls, tidy_of_reachable (Machine.Reachable.of_run ended)⟩

end Tftp

end DlcServer
