/-
The core state machine and the handlers that run it.

Every function of this file is a stretch of code without a blocking call; it
maps the shared memory to the memory it leaves and the threads it has started.
`caller` is the upgrade the calling thread works for.
-/

import DlcServer.Context
import DlcServer.UpgradeStat

namespace DlcServer

open Library

/-- What a stretch of code leaves behind. -/
structure Effect where
  shared : Shared
  started : List Thread

/-! ### core_state_handler -/

/-- The entry of `core_state_handler`: the state is forced unless `reset` is
STAT_INVALID. -/
def coreEnter (shared : Shared) (reset : Stat) : Shared :=
  (if reset = .statInvalid then shared else shared.setStat reset).log (.core reset)

@[simps]
def startCgw (shared : Shared) (api : Api) (caller : Nat) : Effect :=
  { shared := shared.log (.started api), started := [.cgwStart api caller] }

def coreStateHandler (shared : Shared) (reset : Stat) (caller : Nat) : Effect :=
  let entered := coreEnter shared reset
  match entered.gStat with
  | .dlcPkgNew =>
      { shared := entered.setStat .dlcPkgDownloading
        started := [.downloaderStart caller] }
  | .dlcPkgReady => startCgw entered .pkgNew caller
  | .orchPkgDownloading =>
      if entered.nc .pkgStat = none then startCgw entered .pkgStat caller
      else { shared := entered, started := [] }
  | .orchPkgReady => startCgw entered .tdrRun caller
  | .orchTdrRun => startCgw entered .tdrStat caller
  | _ => { shared := entered, started := [] }

/-! The states it is called with, one by one. -/

section Calls

variable (shared : Shared) (caller : Nat)

@[simp] theorem coreStateHandler_dlcPkgReady :
    coreStateHandler shared .dlcPkgReady caller =
      startCgw ((shared.setStat .dlcPkgReady).log (.core .dlcPkgReady)) .pkgNew caller :=
  rfl

@[simp] theorem coreStateHandler_orchPkgReady :
    coreStateHandler shared .orchPkgReady caller =
      startCgw ((shared.setStat .orchPkgReady).log (.core .orchPkgReady)) .tdrRun caller :=
  rfl

@[simp] theorem coreStateHandler_orchTdrRun :
    coreStateHandler shared .orchTdrRun caller =
      startCgw ((shared.setStat .orchTdrRun).log (.core .orchTdrRun)) .tdrStat caller :=
  rfl

@[simp] theorem coreStateHandler_orchTdrFail :
    coreStateHandler shared .orchTdrFail caller =
      { shared := (shared.setStat .orchTdrFail).log (.core .orchTdrFail), started := [] } :=
  rfl

@[simp] theorem coreStateHandler_orchTdrSucc :
    coreStateHandler shared .orchTdrSucc caller =
      { shared := (shared.setStat .orchTdrSucc).log (.core .orchTdrSucc), started := [] } :=
  rfl

end Calls

/-! ### Messages -/

/-- `mg_send` through a pointer that may be NULL. -/
def mgSend (shared : Shared) (peer : Peer) (nc : Option Nat) (bytes : List UInt8) :
    Except Fault Shared :=
  match nc with
  | none => .error .nullPointer
  | some _ => .ok (shared.log (.sent peer bytes))

/-- The message a builder has written, when neither its buffer of `capacity`
bytes nor its scratch array of `scratch` bytes was overrun. -/
def Writer.fit (writer : Writer) (capacity scratch : Nat) : Except Fault (OutBuf × Nat) :=
  if writer.msg.top ≤ capacity ∧ writer.scratch ≤ scratch then
    .ok (writer.msg, writer.pc)
  else .error .overrun

/-! ### HMI requests -/

/-- The walk over the members of a request: the uuid buffer, and the function
code unless the walk was left at a code that is no number. -/
def hmiScan : List CJson → CText → Int → Except Fault (CText × Option Int)
  | [], uuid, code => .ok (uuid, some code)
  | iterator :: next, uuid, code =>
      match iterator.string with
      | none => .error .nullPointer
      | some name =>
          if name = text "func-id" ∧ iterator.isNumber = false then .ok (uuid, none)
          else
            let code := if name = text "func-id" then iterator.valueint else code
            if name = text "uuid" then
              match strcpyInto uuidCapacity iterator.valuestring with
              | .error fault => .error fault
              | .ok copied => hmiScan next copied code
            else hmiScan next uuid code

def checkNewPackage : Int := 1
def startUpgrade : Int := 2
def upgradeProgress : Int := 3

def isStartUpgrade (shared : Shared) : Option CJson → Bool
  | none => false
  | some root =>
      match hmiScan root.child shared.uuid 0 with
      | .error _ => false
      | .ok (_, code) => code == some startUpgrade

/-- What a request leaves: `some` length of the answer when it is a
START_UPGRADE that has passed the test of `g_stat`. -/
abbrev HmiOutcome := Shared × Option Nat

def hmiAnswer (shared : Shared) (written : Writer) (scratch : Nat) :
    Except Fault (Shared × Nat) := do
  let (response, respLen) ← written.fit 1024 scratch
  return ({ shared with hmiResponse := response }, respLen)

def hmiAnswerNow (shared : Shared) (written : Writer) (scratch : Nat) :
    Except Fault HmiOutcome := do
  let (answered, respLen) ← hmiAnswer shared written scratch
  let sent ← mgSend answered .hmi answered.gCtx.hmi (answered.hmiResponse.sent respLen)
  return (sent, none)

/-- `hmi_payload_parser`, for the outcome `root` of `cJSON_Parse`, up to the
wait of START_UPGRADE. -/
def hmiPayloadParser (shared : Shared) (root : Option CJson) : Except Fault HmiOutcome :=
  match root with
  | none => return (shared, none)
  | some root => do
      let (uuid, code) ← hmiScan root.child shared.uuid 0
      let scanned := { shared with uuid := uuid }
      if code = some startUpgrade then
        let (answered, respLen) ← hmiAnswer scanned
          (hmiRespStartUpgrade scanned.gCtx.hmiPkgInfo scanned.hmiResponse uuid) 128
        return (answered, if answered.gStat = .orchPkgReady then some respLen else none)
      else if code = some upgradeProgress then
        hmiAnswerNow scanned
          (hmiRespUpgradeStat scanned.gCtx.hmiUpgradeStat scanned.hmiResponse progressUuid) 128
      else if code = some checkNewPackage then
        hmiAnswerNow scanned
          (hmiRespCheckNewPkg scanned.gCtx.hmiPkgInfo scanned.hmiResponse uuid) 512
      else
        return (scanned, none)

/-! ### Events of the CGW connections -/

/-- A reply body: the C string at `hm->body.p`, and what `cJSON_Parse` makes of
it. -/
structure Body where
  text : CText
  json : Option CJson

inductive CgwEvent
  | connect (failed : Bool)
  | reply (body : Body)
  | close

/-- What an event handler leaves; `flagged` says that it has set
MG_F_CLOSE_IMMEDIATELY, and `raised` that it has set `cgw_thread_exit`. -/
structure Handled where
  shared : Shared
  started : List Thread
  flagged : Bool
  raised : Bool

/-- The MG_EV_CLOSE branch, the same in all four handlers. -/
def cgwClosed (shared : Shared) (api : Api) : Handled :=
  { shared := (shared.setNc api none).setExit api true, started := [], flagged := false, raised := true }

def cgwHandlerPkgNew (shared : Shared) (self caller : Nat) : CgwEvent → Except Fault Handled
  -- the status of the connect is not looked at
  | .connect _ =>
      .ok { shared := (shared.setNc .pkgNew (some self)).setStat .orchPkgDownloading
            started := []
            flagged := false
            raised := false }
  | .reply _ =>
      if shared.gCtx.curManifest.devId ≠ text "WPC" then
        .ok { shared := (shared.setStat .orchTdrRun).setExit .pkgNew true
              started := []
              flagged := true
              raised := true }
      else
        .ok { shared := (shared.setStat .orchPkgDownloading).setExit .pkgNew true
              started := [.uploaderStart caller]
              flagged := true
              raised := true }
  | .close => .ok (cgwClosed shared .pkgNew)

def cgwHandlerPkgStat (shared : Shared) (self : Nat) : CgwEvent → Except Fault Handled
  | .connect true =>
      .ok { shared := (shared.setStat .orchPkgBad).setExit .pkgStat true
            started := []
            flagged := false
            raised := true }
  | .connect false =>
      .ok { shared := (shared.setNc .pkgStat (some self)).setStat .orchPkgDownloading
            started := []
            flagged := false
            raised := false }
  | .reply body =>
      if body.text.contains (text "succ") then
        .ok { shared := shared.setExit .pkgStat true
              started := []
              flagged := true
              raised := true }
      else
        .ok { shared := shared.setStat .orchPkgDownloading
              started := []
              flagged := false
              raised := false }
  | .close => .ok (cgwClosed shared .pkgStat)

/-- The walk over the members of a /tdr/run reply only compares their names. -/
def tdrRunScan : List CJson → Except Fault Unit
  | [] => .ok ()
  | iterator :: next =>
      match iterator.named (text "error") with
      | .error fault => .error fault
      | .ok _ => tdrRunScan next

def cgwHandlerTdrRun (shared : Shared) (self caller : Nat) : CgwEvent → Except Fault Handled
  -- the status of the connect is not looked at
  | .connect _ =>
      let called := coreStateHandler (shared.setNc .tdrRun (some self)) .orchTdrRun caller
      .ok { shared := called.shared
            started := called.started
            flagged := false
            raised := false }
  | .reply body =>
      match body.json with
      | none => .error .nullPointer
      | some res =>
          match tdrRunScan res.child with
          | .error fault => .error fault
          | .ok () => .ok { shared := shared, started := [], flagged := false, raised := false }
  | .close => .ok (cgwClosed shared .tdrRun)

/-- The message to the HMI while an upgrade is in progress. -/
def tdrStatProgress (shared : Shared) : Except Fault Shared := do
  let (response, respLen) ←
    (hmiRespUpgradeStat shared.gCtx.hmiUpgradeStat shared.tdrResponse progressUuid).fit 512 128
  mgSend { shared with tdrResponse := response } .hmi shared.gCtx.hmi (response.sent respLen)

/-- The verdict of a report, and for one that is in progress the message to the
HMI, before `core_state_handler` is called on it. -/
def tdrStatReport (shared : Shared) (result : CJson) : Except Fault (Shared × Stat) := do
  let (stat, verdict) ← hmiRespUpgradeStatUpdate shared.gCtx.hmiUpgradeStat result
  let updated := { shared with gCtx := { shared.gCtx with hmiUpgradeStat := stat } }
  if verdict < 0 then
    return (updated, .orchTdrFail)
  else if verdict = 0 then
    let sent ← tdrStatProgress updated
    return (sent, .orchTdrRun)
  else
    return (updated, .orchTdrSucc)

def Body.result (body : Body) : Option CJson :=
  match body.json with
  | none => none
  | some res => res.getObjectItem (Library.text "result")

def cgwHandlerTdrStat (shared : Shared) (self caller : Nat) : CgwEvent → Except Fault Handled
  | .connect true =>
      .ok { shared :=
              ((shared.setNc .tdrStat (some self)).setStat .orchConErr).setExit .tdrStat true
            started := []
            flagged := false
            raised := true }
  | .connect false =>
      .ok { shared := (shared.setNc .tdrStat (some self)).setStat .orchTdrRun
            started := []
            flagged := false
            raised := false }
  | .reply body =>
      match body.result with
      | none => .ok { shared := shared, started := [], flagged := false, raised := false }
      | some result =>
          match tdrStatReport (shared.setExit .tdrStat true) result with
          | .error fault => .error fault
          | .ok (reported, verdict) =>
              let called := coreStateHandler reported verdict caller
              .ok { shared := called.shared
                    started := called.started
                    flagged := true
                    raised := true }
  | .close => .ok (cgwClosed shared .tdrStat)

/-- `handler->fn`. -/
def Api.fn (api : Api) (shared : Shared) (self caller : Nat) (event : CgwEvent) :
    Except Fault Handled :=
  match api with
  | .pkgNew => cgwHandlerPkgNew shared self caller event
  | .pkgStat => cgwHandlerPkgStat shared self event
  | .tdrRun => cgwHandlerTdrRun shared self caller event
  | .tdrStat => cgwHandlerTdrStat shared self caller event

end DlcServer
