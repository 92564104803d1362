/-
The threads of the program, as sequences of atomic steps.

A step is a test, a setting or a clearing of the lock, or the code between two
of them up to the next call that blocks.  A handler called from `mg_mgr_poll` is
one step; `tick` goes on, every other action is something the outside does.  A
step that would go through a NULL pointer or past the end of an array is not
enabled: nothing is said about runs after one.
-/

import DlcServer.CoreState
import DlcServer.Library.Pool

namespace DlcServer

open Library

/-- What happens to a thread; `exit` ends one of the commands it has started. -/
inductive Act
  | tick
  | dmcAccept (nc : Nat)
  | dmcManifest (root : CJson)
  | hmiAccept (nc : Nat)
  | hmiRecv (root : Option CJson)
  | statusReport (body : CText)
  | connection (event : CgwEvent)
  | popen (succeeds : Bool)
  | eof
  | exit (command status : Nat)

abbrev Done := Outcome Shared Thread

/-! ### main -/

/-- The branch DLC_PKG_NEW of `core_state_handler` up to the start of the
downloader, which from then on runs beside the rest of the branch. -/
def coreNewPkg (shared : Shared) : Effect :=
  { shared := coreEnter shared .dlcPkgNew
    started := [.downloaderStart shared.upgrade] }

example (shared : Shared) :
    coreStateHandler shared .dlcPkgNew shared.upgrade =
      { shared := (coreNewPkg shared).shared.setStat .dlcPkgDownloading
        started := (coreNewPkg shared).started } :=
  rfl

/-- `core_state_handler(dmc_msg_parse(...))` for a manifest that is accepted. -/
def acceptManifest (shared : Shared) (root : CJson) : Option Effect :=
  match dmcMsgParse shared.gCtx.curManifest shared.gCtx.pkgUrl (some root) with
  | .error _ => none
  | .ok parsed =>
      if parsed.nextStat = .dlcPkgNew then
        some (coreNewPkg
          { shared with
            gCtx :=
              { shared.gCtx with
                curManifest := parsed.curManifest
                pkgUrl := parsed.pkgUrl }
            upgrade := shared.upgrade + 1
            past := .accepted :: shared.past })
      else none

def mainStep (shared : Shared) (self : Nat) : MainPc → Act → Option Done
  | .test, .tick =>
      match shared.gStatLock with
      | some _ => some ⟨shared, .main .test, []⟩
      | none => some ⟨shared, .main .set, []⟩
  | .set, .tick => some ⟨shared.setLock (some self), .main .polling, []⟩
  | .polling, .dmcAccept nc =>
      some
        ⟨{ shared with gCtx := { shared.gCtx with dmc := some nc } }, .main (.accepting nc),
          [.hmi .start]⟩
  -- the inventory is sent from an array that it overruns by three bytes
  | .accepting _, .tick =>
      let inventory := dmcRespInventory { mem := fun _ => 0, top := 0 }
      some
        ⟨shared.log (.sent .dmc (inventory.1.sent inventory.2)), .main .polling,
          [.monitor .start]⟩
  | .polling, .dmcManifest root =>
      match shared.gCtx.dmc with
      | none => none
      | some _ =>
          (acceptManifest shared root).map fun effect =>
            ⟨effect.shared, .main .newPkg, effect.started⟩
  | .newPkg, .tick => some ⟨shared.setStat .dlcPkgDownloading, .main .polling, []⟩
  | .polling, .tick => some ⟨shared.setLock none, .main .test, []⟩
  | _, _ => none

/-! ### hmi_thread -/

/-- One round of `wait_stat_unlocked(1000)`: whether it sleeps again. -/
def stillWaits (shared : Shared) (t : Nat) : Bool :=
  shared.gStatLock.isSome && t < 1000

def hmiStep (shared : Shared) (self : Nat) : HmiPc → Act → Option Done
  | .start, .tick =>
      if shared.hmiBound then some ⟨shared, .hmi .deaf, []⟩
      else some ⟨{ shared with hmiBound := true }, .hmi .serving, []⟩
  | .serving, .hmiAccept nc =>
      some ⟨{ shared with gCtx := { shared.gCtx with hmi := some nc } }, .hmi .serving, []⟩
  | .serving, .hmiRecv root =>
      match shared.gCtx.hmi with
      | none => none
      | some _ =>
          match hmiPayloadParser shared root with
          | .error _ => none
          | .ok (parsed, none) => some ⟨parsed, .hmi .serving, []⟩
          | .ok (parsed, some respLen) =>
              some ⟨parsed, .hmi (.waiting 1 ⟨respLen, parsed.upgrade⟩), []⟩
  | .waiting t request, .tick =>
      if stillWaits shared t then some ⟨shared, .hmi (.waiting (t + 100) request), []⟩
      else some ⟨shared, .hmi (.lock request), []⟩
  | .lock request, .tick => some ⟨shared.setLock (some self), .hmi (.acting request), []⟩
  | .acting request, .tick =>
      let called := coreStateHandler shared .orchPkgReady request.upgrade
      some ⟨called.shared, .hmi (.unlock request), called.started⟩
  | .unlock request, .tick =>
      match mgSend (shared.setLock none) .hmi shared.gCtx.hmi
          (shared.hmiResponse.sent request.respLen) with
      | .error _ => none
      | .ok sent => some ⟨sent, .hmi .serving, []⟩
  | _, _ => none

/-! ### cgw_msg_monitor_thread -/

def monitorStep (shared : Shared) : MonitorPc → Act → Option Done
  -- a second monitor finds its port taken and ends the process
  | .start, .tick =>
      if shared.monitorBound then some ⟨{ shared with exited := true }, .monitor .start, []⟩
      else some ⟨{ shared with monitorBound := true }, .monitor .serving, []⟩
  | .serving, .statusReport body =>
      let resp := cgwMonitorHandleStatus { mem := fun _ => 0, top := 0 } body
      if resp.1.top ≤ 2048 then
        match shared.gCtx.dmc with
        | none => some ⟨shared, .monitor .serving, []⟩
        | some _ =>
            some ⟨shared.log (.sent .dmc (resp.1.sent resp.2)), .monitor .serving, []⟩
      else none
  | _, _ => none

/-! ### cgw_msg_thread -/

def cgwApiPayloadPkgNew (manifest : BsL1Manifest) : CText :=
  text "\x7b\"dev_id\":\"" ++ manifest.devId ++ text "\",\"payload\":\x7b\"url\":\"" ++
    manifest.pkgCdnUrl ++ text "\"\x7d\x7d"

def cgwApiPayloadDefault : CText :=
  text "\x7b\"dev_id\":\"VDCM\"\x7d\x7d"

/-- `handler->payload_gener()`. -/
def Api.payloadGener (api : Api) (shared : Shared) : CText :=
  match api with
  | .pkgNew | .tdrRun => cgwApiPayloadPkgNew shared.gCtx.curManifest
  | .pkgStat | .tdrStat => cgwApiPayloadDefault

/-- What an event does to its connection, when the connection can have it. -/
def Connection.after (conn : Connection) : CgwEvent → Option Connection
  | .connect failed =>
      if conn.phase = .connecting then
        some
          { conn with
            phase := if failed then .failed else .connected
            closeImmediately := failed }
      else none
  | .reply _ => if conn.phase = .connected then some { conn with replied := true } else none
  | .close => if conn.phase = .closed then none else some { conn with phase := .closed }

def logConnect (shared : Shared) (api : Api) : CgwEvent → Shared
  | .connect _ => shared.log (.connected api)
  | _ => shared

/-- An event of the thread's connection, handled inside `mg_mgr_poll`. -/
def deliver (shared : Shared) (self : Nat) (thread : CgwMsgThread) (event : CgwEvent) :
    Option Done :=
  match thread.conn.after event with
  | none => none
  | some conn =>
      match thread.api.fn (logConnect shared thread.api event) self thread.upgrade event with
      | .error _ => none
      | .ok handled =>
          let conn :=
            { conn with
              closeImmediately := conn.closeImmediately || handled.flagged
              raised := conn.raised || handled.raised }
          some ⟨handled.shared, .cgw { thread with conn := conn }, handled.started⟩

def cgwStep (shared : Shared) (self : Nat) (thread : CgwMsgThread) (act : Act) :
    Option Done :=
  let goto (shared : Shared) (pc : CgwPc) : Option Done :=
    some ⟨shared, .cgw { thread with pc := pc }, []⟩
  match thread.pc, act with
  | .start, .tick =>
      let payload := thread.api.payloadGener shared
      some
        ⟨shared.log (.requested thread.api shared.upgrade),
          .cgw { thread with pc := .test, postData := payload }, []⟩
  | .test, .tick =>
      if shared.exit thread.api then goto shared .reset else goto shared (.waiting 1)
  | .waiting t, .tick =>
      if stillWaits shared t then goto shared (.waiting (t + 100)) else goto shared .lock
  | .lock, .tick =>
      some
        ⟨shared.setLock (some self),
          .cgw
            { thread with
              pc := .polling
              conn := { thread.conn with due := thread.conn.closeImmediately } }, []⟩
  | .polling, .connection event => deliver shared self thread event
  -- a connection flagged before this poll has been closed in it
  | .polling, .tick =>
      if thread.conn.due = true ∧ thread.conn.phase ≠ .closed then none
      else goto (shared.setLock none) .test
  | .reset, .tick => goto (shared.setExit thread.api false) .freeing
  | .freeing, .connection event => deliver shared self thread event
  | .freeing, .tick => if thread.conn.phase = .closed then goto shared .done else none
  | _, _ => none

/-! ### Downloader and uploader -/

def downloaderCommand (shared : Shared) : CText :=
  text "curl --output /share/wpc.1.0.0" ++ text " " ++
    shared.gCtx.pkgUrl.read shared.gCtx.curManifest

def vdcmCommands : List CText :=
  [text "curl --output /share/mcu_SH0105A2T1.hex http://hhfota-q.bosch-mobility-solutions.cn" ++
      text "/cdn/fota/v1/VDCM/package/1.0/mcu_SH0105A2T1.hex",
    text "curl --output /share/xcu8.0_kernel_v1.1.2.bins http://hhfota-q.bosch-mobility-" ++
      text "solutions.cn/cdn/fota/v1/VDCM/package/1.0/xcu8.0_kernel_v1.1.2.bins",
    text "curl --output /share/xcu8.0_rootfs_hh.bin.zip http://hhfota-q.bosch-mobility-" ++
      text "solutions.cn/cdn/fota/v1/VDCM/package/1.0/xcu8.0_rootfs_hh.bin.zip"]

def downloadCommands (shared : Shared) : List CText :=
  if shared.gCtx.curManifest.devId = text "WPC" then [downloaderCommand shared]
  else vdcmCommands

def openCommand (shared : Shared) (self : Nat) (thread : DmcDownloaderThread)
    (commands : List CText) (succeeds : Bool) : Option Done :=
  match commands with
  | [] => none
  | _ :: rest =>
      if succeeds then
        some
          ⟨shared.log
              (.downloadStarted thread.package self thread.exits.length rest.length),
            .downloader
              { thread with pc := .reading rest, exits := thread.exits ++ [none] }, []⟩
      else some ⟨shared, .downloader { thread with pc := .done }, []⟩

def downloaderStep (shared : Shared) (self : Nat) (thread : DmcDownloaderThread) (act : Act) :
    Option Done :=
  let goto (shared : Shared) (pc : DownloaderPc) : Option Done :=
    some ⟨shared, .downloader { thread with pc := pc }, []⟩
  match thread.pc, act with
  | .start, .popen succeeds =>
      openCommand shared self { thread with package := shared.upgrade }
        (downloadCommands shared) succeeds
  | .reading rest, .popen succeeds => openCommand shared self thread rest succeeds
  | .reading [], .eof => goto shared .lock
  | .lock, .tick => goto (shared.setLock (some self)) .report
  -- `pclose` waits for the last command
  | .report, .tick =>
      match thread.exits.getLast? with
      | some (some 0) =>
          let called := coreStateHandler shared .dlcPkgReady thread.upgrade
          some ⟨called.shared, .downloader { thread with pc := .unlock }, called.started⟩
      | some (some _) => goto shared .unlock
      | _ => none
  | .unlock, .tick => goto (shared.setLock none) .done
  | _, .exit command status =>
      if thread.exits[command]? = some none then
        some
          ⟨shared.log (.downloadExited self command status),
            .downloader { thread with exits := thread.exits.set command (some status) }, []⟩
      else none
  | _, _ => none

def uploaderStep (shared : Shared) (self : Nat) (thread : CgwPkgUploadThread) (act : Act) :
    Option Done :=
  let goto (shared : Shared) (pc : UploaderPc) : Option Done :=
    some ⟨shared, .uploader { thread with pc := pc }, []⟩
  match thread.pc, act with
  -- after a `popen` that fails the thread reads from a NULL stream
  | .start, .popen true => goto (shared.log (.uploadStarted shared.upgrade self)) .reading
  | .reading, .eof => goto shared .lock
  | .lock, .tick => goto (shared.setLock (some self)) .set
  | .set, .tick => goto ((shared.setStat .orchPkgReady).log .uploaded) .unlock
  | .unlock, .tick => goto (shared.setLock none) .done
  | .start, _ => none
  | _, .exit 0 status =>
      if thread.exit = none then
        some
          ⟨shared.log (.uploadExited self status),
            .uploader { thread with exit := some status }, []⟩
      else none
  | _, _ => none

/-! ### The program -/

def perform (shared : Shared) (self : Nat) (thread : Thread) (act : Act) : Option Done :=
  if shared.exited then none
  else
    match thread with
    | .main pc => mainStep shared self pc act
    | .hmi pc => hmiStep shared self pc act
    | .monitor pc => monitorStep shared pc act
    | .cgw thread => cgwStep shared self thread act
    | .downloader thread => downloaderStep shared self thread act
    | .uploader thread => uploaderStep shared self thread act

abbrev State := Pool Shared Thread

/-- A thread by its index, and what it does or what happens to it. -/
abbrev Move := Nat × Act

/-- The program with further request threads that may begin at any time. -/
def systemWith (requests : List Api) : Machine State Move where
  initial :=
    { shared := .init
      threads := .main .test :: requests.map (fun api => .cgwStart api 0) }
  step := Pool.step perform

/-- The program as it starts. -/
def system : Machine State Move :=
  systemWith []

/-! ### Stretches of runs

In a run from the start the main loop is thread 0; a DMC that connects brings
the HMI thread 1 and the monitor 2, and the first manifest the downloader 3. -/

/-- The DMC connects and sends a manifest, in one round of the main loop. -/
def manifestArrives (root : CJson) : List Move :=
  [(0, .tick), (0, .tick), (0, .dmcAccept 0), (0, .tick), (0, .dmcManifest root), (0, .tick),
    (0, .tick)]

/-- A downloader with one command that ends with `status`. -/
def downloads (index status : Nat) : List Move :=
  [(index, .popen true), (index, .eof), (index, .exit 0 status), (index, .tick),
    (index, .tick), (index, .tick)]

def begins (index : Nat) : List Move :=
  [(index, .tick)]

/-- One round of a request thread's loop, with the events of its poll. -/
def polls (index : Nat) (events : List CgwEvent) : List Move :=
  [(index, .tick), (index, .tick), (index, .tick)] ++
    events.map (fun event => (index, .connection event)) ++ [(index, .tick)]

/-- A request thread leaves its loop; `mg_mgr_free` delivers the events. -/
def leaves (index : Nat) (events : List CgwEvent) : List Move :=
  [(index, .tick), (index, .tick)] ++
    events.map (fun event => (index, .connection event)) ++ [(index, .tick)]

/-- An upload command that ends with `status`. -/
def uploads (index status : Nat) : List Move :=
  [(index, .popen true), (index, .eof), (index, .exit 0 status), (index, .tick),
    (index, .tick), (index, .tick)]

/-- From the start to the end of the upload of a first WPC package, by the
request thread 4 and the uploader 5. -/
def packageReady : List Move :=
  manifestArrives StubManifest.mani.root ++ downloads 3 0 ++ begins 4 ++
    polls 4 [.connect false] ++ polls 4 [.reply ⟨[], none⟩] ++ uploads 5 0

def hmiConnects : List Move :=
  [(1, .tick), (1, .hmiAccept 0)]

def hmiRequest (funcId : Int) : CJson :=
  .node .object none 0 none
    [.node .number none funcId (some (text "func-id")) [],
      .node .string (some (text "1")) 0 (some (text "uuid")) []]

/-- A START_UPGRADE that finds the package ready and the lock clear. -/
def startUpgrades : List Move :=
  [(1, .hmiRecv (some (hmiRequest startUpgrade))), (1, .tick), (1, .tick), (1, .tick),
    (1, .tick)]

/-- A request thread whose flag is set resets it, and stays before the last
poll. -/
def resets (index : Nat) : List Move :=
  [(index, .tick), (index, .tick)]

/-- A status reply with this `result`. -/
def statusReply (result : List CJson) : CgwEvent :=
  .reply
    { text := []
      json := some (.node .object none 0 none
        [.node .object none 0 (some (text "result")) result]) }

def progressMember (percent : Int) : CJson :=
  .node .number none percent (some (text "progress_percent")) []

def statusMember (status : CText) : CJson :=
  .node .string (some status) 0 (some (text "status")) []

/-- From the start to the first status request of a first upgrade, by the
/tdr/run thread 6 and the /tdr/stat thread 7. -/
def upgradeRuns : List Move :=
  packageReady ++ resets 4 ++ hmiConnects ++ startUpgrades ++ begins 6 ++
    polls 6 [.connect false] ++ begins 7 ++ polls 7 [.connect false]

end DlcServer
