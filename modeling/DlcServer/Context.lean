/-
The memory the threads of the program share, and the threads themselves.

`Shared` is what every thread reads and writes.  Its last two fields are not the
program's: `upgrade` counts the manifests accepted so far, and `past` is the
list of what has happened, newest first, that statements about runs refer to.
Threads carry the number of the upgrade they were started for in the same way.
The members of `g_ctx` that are never assigned after `init_context` appear where
they are used: both thread exit flags are 0 for good.
-/

import DlcServer.Manifest
import DlcServer.Messages
import Mathlib.Tactic.Simps.Basic

namespace DlcServer

open Library

/-! ### Shared memory -/

inductive Api
  | pkgNew
  | pkgStat
  | tdrRun
  | tdrStat
  deriving DecidableEq, Repr

structure BsCgwApiHandler where
  cgwThreadExit : Bool
  -- the connection of the thread with this index
  nc : Option Nat

structure BsContext where
  dmc : Option Nat
  hmi : Option Nat
  cgwApi : Api → BsCgwApiHandler
  hmiPkgInfo : BsPkgInfo
  hmiUpgradeStat : BsEcuUpgradeStat
  pkgUrl : PkgUrl
  curManifest : BsL1Manifest

inductive Peer
  | dmc
  | hmi
  deriving DecidableEq, Repr

inductive Event
  | accepted
  /-- `core_state_handler` was entered. -/
  | core (reset : Stat)
  | started (api : Api)
  /-- A request went out whose payload named the package of this upgrade. -/
  | requested (api : Api) (package : Nat)
  | connected (api : Api)
  /-- `left` commands were still to come. -/
  | downloadStarted (package thread command left : Nat)
  | downloadExited (thread command status : Nat)
  | uploadStarted (package thread : Nat)
  | uploadExited (thread status : Nat)
  | uploaded
  | sent (peer : Peer) (bytes : List UInt8)
  deriving DecidableEq

/-- The calls of `core_state_handler` so far, newest first. -/
def coreCalls : List Event → List Stat
  | [] => []
  | .core reset :: past => reset :: coreCalls past
  | _ :: past => coreCalls past

structure Shared where
  gStat : Stat
  -- the thread that wrote the 1 that is there
  gStatLock : Option Nat
  gCtx : BsContext
  -- `uuid` and `response` of `hmi_payload_parser`, `response` of `cgw_handler_tdr_stat`
  uuid : CText
  hmiResponse : OutBuf
  tdrResponse : OutBuf
  -- ports 3001 and 8019 are taken
  hmiBound : Bool
  monitorBound : Bool
  exited : Bool
  upgrade : Nat
  past : List Event

/-- `init_context`, and the static variables. -/
def Shared.init : Shared where
  gStat := .statIdle
  gStatLock := none
  gCtx :=
    { dmc := none
      hmi := none
      cgwApi := fun _ => { cgwThreadExit := false, nc := none }
      hmiPkgInfo := initHmiPkgInfo
      hmiUpgradeStat := initHmiUpgradeStat
      pkgUrl := .literal (text "ftp://speedtest.tele2.net/1KB.zip")
      curManifest := { devId := [], pkgCdnUrl := [] } }
  uuid := []
  hmiResponse := { mem := fun _ => 0, top := 0 }
  tdrResponse := { mem := fun _ => 0, top := 0 }
  hmiBound := false
  monitorBound := false
  exited := false
  upgrade := 0
  past := []

namespace Shared

@[simps]
def log (shared : Shared) (event : Event) : Shared :=
  { shared with past := event :: shared.past }

@[simps]
def setStat (shared : Shared) (stat : Stat) : Shared :=
  { shared with gStat := stat }

@[simps]
def setLock (shared : Shared) (lock : Option Nat) : Shared :=
  { shared with gStatLock := lock }

def exit (shared : Shared) (api : Api) : Bool :=
  (shared.gCtx.cgwApi api).cgwThreadExit

def nc (shared : Shared) (api : Api) : Option Nat :=
  (shared.gCtx.cgwApi api).nc

@[simps]
def setHandler (shared : Shared) (api : Api) (handler : BsCgwApiHandler) : Shared :=
  { shared with
    gCtx :=
      { shared.gCtx with
        cgwApi := fun other => if other = api then handler else shared.gCtx.cgwApi other } }

def setExit (shared : Shared) (api : Api) (value : Bool) : Shared :=
  shared.setHandler api { shared.gCtx.cgwApi api with cgwThreadExit := value }

def setNc (shared : Shared) (api : Api) (nc : Option Nat) : Shared :=
  shared.setHandler api { shared.gCtx.cgwApi api with nc := nc }

section Fields

variable (shared : Shared) (api other : Api)

@[simp] theorem setExit_gStat (value : Bool) : (shared.setExit api value).gStat = shared.gStat :=
  rfl

@[simp] theorem setExit_gStatLock (value : Bool) :
    (shared.setExit api value).gStatLock = shared.gStatLock :=
  rfl

@[simp] theorem setExit_upgrade (value : Bool) :
    (shared.setExit api value).upgrade = shared.upgrade :=
  rfl

@[simp] theorem setExit_past (value : Bool) : (shared.setExit api value).past = shared.past :=
  rfl

@[simp] theorem setExit_hmiBound (value : Bool) :
    (shared.setExit api value).hmiBound = shared.hmiBound :=
  rfl

@[simp] theorem setNc_gStat (nc : Option Nat) : (shared.setNc api nc).gStat = shared.gStat :=
  rfl

@[simp] theorem setNc_gStatLock (nc : Option Nat) :
    (shared.setNc api nc).gStatLock = shared.gStatLock :=
  rfl

@[simp] theorem setNc_upgrade (nc : Option Nat) :
    (shared.setNc api nc).upgrade = shared.upgrade :=
  rfl

@[simp] theorem setNc_past (nc : Option Nat) : (shared.setNc api nc).past = shared.past :=
  rfl

@[simp] theorem setNc_hmiBound (nc : Option Nat) :
    (shared.setNc api nc).hmiBound = shared.hmiBound :=
  rfl

@[simp] theorem exit_log (event : Event) : (shared.log event).exit other = shared.exit other :=
  rfl

@[simp] theorem exit_setStat (stat : Stat) : (shared.setStat stat).exit other = shared.exit other :=
  rfl

@[simp] theorem exit_setLock (lock : Option Nat) :
    (shared.setLock lock).exit other = shared.exit other :=
  rfl

@[simp] theorem exit_setExit (value : Bool) :
    (shared.setExit api value).exit other = if other = api then value else shared.exit other := by
  unfold exit setExit setHandler
  by_cases same : other = api
  · simp [same]
  · simp [same]

@[simp] theorem exit_setNc (nc : Option Nat) :
    (shared.setNc api nc).exit other = shared.exit other := by
  unfold exit setNc setHandler
  by_cases same : other = api
  · simp [same]
  · simp [same]

end Fields

end Shared

/-! ### Threads -/

/-- `main`; `accepting` is the pause of the handler before the inventory goes
out, `newPkg` stands between the start of a downloader and the state
DLC_PKG_DOWNLOADING. -/
inductive MainPc
  | test
  | set
  | polling
  | accepting (nc : Nat)
  | newPkg
  deriving DecidableEq, Repr

/-- What START_UPGRADE has in hand: the length of the answer, and the upgrade
that was ready when it was tested. -/
structure StartRequest where
  respLen : Nat
  upgrade : Nat
  deriving DecidableEq, Repr

/-- `hmi_thread`; `deaf` is one whose port was taken. -/
inductive HmiPc
  | start
  | serving
  | deaf
  | waiting (t : Nat) (request : StartRequest)
  | lock (request : StartRequest)
  | acting (request : StartRequest)
  | unlock (request : StartRequest)
  deriving DecidableEq, Repr

inductive MonitorPc
  | start
  | serving
  deriving DecidableEq, Repr

inductive Phase
  | connecting
  | connected
  | failed
  | closed
  deriving DecidableEq, Repr

/-- The connection of a request.  `closeImmediately` is MG_F_CLOSE_IMMEDIATELY,
and `due` says that it was set before the poll under way; `raised` says that one
of its events has set `cgw_thread_exit`. -/
structure Connection where
  phase : Phase
  closeImmediately : Bool
  due : Bool
  replied : Bool
  raised : Bool
  deriving DecidableEq, Repr

def Connection.fresh : Connection :=
  { phase := .connecting
    closeImmediately := false
    due := false
    replied := false
    raised := false }

/-- The connection has seen its reply, its close or its failed connect. -/
def Connection.Ended (conn : Connection) : Prop :=
  conn.replied = true ∨ conn.phase = .failed ∨ conn.phase = .closed

instance (conn : Connection) : Decidable conn.Ended :=
  inferInstanceAs (Decidable (_ ∨ _ ∨ _))

/-- `cgw_msg_thread`; `freeing` is `mg_mgr_free`. -/
inductive CgwPc
  | start
  | test
  | waiting (t : Nat)
  | lock
  | polling
  | reset
  | freeing
  | done
  deriving DecidableEq, Repr

structure CgwMsgThread where
  api : Api
  upgrade : Nat
  pc : CgwPc
  conn : Connection
  postData : CText

/-- `dmc_downloader_thread`; `reading` holds the commands still to be run. -/
inductive DownloaderPc
  | start
  | reading (rest : List CText)
  | lock
  | report
  | unlock
  | done
  deriving DecidableEq, Repr

/-- `exits` has an entry for each command started, and in it the exit status
once there is one. -/
structure DmcDownloaderThread where
  upgrade : Nat
  package : Nat
  pc : DownloaderPc
  exits : List (Option Nat)
  deriving DecidableEq

inductive UploaderPc
  | start
  | reading
  | lock
  | set
  | unlock
  | done
  deriving DecidableEq, Repr

structure CgwPkgUploadThread where
  upgrade : Nat
  pc : UploaderPc
  exit : Option Nat
  deriving DecidableEq

inductive Thread
  | main (pc : MainPc)
  | hmi (pc : HmiPc)
  | monitor (pc : MonitorPc)
  | cgw (thread : CgwMsgThread)
  | downloader (thread : DmcDownloaderThread)
  | uploader (thread : CgwPkgUploadThread)

/-- The thread serves a request of which `holds`. -/
def Thread.Serves (holds : CgwMsgThread → Prop) : Thread → Prop
  | .cgw thread => holds thread
  | _ => False

instance (holds : CgwMsgThread → Prop) [DecidablePred holds] :
    DecidablePred (Thread.Serves holds)
  | .cgw thread => inferInstanceAs (Decidable (holds thread))
  | .main _ | .hmi _ | .monitor _ | .downloader _ | .uploader _ =>
      inferInstanceAs (Decidable False)

/-! ### Starting threads -/

/-- `mg_start_thread(cgw_msg_thread, &g_ctx.cgw_api_...)`. -/
def Thread.cgwStart (api : Api) (upgrade : Nat) : Thread :=
  .cgw { api := api, upgrade := upgrade, pc := .start, conn := .fresh, postData := [] }

def Thread.downloaderStart (upgrade : Nat) : Thread :=
  .downloader { upgrade := upgrade, package := upgrade, pc := .start, exits := [] }

def Thread.uploaderStart (upgrade : Nat) : Thread :=
  .uploader { upgrade := upgrade, pc := .start, exit := none }

end DlcServer
