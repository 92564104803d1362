/-
The data the program keeps: the package and upgrade records shown to the HMI,
the current manifest, and the states of the core state machine.

The arrays of these records hold NUL-terminated strings; a field is the string
in its array.  `capacity` constants are the array sizes, terminator included.
-/

import DlcServer.CJson

namespace DlcServer

open Library

/-! ### Core state machine -/

inductive Stat
  | statInvalid
  | statIdle
  | dlcPkgNew
  | dlcPkgDownloading
  | dlcPkgReady
  | dlcPkgBad
  | orchConErr
  | orchPkgDownloading
  | orchPkgReady
  | orchPkgBad
  | orchTdrRun
  | orchTdrFail
  | orchTdrSucc
  deriving DecidableEq, Repr

/-! ### HMI records -/

structure BsPkgInfo where
  doorModule : CText
  devId : CText
  softId : CText
  releaseNotes : CText

structure BsEcuUpgradeStat where
  devId : CText
  softId : CText
  estiTime : CText
  startTime : CText
  timeStamp : CText
  doorModule : CText
  status : CText
  -- a `float` in the source; it only ever receives integers
  progressPercent : Int

def devIdCapacity : Nat := 32
def softIdCapacity : Nat := 32
def doorModuleCapacity : Nat := 8
def estiTimeCapacity : Nat := 64
def startTimeCapacity : Nat := 32
def timeStampCapacity : Nat := 32
def statusCapacity : Nat := 15
def pkgCdnUrlCapacity : Nat := 128
def uuidCapacity : Nat := 64

/-- `init_hmi_objs`. -/
def initHmiPkgInfo : BsPkgInfo :=
  { doorModule := text "no"
    devId := text "xxx"
    softId := text "wpc.1.0.0.0"
    releaseNotes := text "N/A" }

def initHmiUpgradeStat : BsEcuUpgradeStat :=
  { devId := text "xxx"
    softId := text "wpc.1.0.0.0"
    estiTime := text "00:00:00 01-01-1900"
    startTime := text "00:00:00 01-01-1900"
    timeStamp := text "00:00:00 01-01-1900"
    doorModule := text "no"
    status := text "in progress"
    progressPercent := 0 }

/-! ### Manifest -/

structure BsL1Manifest where
  devId : CText
  pkgCdnUrl : CText

/-- What `g_ctx.pkg_url` points at: a literal, or the URL array of
`cur_manifest`, whose later contents it then sees. -/
inductive PkgUrl
  | literal (url : CText)
  | curManifest

def PkgUrl.read (pointer : PkgUrl) (manifest : BsL1Manifest) : CText :=
  match pointer with
  | .literal url => url
  | .curManifest => manifest.pkgCdnUrl

end DlcServer
