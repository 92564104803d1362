/-
What a step does to the strings kept from received messages, to the pointers to
the two peers, and to the messages that have gone out to them.

Most steps touch none of these.  `Dealing` has a constructor for each step that
does, and one for all the others, which are told apart by the thread and what
happens to it.
-/

import DlcServer.Steps

namespace DlcServer

open Library

/-! ### What a step may touch -/

structure Kept where
  uuid : CText
  hmiPkgInfo : BsPkgInfo
  hmiUpgradeStat : BsEcuUpgradeStat
  curManifest : BsL1Manifest
  pkgUrl : PkgUrl

def Shared.kept (shared : Shared) : Kept :=
  { uuid := shared.uuid
    hmiPkgInfo := shared.gCtx.hmiPkgInfo
    hmiUpgradeStat := shared.gCtx.hmiUpgradeStat
    curManifest := shared.gCtx.curManifest
    pkgUrl := shared.gCtx.pkgUrl }

/-- The pointer of `g_ctx` to the connection of a peer. -/
def Shared.peer (shared : Shared) : Peer → Option Nat
  | .dmc => shared.gCtx.dmc
  | .hmi => shared.gCtx.hmi

/-- Whom messages have gone out to, the last one first. -/
def sends : List Event → List Peer
  | [] => []
  | .sent peer _ :: past => peer :: sends past
  | _ :: past => sends past

/-- Strings, pointers and messages are as they were. -/
structure Untouched (before after : Shared) : Prop where
  kept : after.kept = before.kept
  peer : after.peer = before.peer
  sends : sends after.past = sends before.past

theorem Untouched.refl (shared : Shared) : Untouched shared shared :=
  ⟨rfl, rfl, rfl⟩

theorem Untouched.trans {first second third : Shared} (earlier : Untouched first second)
    (later : Untouched second third) : Untouched first third :=
  ⟨later.kept.trans earlier.kept, later.peer.trans earlier.peer,
    later.sends.trans earlier.sends⟩

section Setters

variable (shared : Shared) (api : Api)

private theorem untouched_setStat (stat : Stat) : Untouched shared (shared.setStat stat) :=
  ⟨rfl, rfl, rfl⟩

private theorem untouched_setLock (lock : Option Nat) : Untouched shared (shared.setLock lock) :=
  ⟨rfl, rfl, rfl⟩

private theorem untouched_setExit (value : Bool) : Untouched shared (shared.setExit api value) :=
  ⟨rfl, rfl, rfl⟩

private theorem untouched_setNc (nc : Option Nat) : Untouched shared (shared.setNc api nc) :=
  ⟨rfl, rfl, rfl⟩

private theorem untouched_log (event : Event) (silent : ∀ peer bytes, event ≠ .sent peer bytes) :
    Untouched shared (shared.log event) := by
  refine ⟨rfl, rfl, ?_⟩
  cases event with
  | sent peer bytes => exact absurd rfl (silent peer bytes)
  | _ => rfl

private theorem untouched_coreEnter (reset : Stat) : Untouched shared (coreEnter shared reset) := by
  unfold coreEnter
  split
  · exact untouched_log _ _ (by simp)
  · exact (untouched_setStat shared reset).trans (untouched_log _ _ (by simp))

private theorem untouched_coreStateHandler (reset : Stat) (caller : Nat) :
    Untouched shared (coreStateHandler shared reset caller).shared := by
  have entered := untouched_coreEnter shared reset
  have starts (api : Api) : Untouched shared (startCgw (coreEnter shared reset) api caller).shared :=
    entered.trans (untouched_log _ _ (by simp))
  unfold coreStateHandler
  dsimp only
  split
  · exact entered.trans (untouched_setStat _ _)
  · exact starts .pkgNew
  · split
    · exact starts .pkgStat
    · exact entered
  · exact starts .tdrRun
  · exact starts .tdrStat
  · exact entered

end Setters

/-! ### Messages -/

theorem hmiPayloadParser_traffic {shared after : Shared} {root : CJson}
    {started : Option Nat} (done : hmiPayloadParser shared (some root) = .ok (after, started)) :
    ∃ uuid code, hmiScan root.child shared.uuid 0 = .ok (uuid, code) ∧
      after.kept = { shared.kept with uuid := uuid } ∧ after.peer = shared.peer ∧
      ((code = some upgradeProgress ∨ code = some checkNewPackage) ∧
          shared.peer .hmi ≠ none ∧ sends after.past = .hmi :: sends shared.past ∨
        ¬ (code = some upgradeProgress ∨ code = some checkNewPackage) ∧
          sends after.past = sends shared.past) := by
  obtain ⟨uuid, code, scans, ⟨start, _, response, rfl⟩ |
    ⟨asks, there, _, response, bytes, rfl⟩ | ⟨other, _, rfl⟩⟩ := hmiPayloadParser_cases done
  · refine ⟨uuid, code, scans, rfl, rfl, .inr ⟨?_, rfl⟩⟩
    rw [start]
    decide
  · exact ⟨uuid, code, scans, rfl, rfl, .inl ⟨asks, there, rfl⟩⟩
  · exact ⟨uuid, code, scans, rfl, rfl, .inr ⟨other, rfl⟩⟩

theorem tdrStatReport_traffic {shared reported : Shared} {result : CJson} {verdict : Stat}
    (done : tdrStatReport shared result = .ok (reported, verdict)) :
    ∃ stat number,
      hmiRespUpgradeStatUpdate shared.gCtx.hmiUpgradeStat result = .ok (stat, number) ∧
        reported.kept = { shared.kept with hmiUpgradeStat := stat } ∧
        reported.peer = shared.peer ∧
        (number = 0 ∧ shared.peer .hmi ≠ none ∧
            sends reported.past = .hmi :: sends shared.past ∨
          number ≠ 0 ∧ sends reported.past = sends shared.past) := by
  obtain ⟨stat, number, updates, ⟨busy, _, there, response, bytes, rfl⟩ | ⟨settled, rfl⟩⟩ :=
    tdrStatReport_cases done
  · exact ⟨stat, number, updates, rfl, rfl, .inl ⟨busy, there, rfl⟩⟩
  · exact ⟨stat, number, updates, rfl, rfl, .inr ⟨by omega, rfl⟩⟩

/-! ### Steps -/

/-- The step touches strings, pointers or messages, or might. -/
def Thread.Deals : Thread → Act → Prop
  | _, .dmcAccept _ | _, .dmcManifest _ | _, .hmiAccept _ | _, .hmiRecv _
  | _, .statusReport _ | .main (.accepting _), .tick | .hmi (.unlock _), .tick => True
  | .cgw thread, .connection (.reply _) => thread.api = .tdrStat
  | _, _ => False

inductive Dealing (shared : Shared) : Thread → Act → Shared → Prop
  | idle (thread : Thread) (act : Act) (after : Shared) (idle : ¬ thread.Deals act)
      (untouched : Untouched shared after) : Dealing shared thread act after
  | dmcAccepts (nc : Nat) :
      Dealing shared (.main .polling) (.dmcAccept nc)
        { shared with gCtx := { shared.gCtx with dmc := some nc } }
  | announces (nc : Nat) (bytes : List UInt8) :
      Dealing shared (.main (.accepting nc)) .tick (shared.log (.sent .dmc bytes))
  | manifest (root : CJson) (after : Shared) (parsed : ParsedManifest)
      (parses : dmcMsgParse shared.gCtx.curManifest shared.gCtx.pkgUrl (some root) = .ok parsed)
      (kept : after.kept =
        { shared.kept with curManifest := parsed.curManifest, pkgUrl := parsed.pkgUrl })
      (peer : after.peer = shared.peer) (silent : sends after.past = sends shared.past) :
      Dealing shared (.main .polling) (.dmcManifest root) after
  | hmiAccepts (nc : Nat) :
      Dealing shared (.hmi .serving) (.hmiAccept nc)
        { shared with gCtx := { shared.gCtx with hmi := some nc } }
  | requested (root : Option CJson) (after : Shared) (started : Option Nat) (nc : Nat)
      (there : shared.gCtx.hmi = some nc)
      (parses : hmiPayloadParser shared root = .ok (after, started)) :
      Dealing shared (.hmi .serving) (.hmiRecv root) after
  | confirms (request : StartRequest) (bytes : List UInt8) (there : shared.gCtx.hmi ≠ none) :
      Dealing shared (.hmi (.unlock request)) .tick
        ((shared.setLock none).log (.sent .hmi bytes))
  | dropsStatus (body : CText) (absent : shared.gCtx.dmc = none) :
      Dealing shared (.monitor .serving) (.statusReport body) shared
  | passesStatus (body : CText) (nc : Nat) (bytes : List UInt8)
      (there : shared.gCtx.dmc = some nc) :
      Dealing shared (.monitor .serving) (.statusReport body) (shared.log (.sent .dmc bytes))
  | repliedBadly (thread : CgwMsgThread) (body : Body) (status : thread.api = .tdrStat)
      (bad : body.result = none) :
      Dealing shared (.cgw thread) (.connection (.reply body)) shared
  | reported (thread : CgwMsgThread) (body : Body) (result : CJson) (reported after : Shared)
      (verdict : Stat) (status : thread.api = .tdrStat) (carried : body.result = some result)
      (settled : tdrStatReport (shared.setExit .tdrStat true) result =
        .ok (reported, verdict))
      (untouched : Untouched reported after) :
      Dealing shared (.cgw thread) (.connection (.reply body)) after

theorem Dealing.of_mainStep {shared : Shared} {self : Nat} {pc : MainPc} {act : Act}
    {done : Done} (taken : mainStep shared self pc act = some done) :
    Dealing shared (.main pc) act done.shared := by
  unfold mainStep at taken
  split at taken
  · split at taken
    all_goals
      cases taken
      exact .idle _ _ _ id (.refl shared)
  · cases taken
    exact .idle _ _ _ id (untouched_setLock _ _)
  · cases taken
    exact .dmcAccepts _
  · cases taken
    exact .announces _ _
  · rename_i root
    split at taken
    · contradiction
    · obtain ⟨effect, accepted, same⟩ := Option.map_eq_some_iff.mp taken
      cases same
      unfold acceptManifest at accepted
      split at accepted
      · contradiction
      · rename_i parsed parses
        split at accepted
        · cases accepted
          exact .manifest root _ parsed parses rfl rfl rfl
        · contradiction
  · cases taken
    exact .idle _ _ _ id (untouched_setStat _ _)
  · cases taken
    exact .idle _ _ _ id (untouched_setLock _ _)
  · contradiction

theorem Dealing.of_hmiStep {shared : Shared} {self : Nat} {pc : HmiPc} {act : Act} {done : Done}
    (taken : hmiStep shared self pc act = some done) :
    Dealing shared (.hmi pc) act done.shared := by
  unfold hmiStep at taken
  split at taken
  · split at taken
    all_goals
      cases taken
      exact .idle _ _ _ id ⟨rfl, rfl, rfl⟩
  · cases taken
    exact .hmiAccepts _
  · split at taken
    · contradiction
    · rename_i nc there
      split at taken
      · contradiction
      all_goals
        rename_i parses
        cases taken
        exact .requested _ _ _ nc there parses
  · split at taken
    all_goals
      cases taken
      exact .idle _ _ _ id (.refl shared)
  · cases taken
    exact .idle _ _ _ id (untouched_setLock _ _)
  · cases taken
    exact .idle _ _ _ id (untouched_coreStateHandler _ _ _)
  · split at taken
    · contradiction
    · rename_i delivered
      cases taken
      obtain ⟨there, rfl⟩ := mgSend_eq delivered
      exact .confirms _ _ there
  · contradiction

theorem Dealing.of_monitorStep {shared : Shared} {pc : MonitorPc} {act : Act} {done : Done}
    (taken : monitorStep shared pc act = some done) :
    Dealing shared (.monitor pc) act done.shared := by
  unfold monitorStep at taken
  split at taken
  · split at taken
    all_goals
      cases taken
      exact .idle _ _ _ id ⟨rfl, rfl, rfl⟩
  · dsimp only at taken
    split at taken
    · split at taken
      · rename_i absent
        cases taken
        exact .dropsStatus _ absent
      · rename_i nc there
        cases taken
        exact .passesStatus _ nc _ there
    · contradiction
  · contradiction

/-- The handlers touch nothing but for a status report. -/
theorem Handling.untouched {shared : Shared} {self caller : Nat} {api : Api} {event : CgwEvent}
    {handled : Handled} (handling : Handling shared self caller api event handled)
    (other : ∀ body, event = .reply body → api ≠ .tdrStat) : Untouched shared handled.shared := by
  cases handling with
  | closed api => exact (untouched_setNc _ _ _).trans (untouched_setExit _ _ _)
  | pkgNewConnects failed => exact (untouched_setNc _ _ _).trans (untouched_setStat _ _)
  | pkgNewForeign body foreign => exact (untouched_setStat _ _).trans (untouched_setExit _ _ _)
  | pkgNewUploads body wpc => exact (untouched_setStat _ _).trans (untouched_setExit _ _ _)
  | pkgStatFails => exact (untouched_setStat _ _).trans (untouched_setExit _ _ _)
  | pkgStatConnects => exact (untouched_setNc _ _ _).trans (untouched_setStat _ _)
  | pkgStatReady body ready => exact untouched_setExit _ _ _
  | pkgStatDownloading body busy => exact untouched_setStat _ _
  | tdrRunConnects failed => exact (untouched_setNc _ _ _).trans (untouched_coreStateHandler _ _ _)
  | tdrRunReplied body => exact .refl shared
  | tdrStatFails =>
      exact ((untouched_setNc _ _ _).trans (untouched_setStat _ _)).trans (untouched_setExit _ _ _)
  | tdrStatConnects => exact (untouched_setNc _ _ _).trans (untouched_setStat _ _)
  | tdrStatBadJson body bad => exact absurd rfl (other body rfl)
  | tdrStatReports body result reported verdict carried settled =>
      exact absurd rfl (other body rfl)

private theorem untouched_logConnect (shared : Shared) (api : Api) (event : CgwEvent) :
    Untouched shared (logConnect shared api event) := by
  cases event with
  | connect failed => exact untouched_log _ _ (by simp)
  | reply body => exact .refl shared
  | close => exact .refl shared

theorem Dealing.of_deliver {shared : Shared} {self : Nat} {thread : CgwMsgThread}
    {event : CgwEvent} {done : Done} (taken : deliver shared self thread event = some done) :
    Dealing shared (.cgw thread) (.connection event) done.shared := by
  unfold deliver at taken
  split at taken
  · contradiction
  · split at taken
    · contradiction
    · rename_i handled ok
      cases taken
      have handling := Handling.of_fn ok
      by_cases deals : (Thread.cgw thread).Deals (.connection event)
      · cases event with
        | connect failed => exact deals.elim
        | close => exact deals.elim
        | reply body =>
            have status : thread.api = .tdrStat := deals
            simp only [logConnect] at handling
            rw [status] at handling
            cases handling with
            | tdrStatBadJson _ bad => exact .repliedBadly thread body status bad
            | tdrStatReports _ result reported verdict carried settled =>
                exact .reported thread body result reported _ verdict status carried settled
                  (untouched_coreStateHandler _ _ _)
      · refine .idle _ _ _ deals ((untouched_logConnect _ _ _).trans (handling.untouched ?_))
        rintro body rfl status
        exact deals status

theorem Dealing.of_cgwStep {shared : Shared} {self : Nat} {thread : CgwMsgThread} {act : Act}
    {done : Done} (taken : cgwStep shared self thread act = some done) :
    Dealing shared (.cgw thread) act done.shared := by
  unfold cgwStep at taken
  dsimp only at taken
  split at taken
  · cases taken
    exact .idle _ _ _ id (untouched_log _ _ (by simp))
  · split at taken
    all_goals
      cases taken
      exact .idle _ _ _ id (.refl shared)
  · split at taken
    all_goals
      cases taken
      exact .idle _ _ _ id (.refl shared)
  · cases taken
    exact .idle _ _ _ id (untouched_setLock _ _)
  · exact .of_deliver taken
  · split at taken
    · contradiction
    · cases taken
      exact .idle _ _ _ id (untouched_setLock _ _)
  · cases taken
    exact .idle _ _ _ id (untouched_setExit _ _ _)
  · exact .of_deliver taken
  · split at taken
    · cases taken
      exact .idle _ _ _ id (.refl shared)
    · contradiction
  · contradiction

private theorem Dealing.of_downloader {shared : Shared} {self : Nat} {thread : DmcDownloaderThread}
    {act : Act} {done : Done} (step : Step shared self (.downloader thread) act done) :
    Dealing shared (.downloader thread) act done.shared := by
  cases step with
  | downloaderStarts _ here rest => exact .idle _ _ _ id (untouched_log _ _ (by simp))
  | downloaderContinues _ command rest here => exact .idle _ _ _ id (untouched_log _ _ (by simp))
  | downloaderFails _ package here => exact .idle _ _ _ id (.refl shared)
  | downloaderReads _ here => exact .idle _ _ _ id (.refl shared)
  | downloaderLocks _ here => exact .idle _ _ _ id (untouched_setLock _ _)
  | downloaderReports _ here succeeded => exact .idle _ _ _ id (untouched_coreStateHandler _ _ _)
  | downloaderGivesUp _ here failed => exact .idle _ _ _ id (.refl shared)
  | downloaderUnlocks _ here => exact .idle _ _ _ id (untouched_setLock _ _)
  | downloadExits _ command status running => exact .idle _ _ _ id (untouched_log _ _ (by simp))

private theorem Dealing.of_uploader {shared : Shared} {self : Nat} {thread : CgwPkgUploadThread}
    {act : Act} {done : Done} (step : Step shared self (.uploader thread) act done) :
    Dealing shared (.uploader thread) act done.shared := by
  cases step with
  | uploaderStarts _ here => exact .idle _ _ _ id (untouched_log _ _ (by simp))
  | uploaderReads _ here => exact .idle _ _ _ id (.refl shared)
  | uploaderLocks _ here => exact .idle _ _ _ id (untouched_setLock _ _)
  | uploaderSets _ here =>
      exact .idle _ _ _ id ((untouched_setStat _ _).trans (untouched_log _ _ (by simp)))
  | uploaderUnlocks _ here => exact .idle _ _ _ id (untouched_setLock _ _)
  | uploadExits _ status here running => exact .idle _ _ _ id (untouched_log _ _ (by simp))

theorem Dealing.of_perform {shared : Shared} {self : Nat} {thread : Thread} {act : Act}
    {done : Done} (taken : perform shared self thread act = some done) :
    Dealing shared thread act done.shared := by
  have step := Step.of_perform taken
  unfold perform at taken
  split at taken
  · contradiction
  · cases thread with
    | main pc => exact .of_mainStep taken
    | hmi pc => exact .of_hmiStep taken
    | monitor pc => exact .of_monitorStep taken
    | cgw thread => exact .of_cgwStep taken
    | downloader thread => exact .of_downloader step
    | uploader thread => exact .of_uploader step

/-! ### Connections -/

/-- The connection an event is the accept of, with its port. -/
def Act.accepts : Act → Option (Peer × Nat)
  | .dmcAccept nc => some (.dmc, nc)
  | .hmiAccept nc => some (.hmi, nc)
  | _ => none

/-- The pointers after this accept. -/
def pointTo (pointers : Peer → Option Nat) : Option (Peer × Nat) → Peer → Option Nat
  | none => pointers
  | some (peer, nc) => Function.update pointers peer (some nc)

/-- A pointer to a peer changes with an accepted connection and with nothing
else. -/
theorem Dealing.peer {shared after : Shared} {thread : Thread} {act : Act}
    (dealing : Dealing shared thread act after) :
    after.peer = pointTo shared.peer act.accepts := by
  cases dealing with
  | idle _ _ _ idle untouched =>
      cases act with
      | dmcAccept nc => exact absurd trivial idle
      | hmiAccept nc => exact absurd trivial idle
      | _ => exact untouched.peer
  | dmcAccepts nc =>
      funext peer
      cases peer <;> rfl
  | hmiAccepts nc =>
      funext peer
      cases peer <;> rfl
  | manifest root _ parsed parses kept peer silent => exact peer
  | requested root _ started nc there parses =>
      cases root with
      | none =>
          cases parses
          rfl
      | some tree =>
          obtain ⟨_, _, _, _, peer, _⟩ := hmiPayloadParser_traffic parses
          exact peer
  | reported _ body result reported _ verdict status carried settled untouched =>
      obtain ⟨_, _, _, _, peer, _⟩ := tdrStatReport_traffic settled
      exact untouched.peer.trans peer
  | _ => rfl

end DlcServer
