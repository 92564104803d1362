/-
What a step of the program can do.

`Handling` has a constructor for each way an event handler can go, `Step` one
for each way a thread can go on.  Every statement about steps is proved from
these and unfolds no step function.
-/

import DlcServer.Threads

namespace DlcServer

open Library

/-! ### Code that leaves the control state alone -/

/-- Nothing but messages and the data behind them has changed. -/
structure Keeps (before after : Shared) : Prop where
  gStat : after.gStat = before.gStat
  gStatLock : after.gStatLock = before.gStatLock
  cgwApi : after.gCtx.cgwApi = before.gCtx.cgwApi
  curManifest : after.gCtx.curManifest = before.gCtx.curManifest
  hmiBound : after.hmiBound = before.hmiBound
  upgrade : after.upgrade = before.upgrade
  past : after.past = before.past ∨
    ∃ peer bytes, after.past = .sent peer bytes :: before.past

theorem Keeps.refl (shared : Shared) : Keeps shared shared :=
  ⟨rfl, rfl, rfl, rfl, rfl, rfl, .inl rfl⟩

theorem Keeps.coreCalls {before after : Shared} (keeps : Keeps before after) :
    coreCalls after.past = coreCalls before.past := by
  rcases keeps.past with same | ⟨peer, bytes, sent⟩
  · rw [same]
  · rw [sent]
    rfl

theorem mgSend_eq {shared sent : Shared} {peer : Peer} {nc : Option Nat} {bytes : List UInt8}
    (done : mgSend shared peer nc bytes = .ok sent) :
    nc ≠ none ∧ sent = shared.log (.sent peer bytes) := by
  cases nc with
  | none => contradiction
  | some connection =>
      cases done
      exact ⟨Option.some_ne_none connection, rfl⟩

private theorem hmiAnswer_eq {shared answered : Shared} {written : Writer} {scratch respLen : Nat}
    (done : hmiAnswer shared written scratch = .ok (answered, respLen)) :
    ∃ response, answered = { shared with hmiResponse := response } := by
  obtain ⟨⟨response, _⟩, _, rest⟩ := bind_eq_ok done
  exact ⟨response, (Prod.mk.inj (Except.ok.inj rest)).1.symm⟩

private theorem hmiAnswerNow_eq {shared after : Shared} {written : Writer} {scratch : Nat}
    {started : Option Nat}
    (done : hmiAnswerNow shared written scratch = .ok (after, started)) :
    shared.gCtx.hmi ≠ none ∧ started = none ∧ ∃ response bytes,
      after = { shared with hmiResponse := response }.log (.sent .hmi bytes) := by
  obtain ⟨⟨answered, respLen⟩, answers, delivery⟩ := bind_eq_ok done
  obtain ⟨sent, delivered, returned⟩ := bind_eq_ok delivery
  obtain ⟨rfl, rfl⟩ := Prod.mk.inj (Except.ok.inj returned)
  obtain ⟨response, rfl⟩ := hmiAnswer_eq answers
  obtain ⟨there, rfl⟩ := mgSend_eq delivered
  exact ⟨there, rfl, response, _, rfl⟩

/-- A request is a START_UPGRADE, whose answer waits; or it is answered at once;
or it is of another kind. -/
theorem hmiPayloadParser_cases {shared after : Shared} {root : CJson} {started : Option Nat}
    (done : hmiPayloadParser shared (some root) = .ok (after, started)) :
    ∃ uuid code, hmiScan root.child shared.uuid 0 = .ok (uuid, code) ∧
      ((code = some startUpgrade ∧ (started ≠ none → shared.gStat = .orchPkgReady) ∧
          ∃ response, after = { shared with uuid := uuid, hmiResponse := response }) ∨
        ((code = some upgradeProgress ∨ code = some checkNewPackage) ∧
          shared.gCtx.hmi ≠ none ∧ started = none ∧ ∃ response bytes,
            after = { shared with uuid := uuid, hmiResponse := response }.log
              (.sent .hmi bytes)) ∨
        (¬ (code = some upgradeProgress ∨ code = some checkNewPackage) ∧ started = none ∧
          after = { shared with uuid := uuid })) := by
  obtain ⟨⟨uuid, code⟩, scans, rest⟩ := bind_eq_ok done
  refine ⟨uuid, code, scans, ?_⟩
  dsimp only at rest
  by_cases start : code = some startUpgrade
  · rw [if_pos start] at rest
    obtain ⟨⟨answered, respLen⟩, answers, returned⟩ := bind_eq_ok rest
    obtain ⟨rfl, rfl⟩ := Prod.mk.inj (Except.ok.inj returned)
    obtain ⟨response, rfl⟩ := hmiAnswer_eq answers
    refine .inl ⟨start, ?_, response, rfl⟩
    intro passed
    by_contra other
    exact passed (if_neg other)
  · rw [if_neg start] at rest
    by_cases progress : code = some upgradeProgress
    · rw [if_pos progress] at rest
      exact .inr (.inl ⟨.inl progress, hmiAnswerNow_eq rest⟩)
    · rw [if_neg progress] at rest
      by_cases check : code = some checkNewPackage
      · rw [if_pos check] at rest
        exact .inr (.inl ⟨.inr check, hmiAnswerNow_eq rest⟩)
      · rw [if_neg check] at rest
        obtain ⟨rfl, rfl⟩ := Prod.mk.inj (Except.ok.inj rest)
        exact .inr (.inr ⟨not_or.mpr ⟨progress, check⟩, rfl, rfl⟩)

private theorem hmiPayloadParser_keeps {shared after : Shared} {root : Option CJson}
    {started : Option Nat} (done : hmiPayloadParser shared root = .ok (after, started)) :
    Keeps shared after ∧
      (started ≠ none → shared.gStat = .orchPkgReady ∧ isStartUpgrade shared root = true) := by
  cases root with
  | none =>
      obtain ⟨rfl, rfl⟩ := Prod.mk.inj (Except.ok.inj done)
      exact ⟨.refl shared, fun some_ => absurd rfl some_⟩
  | some root =>
      obtain ⟨uuid, code, scans, ⟨start, ready, response, rfl⟩ |
        ⟨_, _, rfl, response, bytes, rfl⟩ | ⟨_, rfl, rfl⟩⟩ := hmiPayloadParser_cases done
      · refine ⟨⟨rfl, rfl, rfl, rfl, rfl, rfl, .inl rfl⟩, ?_⟩
        intro passed
        exact ⟨ready passed, by simp [isStartUpgrade, scans, start]⟩
      · exact ⟨⟨rfl, rfl, rfl, rfl, rfl, rfl, .inr ⟨_, bytes, rfl⟩⟩,
          fun some_ => absurd rfl some_⟩
      · exact ⟨⟨rfl, rfl, rfl, rfl, rfl, rfl, .inl rfl⟩, fun some_ => absurd rfl some_⟩

/-- A report updates the record; one of an upgrade in progress is told to the
HMI. -/
theorem tdrStatReport_cases {shared reported : Shared} {result : CJson} {verdict : Stat}
    (done : tdrStatReport shared result = .ok (reported, verdict)) :
    ∃ stat number,
      hmiRespUpgradeStatUpdate shared.gCtx.hmiUpgradeStat result = .ok (stat, number) ∧
        ((number = 0 ∧ verdict = .orchTdrRun ∧ shared.gCtx.hmi ≠ none ∧ ∃ response bytes,
            reported =
              { shared with
                gCtx := { shared.gCtx with hmiUpgradeStat := stat }
                tdrResponse := response }.log (.sent .hmi bytes)) ∨
          (number < 0 ∧ verdict = .orchTdrFail ∨ 0 < number ∧ verdict = .orchTdrSucc) ∧
            reported = { shared with gCtx := { shared.gCtx with hmiUpgradeStat := stat } }) := by
  obtain ⟨⟨stat, number⟩, updates, rest⟩ := bind_eq_ok done
  refine ⟨stat, number, updates, ?_⟩
  dsimp only at rest
  by_cases failed : number < 0
  · rw [if_pos failed] at rest
    obtain ⟨rfl, rfl⟩ := Prod.mk.inj (Except.ok.inj rest)
    exact .inr ⟨.inl ⟨failed, rfl⟩, rfl⟩
  · rw [if_neg failed] at rest
    by_cases busy : number = 0
    · rw [if_pos busy] at rest
      obtain ⟨sent, progresses, returned⟩ := bind_eq_ok rest
      obtain ⟨rfl, rfl⟩ := Prod.mk.inj (Except.ok.inj returned)
      obtain ⟨⟨response, respLen⟩, _, delivered⟩ := bind_eq_ok progresses
      obtain ⟨there, rfl⟩ := mgSend_eq delivered
      exact .inl ⟨busy, rfl, there, response, _, rfl⟩
    · rw [if_neg busy] at rest
      obtain ⟨rfl, rfl⟩ := Prod.mk.inj (Except.ok.inj rest)
      exact .inr ⟨.inr ⟨by omega, rfl⟩, rfl⟩

theorem tdrStatReport_keeps {shared reported : Shared} {result : CJson} {verdict : Stat}
    (done : tdrStatReport shared result = .ok (reported, verdict)) :
    ∃ stat number,
      hmiRespUpgradeStatUpdate shared.gCtx.hmiUpgradeStat result = .ok (stat, number) ∧
        Keeps shared reported ∧
        (number < 0 ∧ verdict = .orchTdrFail ∨ number = 0 ∧ verdict = .orchTdrRun ∨
          0 < number ∧ verdict = .orchTdrSucc) := by
  obtain ⟨stat, number, updates, ⟨busy, run, _, response, bytes, rfl⟩ | ⟨settled, rfl⟩⟩ :=
    tdrStatReport_cases done
  · exact ⟨stat, number, updates, ⟨rfl, rfl, rfl, rfl, rfl, rfl, .inr ⟨_, bytes, rfl⟩⟩,
      .inr (.inl ⟨busy, run⟩)⟩
  · refine ⟨stat, number, updates, ⟨rfl, rfl, rfl, rfl, rfl, rfl, .inl rfl⟩, ?_⟩
    rcases settled with failed | succeeded
    · exact .inl failed
    · exact .inr (.inr succeeded)

/-! ### Accepting a manifest -/

/-- What is left when a manifest has been accepted and its downloader started. -/
structure Accepts (before : Shared) (effect : Effect) : Prop where
  gStat : effect.shared.gStat = .dlcPkgNew
  gStatLock : effect.shared.gStatLock = before.gStatLock
  cgwApi : effect.shared.gCtx.cgwApi = before.gCtx.cgwApi
  hmiBound : effect.shared.hmiBound = before.hmiBound
  upgrade : effect.shared.upgrade = before.upgrade + 1
  past : effect.shared.past = .core .dlcPkgNew :: .accepted :: before.past
  started : effect.started = [.downloaderStart (before.upgrade + 1)]

private theorem acceptManifest_accepts {shared : Shared} {root : CJson} {effect : Effect}
    (accepted : acceptManifest shared root = some effect) : Accepts shared effect := by
  unfold acceptManifest at accepted
  split at accepted
  · contradiction
  · split at accepted
    · cases accepted
      exact ⟨rfl, rfl, rfl, rfl, rfl, rfl, rfl⟩
    · contradiction

/-! ### Event handlers -/

inductive Handling (shared : Shared) (self caller : Nat) : Api → CgwEvent → Handled → Prop
  | closed (api : Api) :
      Handling shared self caller api .close (cgwClosed shared api)
  | pkgNewConnects (failed : Bool) :
      Handling shared self caller .pkgNew (.connect failed)
        ⟨(shared.setNc .pkgNew (some self)).setStat .orchPkgDownloading, [], false, false⟩
  | pkgNewForeign (body : Body) (foreign : shared.gCtx.curManifest.devId ≠ text "WPC") :
      Handling shared self caller .pkgNew (.reply body)
        ⟨(shared.setStat .orchTdrRun).setExit .pkgNew true, [], true, true⟩
  | pkgNewUploads (body : Body) (wpc : shared.gCtx.curManifest.devId = text "WPC") :
      Handling shared self caller .pkgNew (.reply body)
        ⟨(shared.setStat .orchPkgDownloading).setExit .pkgNew true,
          [.uploaderStart caller], true, true⟩
  | pkgStatFails :
      Handling shared self caller .pkgStat (.connect true)
        ⟨(shared.setStat .orchPkgBad).setExit .pkgStat true, [], false, true⟩
  | pkgStatConnects :
      Handling shared self caller .pkgStat (.connect false)
        ⟨(shared.setNc .pkgStat (some self)).setStat .orchPkgDownloading, [], false, false⟩
  | pkgStatReady (body : Body) (ready : body.text.contains (text "succ") = true) :
      Handling shared self caller .pkgStat (.reply body)
        ⟨shared.setExit .pkgStat true, [], true, true⟩
  | pkgStatDownloading (body : Body) (busy : body.text.contains (text "succ") = false) :
      Handling shared self caller .pkgStat (.reply body)
        ⟨shared.setStat .orchPkgDownloading, [], false, false⟩
  | tdrRunConnects (failed : Bool) :
      Handling shared self caller .tdrRun (.connect failed)
        ⟨(coreStateHandler (shared.setNc .tdrRun (some self)) .orchTdrRun caller).shared,
          (coreStateHandler (shared.setNc .tdrRun (some self)) .orchTdrRun caller).started,
          false, false⟩
  | tdrRunReplied (body : Body) :
      Handling shared self caller .tdrRun (.reply body) ⟨shared, [], false, false⟩
  | tdrStatFails :
      Handling shared self caller .tdrStat (.connect true)
        ⟨((shared.setNc .tdrStat (some self)).setStat .orchConErr).setExit .tdrStat true,
          [], false, true⟩
  | tdrStatConnects :
      Handling shared self caller .tdrStat (.connect false)
        ⟨(shared.setNc .tdrStat (some self)).setStat .orchTdrRun, [], false, false⟩
  | tdrStatBadJson (body : Body) (bad : body.result = none) :
      Handling shared self caller .tdrStat (.reply body) ⟨shared, [], false, false⟩
  | tdrStatReports (body : Body) (result : CJson) (reported : Shared) (verdict : Stat)
      (carried : body.result = some result)
      (settled : tdrStatReport (shared.setExit .tdrStat true) result =
        .ok (reported, verdict)) :
      Handling shared self caller .tdrStat (.reply body)
        ⟨(coreStateHandler reported verdict caller).shared,
          (coreStateHandler reported verdict caller).started, true, true⟩

theorem Handling.of_fn {shared : Shared} {self caller : Nat} {api : Api} {event : CgwEvent}
    {handled : Handled} (ok : api.fn shared self caller event = .ok handled) :
    Handling shared self caller api event handled := by
  cases api with
  | pkgNew =>
      cases event with
      | connect failed =>
          cases ok
          exact .pkgNewConnects failed
      | reply body =>
          simp only [Api.fn, cgwHandlerPkgNew] at ok
          split at ok
          · rename_i foreign
            cases ok
            exact .pkgNewForeign body foreign
          · rename_i wpc
            cases ok
            exact .pkgNewUploads body (Decidable.not_not.mp wpc)
      | close =>
          cases ok
          exact .closed _
  | pkgStat =>
      cases event with
      | connect failed =>
          cases failed with
          | true =>
              cases ok
              exact .pkgStatFails
          | false =>
              cases ok
              exact .pkgStatConnects
      | reply body =>
          simp only [Api.fn, cgwHandlerPkgStat] at ok
          split at ok
          · rename_i ready
            cases ok
            exact .pkgStatReady body ready
          · rename_i busy
            cases ok
            exact .pkgStatDownloading body (Bool.eq_false_iff.mpr busy)
      | close =>
          cases ok
          exact .closed _
  | tdrRun =>
      cases event with
      | connect failed =>
          cases ok
          exact .tdrRunConnects failed
      | reply body =>
          simp only [Api.fn, cgwHandlerTdrRun] at ok
          split at ok
          · contradiction
          · split at ok
            · contradiction
            · cases ok
              exact .tdrRunReplied body
      | close =>
          cases ok
          exact .closed _
  | tdrStat =>
      cases event with
      | connect failed =>
          cases failed with
          | true =>
              cases ok
              exact .tdrStatFails
          | false =>
              cases ok
              exact .tdrStatConnects
      | reply body =>
          simp only [Api.fn, cgwHandlerTdrStat] at ok
          split at ok
          · rename_i bad
            cases ok
            exact .tdrStatBadJson body bad
          · rename_i result carried
            split at ok
            · contradiction
            · rename_i reported verdict settled
              cases ok
              exact .tdrStatReports body result reported verdict carried settled
      | close =>
          cases ok
          exact .closed _

/-- What no event handler writes to. -/
structure Frame (before after : Shared) : Prop where
  gStatLock : after.gStatLock = before.gStatLock
  hmiBound : after.hmiBound = before.hmiBound
  upgrade : after.upgrade = before.upgrade

private theorem coreStateHandler_frame (shared : Shared) (reset : Stat) (caller : Nat) :
    Frame shared (coreStateHandler shared reset caller).shared := by
  have entered : Frame shared (coreEnter shared reset) := by
    unfold coreEnter
    split
    all_goals exact ⟨rfl, rfl, rfl⟩
  unfold coreStateHandler
  dsimp only
  split
  · exact ⟨entered.gStatLock, entered.hmiBound, entered.upgrade⟩
  · exact ⟨entered.gStatLock, entered.hmiBound, entered.upgrade⟩
  · split
    all_goals exact ⟨entered.gStatLock, entered.hmiBound, entered.upgrade⟩
  · exact ⟨entered.gStatLock, entered.hmiBound, entered.upgrade⟩
  · exact ⟨entered.gStatLock, entered.hmiBound, entered.upgrade⟩
  · exact entered

theorem logConnect_frame (shared : Shared) (api : Api) (event : CgwEvent) :
    Frame shared (logConnect shared api event) := by
  cases event
  all_goals exact ⟨rfl, rfl, rfl⟩

theorem Handling.frame {shared : Shared} {self caller : Nat} {api : Api} {event : CgwEvent}
    {handled : Handled} (handling : Handling shared self caller api event handled) :
    Frame shared handled.shared := by
  cases handling with
  | tdrStatReports body result reported verdict carried settled =>
      obtain ⟨_, _, _, keeps, _⟩ := tdrStatReport_keeps settled
      have called := coreStateHandler_frame reported verdict caller
      exact ⟨called.gStatLock.trans keeps.gStatLock, called.hmiBound.trans keeps.hmiBound,
        called.upgrade.trans keeps.upgrade⟩
  | _ => exact ⟨rfl, rfl, rfl⟩

/-- The handlers start uploaders and status requests. -/
theorem Handling.started_cases {shared : Shared} {self caller : Nat} {api : Api}
    {event : CgwEvent} {handled : Handled}
    (handling : Handling shared self caller api event handled) {found : Thread}
    (fresh : found ∈ handled.started) :
    (api = .pkgNew ∧ found = .uploaderStart caller) ∨
      (api = .tdrRun ∨ api = .tdrStat) ∧ found = .cgwStart .tdrStat caller := by
  cases handling with
  | pkgNewUploads body wpc => exact .inl ⟨rfl, List.mem_singleton.mp fresh⟩
  | tdrRunConnects failed => exact .inr ⟨.inl rfl, List.mem_singleton.mp fresh⟩
  | tdrStatReports body result reported verdict carried settled =>
      obtain ⟨_, _, _, _, verdicts⟩ := tdrStatReport_keeps settled
      rcases verdicts with ⟨_, rfl⟩ | ⟨_, rfl⟩ | ⟨_, rfl⟩
      · cases fresh
      · exact .inr ⟨.inr rfl, List.mem_singleton.mp fresh⟩
      · cases fresh
  | _ => cases fresh

/-! ### Connections -/

theorem Connection.after_connect {conn next : Connection} {failed : Bool}
    (had : conn.after (.connect failed) = some next) :
    conn.phase = .connecting ∧
      next = { conn with
        phase := if failed then .failed else .connected
        closeImmediately := failed } := by
  simp only [Connection.after] at had
  split at had
  · rename_i connecting
    cases had
    exact ⟨connecting, rfl⟩
  · contradiction

theorem Connection.after_reply {conn next : Connection} {body : Body}
    (had : conn.after (.reply body) = some next) :
    conn.phase = .connected ∧ next = { conn with replied := true } := by
  simp only [Connection.after] at had
  split at had
  · rename_i connected
    cases had
    exact ⟨connected, rfl⟩
  · contradiction

theorem Connection.after_close {conn next : Connection}
    (had : conn.after .close = some next) :
    conn.phase ≠ .closed ∧ next = { conn with phase := .closed } := by
  simp only [Connection.after] at had
  split at had
  · contradiction
  · rename_i opened
    cases had
    exact ⟨opened, rfl⟩

/-! ### Steps -/

inductive Step (shared : Shared) (self : Nat) : Thread → Act → Done → Prop
  | mainBusy (held : shared.gStatLock ≠ none) :
      Step shared self (.main .test) .tick ⟨shared, .main .test, []⟩
  | mainFree (free : shared.gStatLock = none) :
      Step shared self (.main .test) .tick ⟨shared, .main .set, []⟩
  | mainLocks :
      Step shared self (.main .set) .tick ⟨shared.setLock (some self), .main .polling, []⟩
  | mainAccepts (nc : Nat) (after : Shared) (keeps : Keeps shared after) :
      Step shared self (.main .polling) (.dmcAccept nc)
        ⟨after, .main (.accepting nc), [.hmi .start]⟩
  | mainAnnounces (nc : Nat) (after : Shared) (keeps : Keeps shared after) :
      Step shared self (.main (.accepting nc)) .tick
        ⟨after, .main .polling, [.monitor .start]⟩
  | mainManifest (root : CJson) (effect : Effect) (accepts : Accepts shared effect) :
      Step shared self (.main .polling) (.dmcManifest root)
        ⟨effect.shared, .main .newPkg, effect.started⟩
  | mainDownloading :
      Step shared self (.main .newPkg) .tick
        ⟨shared.setStat .dlcPkgDownloading, .main .polling, []⟩
  | mainUnlocks :
      Step shared self (.main .polling) .tick ⟨shared.setLock none, .main .test, []⟩
  | hmiDeaf (taken : shared.hmiBound = true) :
      Step shared self (.hmi .start) .tick ⟨shared, .hmi .deaf, []⟩
  | hmiBinds (free : shared.hmiBound = false) :
      Step shared self (.hmi .start) .tick
        ⟨{ shared with hmiBound := true }, .hmi .serving, []⟩
  | hmiServes (act : Act) (after : Shared) (keeps : Keeps shared after) :
      Step shared self (.hmi .serving) act ⟨after, .hmi .serving, []⟩
  | hmiStarts (root : Option CJson) (after : Shared) (respLen : Nat)
      (keeps : Keeps shared after) (ready : shared.gStat = .orchPkgReady)
      (start : isStartUpgrade shared root = true) :
      Step shared self (.hmi .serving) (.hmiRecv root)
        ⟨after, .hmi (.waiting 1 ⟨respLen, shared.upgrade⟩), []⟩
  | hmiWaits (t : Nat) (request : StartRequest) :
      Step shared self (.hmi (.waiting t request)) .tick
        ⟨shared, .hmi (.waiting (t + 100) request), []⟩
  | hmiAwaited (t : Nat) (request : StartRequest) :
      Step shared self (.hmi (.waiting t request)) .tick ⟨shared, .hmi (.lock request), []⟩
  | hmiLocks (request : StartRequest) :
      Step shared self (.hmi (.lock request)) .tick
        ⟨shared.setLock (some self), .hmi (.acting request), []⟩
  | hmiActs (request : StartRequest) :
      Step shared self (.hmi (.acting request)) .tick
        ⟨(coreStateHandler shared .orchPkgReady request.upgrade).shared,
          .hmi (.unlock request),
          (coreStateHandler shared .orchPkgReady request.upgrade).started⟩
  | hmiUnlocks (request : StartRequest) (after : Shared)
      (keeps : Keeps (shared.setLock none) after) :
      Step shared self (.hmi (.unlock request)) .tick ⟨after, .hmi .serving, []⟩
  | monitorExits :
      Step shared self (.monitor .start) .tick
        ⟨{ shared with exited := true }, .monitor .start, []⟩
  | monitorBinds :
      Step shared self (.monitor .start) .tick
        ⟨{ shared with monitorBound := true }, .monitor .serving, []⟩
  | monitorServes (act : Act) (after : Shared) (keeps : Keeps shared after) :
      Step shared self (.monitor .serving) act ⟨after, .monitor .serving, []⟩
  | cgwRequests (thread : CgwMsgThread) (here : thread.pc = .start) (payload : CText) :
      Step shared self (.cgw thread) .tick
        ⟨shared.log (.requested thread.api shared.upgrade),
          .cgw { thread with pc := .test, postData := payload }, []⟩
  | cgwLeaves (thread : CgwMsgThread) (here : thread.pc = .test)
      (raised : shared.exit thread.api = true) :
      Step shared self (.cgw thread) .tick
        ⟨shared, .cgw { thread with pc := .reset }, []⟩
  | cgwStays (thread : CgwMsgThread) (here : thread.pc = .test)
      (lowered : shared.exit thread.api = false) :
      Step shared self (.cgw thread) .tick
        ⟨shared, .cgw { thread with pc := .waiting 1 }, []⟩
  | cgwWaits (thread : CgwMsgThread) (t : Nat) (here : thread.pc = .waiting t) :
      Step shared self (.cgw thread) .tick
        ⟨shared, .cgw { thread with pc := .waiting (t + 100) }, []⟩
  | cgwAwaited (thread : CgwMsgThread) (t : Nat) (here : thread.pc = .waiting t) :
      Step shared self (.cgw thread) .tick
        ⟨shared, .cgw { thread with pc := .lock }, []⟩
  | cgwLocks (thread : CgwMsgThread) (here : thread.pc = .lock) :
      Step shared self (.cgw thread) .tick
        ⟨shared.setLock (some self),
          .cgw
            { thread with
              pc := .polling
              conn := { thread.conn with due := thread.conn.closeImmediately } }, []⟩
  | cgwHandles (thread : CgwMsgThread) (here : thread.pc = .polling ∨ thread.pc = .freeing)
      (event : CgwEvent) (conn : Connection) (had : thread.conn.after event = some conn)
      (handled : Handled)
      (handling : Handling (logConnect shared thread.api event) self thread.upgrade
        thread.api event handled) :
      Step shared self (.cgw thread) (.connection event)
        ⟨handled.shared,
          .cgw
            { thread with
              conn :=
                { conn with
                  closeImmediately := conn.closeImmediately || handled.flagged
                  raised := conn.raised || handled.raised } },
          handled.started⟩
  | cgwUnlocks (thread : CgwMsgThread) (here : thread.pc = .polling)
      (closed : thread.conn.due = true → thread.conn.phase = .closed) :
      Step shared self (.cgw thread) .tick
        ⟨shared.setLock none, .cgw { thread with pc := .test }, []⟩
  | cgwResets (thread : CgwMsgThread) (here : thread.pc = .reset) :
      Step shared self (.cgw thread) .tick
        ⟨shared.setExit thread.api false, .cgw { thread with pc := .freeing }, []⟩
  | cgwFreed (thread : CgwMsgThread) (here : thread.pc = .freeing)
      (closed : thread.conn.phase = .closed) :
      Step shared self (.cgw thread) .tick
        ⟨shared, .cgw { thread with pc := .done }, []⟩
  | downloaderStarts (thread : DmcDownloaderThread) (here : thread.pc = .start)
      (rest : List CText) :
      Step shared self (.downloader thread) (.popen true)
        ⟨shared.log (.downloadStarted shared.upgrade self thread.exits.length rest.length),
          .downloader
            { thread with
              package := shared.upgrade
              pc := .reading rest
              exits := thread.exits ++ [none] }, []⟩
  | downloaderContinues (thread : DmcDownloaderThread) (command : CText) (rest : List CText)
      (here : thread.pc = .reading (command :: rest)) :
      Step shared self (.downloader thread) (.popen true)
        ⟨shared.log (.downloadStarted thread.package self thread.exits.length rest.length),
          .downloader
            { thread with pc := .reading rest, exits := thread.exits ++ [none] }, []⟩
  | downloaderFails (thread : DmcDownloaderThread) (package : Nat)
      (here : thread.pc = .start ∨
        (∃ rest, thread.pc = .reading rest) ∧ package = thread.package) :
      Step shared self (.downloader thread) (.popen false)
        ⟨shared, .downloader { thread with package := package, pc := .done }, []⟩
  | downloaderReads (thread : DmcDownloaderThread) (here : thread.pc = .reading []) :
      Step shared self (.downloader thread) .eof
        ⟨shared, .downloader { thread with pc := .lock }, []⟩
  | downloaderLocks (thread : DmcDownloaderThread) (here : thread.pc = .lock) :
      Step shared self (.downloader thread) .tick
        ⟨shared.setLock (some self), .downloader { thread with pc := .report }, []⟩
  | downloaderReports (thread : DmcDownloaderThread) (here : thread.pc = .report)
      (succeeded : thread.exits.getLast? = some (some 0)) :
      Step shared self (.downloader thread) .tick
        ⟨(coreStateHandler shared .dlcPkgReady thread.upgrade).shared,
          .downloader { thread with pc := .unlock },
          (coreStateHandler shared .dlcPkgReady thread.upgrade).started⟩
  | downloaderGivesUp (thread : DmcDownloaderThread) (here : thread.pc = .report)
      (failed : thread.exits.getLast? ≠ some (some 0)) :
      Step shared self (.downloader thread) .tick
        ⟨shared, .downloader { thread with pc := .unlock }, []⟩
  | downloaderUnlocks (thread : DmcDownloaderThread) (here : thread.pc = .unlock) :
      Step shared self (.downloader thread) .tick
        ⟨shared.setLock none, .downloader { thread with pc := .done }, []⟩
  | downloadExits (thread : DmcDownloaderThread) (command status : Nat)
      (running : thread.exits[command]? = some none) :
      Step shared self (.downloader thread) (.exit command status)
        ⟨shared.log (.downloadExited self command status),
          .downloader { thread with exits := thread.exits.set command (some status) }, []⟩
  | uploaderStarts (thread : CgwPkgUploadThread) (here : thread.pc = .start) :
      Step shared self (.uploader thread) (.popen true)
        ⟨shared.log (.uploadStarted shared.upgrade self),
          .uploader { thread with pc := .reading }, []⟩
  | uploaderReads (thread : CgwPkgUploadThread) (here : thread.pc = .reading) :
      Step shared self (.uploader thread) .eof
        ⟨shared, .uploader { thread with pc := .lock }, []⟩
  | uploaderLocks (thread : CgwPkgUploadThread) (here : thread.pc = .lock) :
      Step shared self (.uploader thread) .tick
        ⟨shared.setLock (some self), .uploader { thread with pc := .set }, []⟩
  | uploaderSets (thread : CgwPkgUploadThread) (here : thread.pc = .set) :
      Step shared self (.uploader thread) .tick
        ⟨(shared.setStat .orchPkgReady).log .uploaded,
          .uploader { thread with pc := .unlock }, []⟩
  | uploaderUnlocks (thread : CgwPkgUploadThread) (here : thread.pc = .unlock) :
      Step shared self (.uploader thread) .tick
        ⟨shared.setLock none, .uploader { thread with pc := .done }, []⟩
  | uploadExits (thread : CgwPkgUploadThread) (status : Nat) (here : thread.pc ≠ .start)
      (running : thread.exit = none) :
      Step shared self (.uploader thread) (.exit 0 status)
        ⟨shared.log (.uploadExited self status),
          .uploader { thread with exit := some status }, []⟩

theorem Step.of_mainStep {shared : Shared} {self : Nat} {pc : MainPc} {act : Act} {done : Done}
    (taken : mainStep shared self pc act = some done) :
    Step shared self (.main pc) act done := by
  unfold mainStep at taken
  split at taken
  · split at taken
    · rename_i holder held
      cases taken
      exact .mainBusy (by rw [held]; exact Option.some_ne_none holder)
    · rename_i free
      cases taken
      exact .mainFree free
  · cases taken
    exact .mainLocks
  · cases taken
    exact .mainAccepts _ _ ⟨rfl, rfl, rfl, rfl, rfl, rfl, .inl rfl⟩
  · cases taken
    exact .mainAnnounces _ _ ⟨rfl, rfl, rfl, rfl, rfl, rfl, .inr ⟨_, _, rfl⟩⟩
  · split at taken
    · contradiction
    · obtain ⟨effect, accepted, same⟩ := Option.map_eq_some_iff.mp taken
      cases same
      exact .mainManifest _ effect (acceptManifest_accepts accepted)
  · cases taken
    exact .mainDownloading
  · cases taken
    exact .mainUnlocks
  · contradiction

theorem Step.of_hmiStep {shared : Shared} {self : Nat} {pc : HmiPc} {act : Act} {done : Done}
    (taken : hmiStep shared self pc act = some done) :
    Step shared self (.hmi pc) act done := by
  unfold hmiStep at taken
  split at taken
  · split at taken
    · rename_i bound
      cases taken
      exact .hmiDeaf bound
    · rename_i free
      cases taken
      exact .hmiBinds (Bool.eq_false_iff.mpr free)
  · cases taken
    exact .hmiServes _ _ ⟨rfl, rfl, rfl, rfl, rfl, rfl, .inl rfl⟩
  · split at taken
    · contradiction
    · split at taken
      · contradiction
      · rename_i parses
        cases taken
        exact .hmiServes _ _ (hmiPayloadParser_keeps parses).1
      · rename_i parses
        obtain ⟨keeps, ready⟩ := hmiPayloadParser_keeps parses
        cases taken
        rw [keeps.upgrade]
        obtain ⟨atReady, start⟩ := ready (Option.some_ne_none _)
        exact .hmiStarts _ _ _ keeps atReady start
  · split at taken
    · cases taken
      exact .hmiWaits _ _
    · cases taken
      exact .hmiAwaited _ _
  · cases taken
    exact .hmiLocks _
  · cases taken
    exact .hmiActs _
  · split at taken
    · contradiction
    · rename_i sends
      cases taken
      obtain ⟨_, rfl⟩ := mgSend_eq sends
      exact .hmiUnlocks _ _ ⟨rfl, rfl, rfl, rfl, rfl, rfl, .inr ⟨_, _, rfl⟩⟩
  · contradiction

theorem Step.of_monitorStep {shared : Shared} {self : Nat} {pc : MonitorPc} {act : Act}
    {done : Done} (taken : monitorStep shared pc act = some done) :
    Step shared self (.monitor pc) act done := by
  unfold monitorStep at taken
  split at taken
  · split at taken
    · cases taken
      exact .monitorExits
    · cases taken
      exact .monitorBinds
  · dsimp only at taken
    split at taken
    · split at taken
      · cases taken
        exact .monitorServes _ _ (.refl shared)
      · cases taken
        exact .monitorServes _ _ ⟨rfl, rfl, rfl, rfl, rfl, rfl, .inr ⟨_, _, rfl⟩⟩
    · contradiction
  · contradiction

theorem Step.of_deliver {shared : Shared} {self : Nat} {thread : CgwMsgThread}
    {event : CgwEvent} {done : Done} (here : thread.pc = .polling ∨ thread.pc = .freeing)
    (taken : deliver shared self thread event = some done) :
    Step shared self (.cgw thread) (.connection event) done := by
  unfold deliver at taken
  split at taken
  · contradiction
  · rename_i conn had
    split at taken
    · contradiction
    · rename_i handled ok
      cases taken
      exact .cgwHandles thread here event conn had handled (.of_fn ok)

theorem Step.of_cgwStep {shared : Shared} {self : Nat} {thread : CgwMsgThread} {act : Act}
    {done : Done} (taken : cgwStep shared self thread act = some done) :
    Step shared self (.cgw thread) act done := by
  unfold cgwStep at taken
  dsimp only at taken
  split at taken
  · rename_i here
    cases taken
    exact .cgwRequests thread here _
  · rename_i here
    split at taken
    · rename_i raised
      cases taken
      exact .cgwLeaves thread here raised
    · rename_i lowered
      cases taken
      exact .cgwStays thread here (Bool.eq_false_iff.mpr lowered)
  · rename_i here
    split at taken
    · cases taken
      exact .cgwWaits thread _ here
    · cases taken
      exact .cgwAwaited thread _ here
  · rename_i here
    cases taken
    exact .cgwLocks thread here
  · rename_i here
    exact .of_deliver (.inl here) taken
  · rename_i here
    split at taken
    · contradiction
    · rename_i closed
      cases taken
      exact .cgwUnlocks thread here (fun due => by_contra fun open_ => closed ⟨due, open_⟩)
  · rename_i here
    cases taken
    exact .cgwResets thread here
  · rename_i here
    exact .of_deliver (.inr here) taken
  · rename_i here
    split at taken
    · rename_i closed
      cases taken
      exact .cgwFreed thread here closed
    · contradiction
  · contradiction

private theorem Step.of_downloaderStep {shared : Shared} {self : Nat} {thread : DmcDownloaderThread}
    {act : Act} {done : Done} (taken : downloaderStep shared self thread act = some done) :
    Step shared self (.downloader thread) act done := by
  unfold downloaderStep at taken
  dsimp only at taken
  split at taken
  · rename_i here
    unfold openCommand at taken
    split at taken
    · contradiction
    · split at taken
      · rename_i succeeds
        cases taken
        rw [succeeds]
        exact .downloaderStarts thread here _
      · rename_i fails
        cases taken
        rw [Bool.eq_false_iff.mpr fails]
        exact .downloaderFails thread _ (.inl here)
  · rename_i rest succeeds here
    unfold openCommand at taken
    split at taken
    · contradiction
    · split at taken
      · rename_i succeeds
        cases taken
        rw [succeeds]
        exact .downloaderContinues thread _ _ here
      · rename_i fails
        cases taken
        rw [Bool.eq_false_iff.mpr fails]
        exact .downloaderFails thread _ (.inr ⟨⟨_, here⟩, rfl⟩)
  · rename_i here
    cases taken
    exact .downloaderReads thread here
  · rename_i here
    cases taken
    exact .downloaderLocks thread here
  · rename_i here
    split at taken
    · rename_i succeeded
      cases taken
      exact .downloaderReports thread here succeeded
    · rename_i status other last
      cases taken
      refine .downloaderGivesUp thread here ?_
      rw [last]
      intro same
      exact other (Option.some.inj (Option.some.inj same))
    · contradiction
  · rename_i here
    cases taken
    exact .downloaderUnlocks thread here
  · split at taken
    · rename_i running
      cases taken
      exact .downloadExits thread _ _ running
    · contradiction
  · contradiction

private theorem Step.of_uploaderStep {shared : Shared} {self : Nat} {thread : CgwPkgUploadThread}
    {act : Act} {done : Done} (taken : uploaderStep shared self thread act = some done) :
    Step shared self (.uploader thread) act done := by
  unfold uploaderStep at taken
  dsimp only at taken
  split at taken
  · rename_i here
    cases taken
    exact .uploaderStarts thread here
  · rename_i here
    cases taken
    exact .uploaderReads thread here
  · rename_i here
    cases taken
    exact .uploaderLocks thread here
  · rename_i here
    cases taken
    exact .uploaderSets thread here
  · rename_i here
    cases taken
    exact .uploaderUnlocks thread here
  · contradiction
  · rename_i started
    split at taken
    · rename_i running
      cases taken
      exact .uploadExits thread _ started running
    · contradiction
  · contradiction

/-- Every step of the program is one of those listed. -/
theorem Step.of_perform {shared : Shared} {self : Nat} {thread : Thread} {act : Act}
    {done : Done} (taken : perform shared self thread act = some done) :
    Step shared self thread act done := by
  unfold perform at taken
  split at taken
  · contradiction
  · cases thread with
    | main pc => exact .of_mainStep taken
    | hmi pc => exact .of_hmiStep taken
    | monitor pc => exact .of_monitorStep taken
    | cgw thread => exact .of_cgwStep taken
    | downloader thread => exact .of_downloaderStep taken
    | uploader thread => exact .of_uploaderStep taken

theorem Step.of_move {requests : List Api} {before after : State} {move : Move}
    (taken : (systemWith requests).step before move = some after) :
    ∃ thread done, before.At move.1 thread ∧
      Step before.shared move.1 thread move.2 done ∧ after = before.apply move.1 done := by
  obtain ⟨thread, done, here, performed, same⟩ := Pool.step_eq_some taken
  exact ⟨thread, done, here, .of_perform performed, same⟩

/-- The same for a thread that is known to be the one that moves. -/
theorem Step.of_move_at {requests : List Api} {before after : State} {index : Nat} {act : Act}
    {thread : Thread} (taken : (systemWith requests).step before (index, act) = some after)
    (here : before.At index thread) :
    ∃ done, Step before.shared index thread act done ∧ after = before.apply index done := by
  rcases Step.of_move taken with ⟨other, done, there, step, same⟩
  have alike := here.unique there
  subst alike
  exact ⟨done, step, same⟩

/-- What runs at the start: the main loop and the request threads that may begin
at any time. -/
theorem initial_at {requests : List Api} {index : Nat} {thread : Thread}
    (there : (systemWith requests).initial.At index thread) :
    thread = .main .test ∨ ∃ api, thread = .cgwStart api 0 := by
  have member : thread ∈ (systemWith requests).initial.threads := List.mem_of_getElem? there
  simp only [systemWith, List.mem_cons, List.mem_map] at member
  rcases member with rfl | ⟨api, _, rfl⟩
  · exact .inl rfl
  · exact .inr ⟨api, rfl⟩

theorem system_initial_at {index : Nat} {thread : Thread}
    (there : system.initial.At index thread) : index = 0 ∧ thread = .main .test := by
  have bound := there.lt
  have first : index = 0 := Nat.lt_one_iff.mp bound
  subst first
  exact ⟨rfl, (Option.some.inj there).symm⟩

/-! ### The upgrade a thread works for -/

def Thread.tag : Thread → Nat
  | .hmi (.waiting _ request) | .hmi (.lock request) | .hmi (.acting request) =>
      request.upgrade
  | .cgw thread => thread.upgrade
  | .downloader thread => thread.upgrade
  | .uploader thread => thread.upgrade
  | _ => 0

theorem Handling.tags {shared : Shared} {self caller : Nat} {api : Api} {event : CgwEvent}
    {handled : Handled} (handling : Handling shared self caller api event handled)
    {found : Thread} (fresh : found ∈ handled.started) : found.tag = caller := by
  rcases handling.started_cases fresh with ⟨_, rfl⟩ | ⟨_, rfl⟩
  · rfl
  · rfl

theorem Step.tags {shared : Shared} {self : Nat} {thread : Thread} {act : Act} {done : Done}
    (step : Step shared self thread act done) (was : thread.tag ≤ shared.upgrade) :
    shared.upgrade ≤ done.shared.upgrade ∧ done.thread.tag ≤ done.shared.upgrade ∧
      ∀ found ∈ done.spawned, found.tag ≤ done.shared.upgrade := by
  cases step with
  | mainAccepts nc after keeps => simp [keeps.upgrade, Thread.tag]
  | mainAnnounces nc after keeps => simp [keeps.upgrade, Thread.tag]
  | mainManifest root effect accepts =>
      simp [accepts.upgrade, accepts.started, Thread.downloaderStart, Thread.tag]
  | hmiServes act after keeps => simp [keeps.upgrade, Thread.tag]
  | hmiStarts root after respLen keeps ready start => simp [keeps.upgrade, Thread.tag]
  | hmiUnlocks request after keeps => simp [keeps.upgrade, Thread.tag]
  | monitorServes act after keeps => simp [keeps.upgrade, Thread.tag]
  | cgwHandles thread here event conn had handled handling =>
      have same := handling.frame.upgrade.trans (logConnect_frame _ _ _).upgrade
      refine ⟨Nat.le_of_eq same.symm, same ▸ was, ?_⟩
      intro found fresh
      rw [handling.tags fresh, same]
      exact was
  | _ => simp_all [Thread.tag, Thread.cgwStart]

/-- No thread is ahead of the upgrade. -/
def TagsBounded (state : State) : Prop :=
  state.Each (fun _ thread => thread.tag ≤ state.shared.upgrade)

theorem tagsBounded_of_reaches {requests : List Api} {guard : State → Move → Prop}
    {state : State} (reached : (systemWith requests).Reaches guard state) :
    TagsBounded state := by
  have start : TagsBounded (systemWith requests).initial := by
    intro index thread there
    rcases initial_at there with rfl | ⟨api, rfl⟩ <;> exact Nat.zero_le _
  refine Machine.Reaches.invariant start ?_ reached
  intro before move after _ tags _ taken
  obtain ⟨thread, done, here, step, rfl⟩ := Step.of_move taken
  obtain ⟨grows, self, started⟩ := step.tags (tags _ _ here)
  refine Pool.Each.apply tags here self ?_ (fun _ found _ fresh => started found fresh)
  intro other found _ _ tag
  exact Nat.le_trans tag grows

end DlcServer
