/-
The order in which `g_stat` goes through an upgrade.

No assignment of `g_stat` looks at the value it replaces.  What keeps the order
is that one thread at a time is the next to assign: the downloader, the request
threads, the uploader and START_UPGRADE hand an upgrade on from one to the
other.  A run keeps to the order as long as nothing of an older upgrade assigns
and nothing hands an upgrade on twice.
-/

import DlcServer.StartUpgrade

namespace DlcServer

open Library

/-! ### The order of the states -/

/-- The edges of the pipeline, for the step between two states. -/
inductive Edge (before : State) (move : Move) (after : State) : Stat → Stat → Prop
  | accepted (stat : Stat) (counted : after.shared.upgrade = before.shared.upgrade + 1) :
      Edge before move after stat .dlcPkgNew
  | downloading : Edge before move after .dlcPkgNew .dlcPkgDownloading
  | downloaded : Edge before move after .dlcPkgDownloading .dlcPkgReady
  | requested : Edge before move after .dlcPkgReady .orchPkgDownloading
  | uploaded : Edge before move after .orchPkgDownloading .orchPkgReady
  | bad : Edge before move after .orchPkgDownloading .orchPkgBad
  | foreign (other : before.shared.gCtx.curManifest.devId ≠ text "WPC") :
      Edge before move after .orchPkgDownloading .orchTdrRun
  | runs : Edge before move after .orchPkgReady .orchTdrRun
  | succeeded : Edge before move after .orchTdrRun .orchTdrSucc
  | failed : Edge before move after .orchTdrRun .orchTdrFail
  | unreachable (stat : Stat)
      (cgw : stat = .dlcPkgReady ∨ stat = .orchPkgDownloading ∨ stat = .orchPkgReady ∨
        stat = .orchTdrRun)
      (refused : move.2 = .connection (.connect true)) :
      Edge before move after stat .orchConErr

/-- A step leaves `g_stat` or follows an edge. -/
def FollowsPipeline (before : State) (move : Move) (after : State) : Prop :=
  after.shared.gStat = before.shared.gStat ∨
    Edge before move after before.shared.gStat after.shared.gStat

/-! ### Actors -/

/-- The next event of the connection may assign `g_stat`. -/
def CgwMsgThread.Live (thread : CgwMsgThread) : Prop :=
  thread.conn.phase = .connecting ∨
    thread.api ≠ .tdrRun ∧ thread.conn.phase = .connected ∧
      thread.conn.closeImmediately = false

/-- The thread has yet to assign `g_stat`. -/
def Thread.Live : Thread → Prop
  | .hmi (.waiting _ _) | .hmi (.lock _) | .hmi (.acting _) => True
  | .cgw thread => thread.Live
  | .downloader thread => thread.pc ≠ .unlock ∧ thread.pc ≠ .done
  | .uploader thread => thread.pc ≠ .unlock ∧ thread.pc ≠ .done
  | _ => False

/-- The state a live thread is to find. -/
def Thread.Fits (stat : Stat) : Thread → Prop
  | .hmi _ => stat = .orchPkgReady
  | .cgw thread =>
      match thread.api with
      | .pkgNew =>
          if thread.conn.phase = .connecting then stat = .dlcPkgReady
          else stat = .orchPkgDownloading
      | .pkgStat => False
      | .tdrRun => stat = .orchPkgReady
      | .tdrStat => stat = .orchTdrRun
  | .downloader _ => stat = .dlcPkgNew ∨ stat = .dlcPkgDownloading
  | .uploader _ => stat = .orchPkgDownloading
  | _ => False

/-- The thread is live for this upgrade. -/
def Thread.ActsFor (upgrade : Nat) (thread : Thread) : Prop :=
  thread.Live ∧ thread.tag = upgrade

/-- A handler that assigns `g_stat` in this event. -/
def CgwEvent.Assigns (api : Api) : CgwEvent → Prop
  | .connect _ => True
  | .reply body => api = .pkgNew ∨ api = .pkgStat ∨ api = .tdrStat ∧ body.result.isSome = true
  | .close => False

/-- A step, other than one of the main loop, that assigns `g_stat`. -/
def Thread.Assigns : Thread → Act → Prop
  | .hmi (.acting _), .tick => True
  | .cgw thread, .connection event => event.Assigns thread.api
  | .downloader thread, .tick =>
      thread.pc = .report ∧ thread.exits.getLast? = some (some 0)
  | .uploader thread, .tick => thread.pc = .set
  | _, _ => False

/-! ### The condition -/

/-- The thread is the /tdr/run request of this upgrade. -/
def Thread.IsRunOf (upgrade : Nat) : Thread → Prop :=
  Thread.Serves (fun thread => thread.api = .tdrRun ∧ thread.upgrade = upgrade)

/-- Nothing is handed on twice or too early: a START_UPGRADE that is let through
is the first one of its upgrade, a connection that is to be closed has no
further reply, and the downloader reports after the main loop has left
DLC_PKG_NEW. -/
def Thread.HandsOnOnce (before : State) : Thread → Act → Prop
  | .hmi .serving, .hmiRecv root =>
      before.shared.gStat = .orchPkgReady → isStartUpgrade before.shared root = true →
        ∀ other ∈ before.threads, ¬ other.IsRunOf before.shared.upgrade
  | .cgw thread, .connection (.reply _) => thread.conn.closeImmediately = false
  | .downloader thread, .tick =>
      thread.pc = .report ∧ thread.exits.getLast? = some (some 0) →
        before.shared.gStat ≠ .dlcPkgNew
  | _, _ => True

/-- Besides, nothing of an older upgrade assigns `g_stat`. -/
def Thread.OnTime (before : State) (thread : Thread) (act : Act) : Prop :=
  (thread.Assigns act → thread.tag = before.shared.upgrade) ∧ thread.HandsOnOnce before act

def OnTime (before : State) (move : Move) : Prop :=
  ∀ thread ∈ before.threads[move.1]?, thread.OnTime before move.2

instance instDecidableAssigns (api : Api) (event : CgwEvent) : Decidable (event.Assigns api) := by
  cases event <;> unfold CgwEvent.Assigns <;> infer_instance

instance (thread : Thread) (act : Act) : Decidable (thread.Assigns act) :=
  match thread with
  | .main _ | .monitor _ => instDecidableFalse
  | .hmi pc =>
      match pc with
      | .acting _ =>
          match act with
          | .tick => instDecidableTrue
          | .dmcAccept _ | .dmcManifest _ | .hmiAccept _ | .hmiRecv _ | .statusReport _
          | .connection _ | .popen _ | .eof | .exit _ _ => instDecidableFalse
      | .start | .serving | .deaf | .waiting _ _ | .lock _ | .unlock _ =>
          instDecidableFalse
  | .cgw thread =>
      match act with
      | .connection event => instDecidableAssigns thread.api event
      | .tick | .dmcAccept _ | .dmcManifest _ | .hmiAccept _ | .hmiRecv _
      | .statusReport _ | .popen _ | .eof | .exit _ _ => instDecidableFalse
  | .downloader _ =>
      match act with
      | .tick => instDecidableAnd
      | .dmcAccept _ | .dmcManifest _ | .hmiAccept _ | .hmiRecv _ | .statusReport _
      | .connection _ | .popen _ | .eof | .exit _ _ => instDecidableFalse
  | .uploader thread =>
      match act with
      | .tick => decEq thread.pc .set
      | .dmcAccept _ | .dmcManifest _ | .hmiAccept _ | .hmiRecv _ | .statusReport _
      | .connection _ | .popen _ | .eof | .exit _ _ => instDecidableFalse

instance (upgrade : Nat) : DecidablePred (Thread.IsRunOf upgrade) :=
  inferInstanceAs (DecidablePred (Thread.Serves _))

instance (before : State) (thread : Thread) (act : Act) :
    Decidable (thread.HandsOnOnce before act) :=
  match thread with
  | .main _ | .monitor _ | .uploader _ => instDecidableTrue
  | .hmi pc =>
      match pc with
      | .serving =>
          match act with
          | .hmiRecv root =>
              (inferInstance : Decidable
                (before.shared.gStat = .orchPkgReady →
                  isStartUpgrade before.shared root = true →
                    ∀ other ∈ before.threads, ¬ other.IsRunOf before.shared.upgrade))
          | .tick | .dmcAccept _ | .dmcManifest _ | .hmiAccept _ | .statusReport _
          | .connection _ | .popen _ | .eof | .exit _ _ => instDecidableTrue
      | .start | .deaf | .waiting _ _ | .lock _ | .acting _ | .unlock _ =>
          instDecidableTrue
  | .cgw thread =>
      match act with
      | .connection event =>
          match event with
          | .reply _ => decEq thread.conn.closeImmediately false
          | .connect _ | .close => instDecidableTrue
      | .tick | .dmcAccept _ | .dmcManifest _ | .hmiAccept _ | .hmiRecv _
      | .statusReport _ | .popen _ | .eof | .exit _ _ => instDecidableTrue
  | .downloader thread =>
      match act with
      | .tick =>
          (inferInstance : Decidable
            (thread.pc = .report ∧ thread.exits.getLast? = some (some 0) →
              before.shared.gStat ≠ .dlcPkgNew))
      | .dmcAccept _ | .dmcManifest _ | .hmiAccept _ | .hmiRecv _ | .statusReport _
      | .connection _ | .popen _ | .eof | .exit _ _ => instDecidableTrue

instance (before : State) (move : Move) : Decidable (OnTime before move) :=
  inferInstanceAs (Decidable (∀ thread ∈ before.threads[move.1]?, _ ∧ _))

def Thread.TakesManifest : Thread → Act → Prop
  | .main .polling, .dmcManifest _ => True
  | _, _ => False

/-! ### Steps that assign nothing -/

/-- The step leaves `g_stat` and makes nobody live. -/
structure Quiet (shared : Shared) (thread : Thread) (done : Done) : Prop where
  gStat : done.shared.gStat = shared.gStat
  upgrade : done.shared.upgrade = shared.upgrade
  live : done.thread.Live → thread.Live ∧ done.thread.tag = thread.tag ∧
    ∀ stat, thread.Fits stat → done.thread.Fits stat
  spawned : ∀ found ∈ done.spawned, ¬ found.Live

theorem Handling.quiet {shared : Shared} {self : Nat} {thread : CgwMsgThread}
    {event : CgwEvent} {handled : Handled} {conn : Connection}
    (handling : Handling shared self thread.upgrade thread.api event handled)
    (had : thread.conn.after event = some conn) (idle : ¬ event.Assigns thread.api) :
    Quiet shared (.cgw thread)
      ⟨handled.shared,
        .cgw
          { thread with
            conn :=
              { conn with
                closeImmediately := conn.closeImmediately || handled.flagged
                raised := conn.raised || handled.raised } },
        handled.started⟩ := by
  obtain ⟨api, upgrade, pc, old, postData⟩ := thread
  dsimp only at handling had idle
  cases handling with
  | closed _ =>
      obtain ⟨_, rfl⟩ := Connection.after_close had
      exact ⟨rfl, rfl, by simp [Thread.Live, CgwMsgThread.Live],
        by simp [cgwClosed]⟩
  | tdrRunReplied body =>
      obtain ⟨connected, rfl⟩ := Connection.after_reply had
      exact ⟨rfl, rfl, by simp [Thread.Live, CgwMsgThread.Live, connected],
        by simp⟩
  | tdrStatBadJson body bad =>
      obtain ⟨_, rfl⟩ := Connection.after_reply had
      refine ⟨rfl, rfl, ?_, by simp⟩
      simp [Thread.Live, CgwMsgThread.Live, Thread.tag, Thread.Fits]
  | tdrStatReports body result reported verdict carried settled =>
      simp [CgwEvent.Assigns, carried] at idle
  | _ => simp [CgwEvent.Assigns] at idle

/-- A step of the pool other than the main loop's own assignments and a
START_UPGRADE that is let through assigns `g_stat` or is quiet. -/
theorem Step.quiet {shared : Shared} {self : Nat} {thread : Thread} {act : Act}
    {done : Done} (step : Step shared self thread act done) (idle : ¬ thread.Assigns act)
    (noManifest : ¬ thread.TakesManifest act) (notNew : thread ≠ .main .newPkg)
    (notStart : ¬ ∃ pc, thread = .hmi .serving ∧ done.thread = .hmi pc ∧ pc ≠ .serving) :
    Quiet shared thread done := by
  cases step with
  | mainAccepts nc after keeps =>
      exact ⟨keeps.gStat, keeps.upgrade, by simp [Thread.Live], by simp [Thread.Live]⟩
  | mainAnnounces nc after keeps =>
      exact ⟨keeps.gStat, keeps.upgrade, by simp [Thread.Live], by simp [Thread.Live]⟩
  | mainManifest root => exact absurd trivial noManifest
  | mainDownloading => exact absurd rfl notNew
  | hmiServes act after keeps =>
      exact ⟨keeps.gStat, keeps.upgrade, by simp [Thread.Live], by simp⟩
  | hmiStarts root after respLen keeps ready start =>
      exact absurd ⟨_, rfl, rfl, by simp⟩ notStart
  | hmiActs request => exact absurd trivial idle
  | hmiUnlocks request after keeps =>
      exact ⟨keeps.gStat, keeps.upgrade, by simp [Thread.Live], by simp⟩
  | monitorServes act after keeps =>
      exact ⟨keeps.gStat, keeps.upgrade, by simp [Thread.Live], by simp⟩
  | cgwHandles thread here event conn had handled handling =>
      have quiet := handling.quiet had idle
      cases event with
      | connect failed => exact absurd trivial idle
      | reply body => exact quiet
      | close => exact quiet
  | downloaderReports thread here succeeded => exact absurd ⟨here, succeeded⟩ idle
  | downloaderFails thread package here =>
      exact ⟨rfl, rfl, by simp [Thread.Live], by simp⟩
  | uploaderSets thread here => exact absurd here idle
  | _ => exact ⟨by simp, by simp,
      by simp_all [Thread.Live, Thread.tag, Thread.Fits, CgwMsgThread.Live], by simp⟩

/-! ### Steps that assign -/

/-- What the thread that assigns does with the upgrade: go on with it, hand it
on to a thread it starts, or end it. -/
inductive HandsOn (done : Done) : Prop
  | keeps (fits : done.thread.Fits done.shared.gStat) (spawned : done.spawned = [])
  | passes (child : Thread) (ended : ¬ done.thread.Live) (spawned : done.spawned = [child])
      (fits : child.Fits done.shared.gStat)
  | ends (ended : ¬ done.thread.Live) (spawned : done.spawned = [])

private theorem Step.live_of_assigns {before : State} {self : Nat} {thread : Thread} {act : Act}
    {done : Done} (step : Step before.shared self thread act done)
    (assigns : thread.Assigns act) (once : thread.HandsOnOnce before act) : thread.Live := by
  cases step with
  | hmiActs request => trivial
  | downloaderReports thread here succeeded => simp [Thread.Live, here]
  | downloaderGivesUp thread here failed => simp [Thread.Live, here]
  | uploaderSets thread here => simp [Thread.Live, here]
  | cgwHandles thread here event conn had handled handling =>
      cases event with
      | connect failed => exact .inl (Connection.after_connect had).1
      | reply body =>
          refine .inr ⟨?_, (Connection.after_reply had).1, once⟩
          intro isRun
          simp [Thread.Assigns, CgwEvent.Assigns, isRun] at assigns
      | close => cases assigns
  | hmiServes act after keeps => simp [Thread.Assigns] at assigns
  | monitorServes act after keeps => simp [Thread.Assigns] at assigns
  | _ => simp_all [Thread.Assigns]

/-- The step of a thread that assigns in the state it is to find. -/
structure Assigned (before : State) (move : Move) (done : Done) : Prop where
  upgrade : done.shared.upgrade = before.shared.upgrade
  handsOn : HandsOn done
  follows : FollowsPipeline before move (before.apply move.1 done)

theorem Handling.assigned {before : State} {self : Nat} {thread : CgwMsgThread}
    {event : CgwEvent} {handled : Handled} {conn : Connection}
    (handling : Handling (logConnect before.shared thread.api event) self thread.upgrade
      thread.api event handled)
    (had : thread.conn.after event = some conn) (assigns : event.Assigns thread.api)
    (fits : (Thread.cgw thread).Fits before.shared.gStat) :
    Assigned before (self, .connection event)
      ⟨handled.shared,
        .cgw
          { thread with
            conn :=
              { conn with
                closeImmediately := conn.closeImmediately || handled.flagged
                raised := conn.raised || handled.raised } },
        handled.started⟩ := by
  obtain ⟨api, upgrade, pc, old, postData⟩ := thread
  dsimp only at handling had assigns
  cases handling with
  | closed _ => cases assigns
  | pkgNewConnects failed =>
      obtain ⟨connecting, rfl⟩ := Connection.after_connect had
      have atReady : before.shared.gStat = .dlcPkgReady := by
        simpa [Thread.Fits, connecting] using fits
      refine ⟨rfl, ?_, .inr ?_⟩
      · cases failed with
        | true =>
            exact .ends (by simp [Thread.Live, CgwMsgThread.Live]) rfl
        | false =>
            exact .keeps (by simp [Thread.Fits]) rfl
      · rw [atReady]
        exact .requested
  | pkgNewForeign body foreign =>
      obtain ⟨connected, rfl⟩ := Connection.after_reply had
      have downloading : before.shared.gStat = .orchPkgDownloading := by
        simpa [Thread.Fits, connected] using fits
      refine ⟨rfl, ?_, .inr ?_⟩
      · exact .ends (by simp [Thread.Live, CgwMsgThread.Live, connected]) rfl
      · rw [downloading]
        exact .foreign foreign
  | pkgNewUploads body wpc =>
      obtain ⟨connected, rfl⟩ := Connection.after_reply had
      have downloading : before.shared.gStat = .orchPkgDownloading := by
        simpa [Thread.Fits, connected] using fits
      refine ⟨rfl, ?_, .inl ?_⟩
      · exact .passes (.uploaderStart upgrade)
          (by simp [Thread.Live, CgwMsgThread.Live, connected]) rfl
          (by simp [Thread.uploaderStart, Thread.Fits])
      · rw [downloading]
        rfl
  | pkgStatFails => cases fits
  | pkgStatConnects => cases fits
  | pkgStatReady body ready => cases fits
  | pkgStatDownloading body busy => cases fits
  | tdrRunConnects failed =>
      obtain ⟨connecting, rfl⟩ := Connection.after_connect had
      have atReady : before.shared.gStat = .orchPkgReady := fits
      refine ⟨rfl, ?_, .inr ?_⟩
      · refine .passes (.cgwStart .tdrStat upgrade) ?_ rfl rfl
        cases failed <;> simp [Thread.Live, CgwMsgThread.Live]
      · rw [atReady]
        exact .runs
  | tdrRunReplied body => simp [CgwEvent.Assigns] at assigns
  | tdrStatFails =>
      obtain ⟨connecting, rfl⟩ := Connection.after_connect had
      have running : before.shared.gStat = .orchTdrRun := fits
      refine ⟨rfl, ?_, .inr ?_⟩
      · exact .ends (by simp [Thread.Live, CgwMsgThread.Live]) rfl
      · rw [running]
        exact .unreachable _ (by simp) rfl
  | tdrStatConnects =>
      obtain ⟨connecting, rfl⟩ := Connection.after_connect had
      have running : before.shared.gStat = .orchTdrRun := fits
      refine ⟨rfl, ?_, .inl ?_⟩
      · exact .keeps (by simp [Thread.Fits]) rfl
      · rw [running]
        rfl
  | tdrStatBadJson body bad => simp [CgwEvent.Assigns, bad] at assigns
  | tdrStatReports body result reported verdict carried settled =>
      obtain ⟨connected, rfl⟩ := Connection.after_reply had
      have running : before.shared.gStat = .orchTdrRun := fits
      obtain ⟨_, _, _, keeps, verdicts⟩ := tdrStatReport_keeps settled
      have ended : ¬ (Thread.cgw
          { api := .tdrStat, upgrade, pc, postData
            conn :=
              { old with
                replied := true
                closeImmediately := old.closeImmediately || true
                raised := old.raised || true } }).Live := by
        simp [Thread.Live, CgwMsgThread.Live, connected]
      rcases verdicts with ⟨_, rfl⟩ | ⟨_, rfl⟩ | ⟨_, rfl⟩
      · refine ⟨keeps.upgrade, .ends ended rfl, .inr ?_⟩
        rw [running]
        exact .failed
      · refine ⟨keeps.upgrade, ?_, .inl ?_⟩
        · exact .passes (.cgwStart .tdrStat upgrade) ended rfl rfl
        · rw [running]
          rfl
      · refine ⟨keeps.upgrade, .ends ended rfl, .inr ?_⟩
        rw [running]
        exact .succeeded

theorem Step.assigned {before : State} {self : Nat} {thread : Thread} {act : Act}
    {done : Done} (step : Step before.shared self thread act done)
    (assigns : thread.Assigns act) (once : thread.HandsOnOnce before act)
    (fits : thread.Fits before.shared.gStat) : Assigned before (self, act) done := by
  cases step with
  | hmiActs request =>
      have atReady : before.shared.gStat = .orchPkgReady := fits
      refine ⟨rfl, ?_, .inl ?_⟩
      · exact .passes (.cgwStart .tdrRun request.upgrade) id rfl rfl
      · rw [atReady]
        rfl
  | downloaderReports thread here succeeded =>
      have downloading : before.shared.gStat = .dlcPkgDownloading :=
        fits.resolve_left (once ⟨here, succeeded⟩)
      refine ⟨rfl, ?_, .inr ?_⟩
      · exact .passes (.cgwStart .pkgNew thread.upgrade) (by simp [Thread.Live]) rfl rfl
      · rw [downloading]
        exact .downloaded
  | downloaderGivesUp thread here failed => exact absurd assigns.2 failed
  | uploaderSets thread here =>
      have downloading : before.shared.gStat = .orchPkgDownloading := fits
      refine ⟨rfl, .ends (by simp [Thread.Live]) rfl, .inr ?_⟩
      rw [downloading]
      exact .uploaded
  | cgwHandles thread here event conn had handled handling =>
      exact handling.assigned had assigns fits
  | hmiServes act after keeps => simp [Thread.Assigns] at assigns
  | monitorServes act after keeps => simp [Thread.Assigns] at assigns
  | _ => simp_all [Thread.Assigns]

/-! ### The invariant -/

/-- At most one thread is to assign next in the current upgrade; it is to find
the state that is there; and the main loop is in DLC_PKG_NEW until it has left
it. -/
structure PipelineInvariant (state : State) : Prop where
  one : state.AtMostOne (Thread.ActsFor state.shared.upgrade)
  fits : state.Each (fun _ thread =>
    thread.ActsFor state.shared.upgrade → thread.Fits state.shared.gStat)
  main : state.Each (fun index thread => ∀ pc, thread = .main pc →
    index = 0 ∧ (pc = .newPkg → state.shared.gStat = .dlcPkgNew))

private theorem Handling.started_not_main {shared : Shared} {self caller : Nat} {api : Api}
    {event : CgwEvent} {handled : Handled}
    (handling : Handling shared self caller api event handled) :
    ∀ found ∈ handled.started, ∀ pc, found ≠ .main pc := by
  intro found fresh pc
  rcases handling.started_cases fresh with ⟨_, rfl⟩ | ⟨_, rfl⟩
  · simp [Thread.uploaderStart]
  · simp [Thread.cgwStart]

/-- The main loop comes from the main loop, and to the point behind a started
downloader only with a manifest. -/
theorem Step.main {shared : Shared} {self : Nat} {thread : Thread} {act : Act} {done : Done}
    (step : Step shared self thread act done) :
    (∀ pc, done.thread = .main pc →
      (∃ old, thread = .main old) ∧ (pc = .newPkg → thread.TakesManifest act)) ∧
      ∀ found ∈ done.spawned, ∀ pc, found ≠ .main pc := by
  cases step with
  | cgwHandles thread here event conn had handled handling =>
      exact ⟨by simp, handling.started_not_main⟩
  | mainManifest root effect accepts =>
      simp [accepts.started, Thread.downloaderStart, Thread.TakesManifest]
  | _ => simp [Thread.cgwStart]

private theorem PipelineInvariant.main_kept {before : State} {index : Nat} {thread : Thread}
    {act : Act} {done : Done} (invariant : PipelineInvariant before)
    (here : before.At index thread) (step : Step before.shared index thread act done)
    (noManifest : ¬ thread.TakesManifest act)
    (stays : before.shared.gStat = .dlcPkgNew → thread ≠ .main .newPkg →
      done.shared.gStat = .dlcPkgNew) :
    (before.apply index done).Each (fun index thread => ∀ pc, thread = .main pc →
      index = 0 ∧ (pc = .newPkg → done.shared.gStat = .dlcPkgNew)) := by
  obtain ⟨comes, started⟩ := step.main
  refine invariant.main.apply here ?_ ?_ ?_
  · intro pc same
    obtain ⟨⟨old, was⟩, manifest⟩ := comes pc same
    refine ⟨(invariant.main index thread here old was).1, ?_⟩
    intro isNew
    exact absurd (manifest isNew) noManifest
  · intro other found different there was pc same
    refine ⟨(was pc same).1, ?_⟩
    intro isNew
    refine stays ((was pc same).2 isNew) ?_
    intro isMain
    have zero := (invariant.main index thread here _ isMain).1
    exact different ((was pc same).1.trans zero.symm)
  · intro other found _ fresh pc same
    exact absurd same (started found fresh pc)

theorem PipelineInvariant.quiet {before : State} {index : Nat} {thread : Thread} {act : Act}
    {done : Done} (invariant : PipelineInvariant before) (here : before.At index thread)
    (step : Step before.shared index thread act done) (quiet : Quiet before.shared thread done)
    (noManifest : ¬ thread.TakesManifest act) :
    PipelineInvariant (before.apply index done) := by
  have acts (upgrade : Nat) (live : done.thread.ActsFor upgrade) : thread.ActsFor upgrade :=
    ⟨(quiet.live live.1).1, (quiet.live live.1).2.1 ▸ live.2⟩
  have main := invariant.main_kept here step noManifest
    (fun isNew _ => quiet.gStat.trans isNew)
  refine ⟨?_, ?_, main⟩
  · rw [Pool.apply_shared, quiet.upgrade]
    exact invariant.one.keep here (acts _)
      (fun found started live => quiet.spawned found started live.1)
  · rw [Pool.apply_shared, quiet.upgrade, quiet.gStat]
    refine invariant.fits.apply here ?_ (fun _ _ _ _ was => was) ?_
    · intro live
      exact (quiet.live live.1).2.2 _ (invariant.fits index thread here (acts _ live))
    · intro other found _ started live
      exact absurd live.1 (quiet.spawned found started)

theorem PipelineInvariant.assigned {before : State} {index : Nat} {thread : Thread} {act : Act}
    {done : Done} (invariant : PipelineInvariant before) (here : before.At index thread)
    (step : Step before.shared index thread act done)
    (acting : thread.ActsFor before.shared.upgrade)
    (assigned : Assigned before (index, act) done)
    (noManifest : ¬ thread.TakesManifest act)
    (stays : before.shared.gStat = .dlcPkgNew → done.shared.gStat = .dlcPkgNew) :
    PipelineInvariant (before.apply index done) := by
  have others (other : Nat) (found : Thread) (different : other ≠ index)
      (there : before.At other found) : ¬ found.ActsFor before.shared.upgrade := by
    intro live
    exact different (invariant.one _ _ _ _ there here live acting)
  have main := invariant.main_kept here step noManifest (fun isNew _ => stays isNew)
  refine ⟨?_, ?_, main⟩
  · rw [Pool.apply_shared, assigned.upgrade]
    cases assigned.handsOn with
    | keeps fits none_ => exact Pool.AtMostOne.take here others (by simp [none_])
    | passes child ended only fits =>
        exact Pool.AtMostOne.pass here others (fun live => ended live.1) only
    | ends ended none_ => exact Pool.AtMostOne.take here others (by simp [none_])
  · rw [Pool.apply_shared, assigned.upgrade]
    refine invariant.fits.apply here ?_ ?_ ?_
    · intro live
      cases assigned.handsOn with
      | keeps fits none_ => exact fits
      | passes child ended => exact absurd live.1 ended
      | ends ended => exact absurd live.1 ended
    · intro other found different there _ live
      exact absurd live (others other found different there)
    · intro other found _ started live
      cases assigned.handsOn with
      | keeps fits none_ => simp [none_] at started
      | passes child ended only fits =>
          rw [only, List.mem_singleton] at started
          exact started ▸ fits
      | ends ended none_ => simp [none_] at started

private theorem Thread.Fits.at_ready {thread : Thread} {upgrade : Nat}
    (fits : thread.Fits .orchPkgReady) (acts : thread.ActsFor upgrade) :
    thread.HasTested ∨ thread.IsRunOf upgrade := by
  cases thread with
  | hmi pc =>
      cases pc with
      | waiting t request => exact .inl trivial
      | lock request => exact .inl trivial
      | acting request => exact .inl trivial
      | _ => exact absurd acts.1 id
  | cgw thread =>
      obtain ⟨api, tag, pc, conn, postData⟩ := thread
      cases api with
      | tdrRun => exact .inr ⟨rfl, acts.2⟩
      | pkgNew =>
          simp only [Fits] at fits
          split at fits <;> cases fits
      | pkgStat => cases fits
      | tdrStat => cases fits
  | downloader thread => rcases fits with other | other <;> cases other
  | uploader thread => cases fits
  | _ => cases fits

private theorem Thread.Fits.at_new {thread : Thread} (fits : thread.Fits .dlcPkgNew) :
    ∃ downloader, thread = .downloader downloader := by
  cases thread with
  | downloader thread => exact ⟨thread, rfl⟩
  | cgw thread =>
      obtain ⟨api, tag, pc, conn, postData⟩ := thread
      cases api with
      | pkgNew =>
          simp only [Fits] at fits
          split at fits <;> cases fits
      | _ => cases fits
  | _ => cases fits

/-- START_UPGRADE takes the upgrade on when it is the first one of the
upgrade. -/
theorem PipelineInvariant.starts {before : State} {index : Nat} {root : Option CJson}
    {after : Shared} {respLen : Nat} (invariant : PipelineInvariant before)
    (listener : OneListener before) (here : before.At index (.hmi .serving))
    (keeps : Keeps before.shared after) (ready : before.shared.gStat = .orchPkgReady)
    (first : ∀ other ∈ before.threads, ¬ other.IsRunOf before.shared.upgrade)
    (step : Step before.shared index (.hmi .serving) (.hmiRecv root)
      ⟨after, .hmi (.waiting 1 ⟨respLen, before.shared.upgrade⟩), []⟩) :
    PipelineInvariant
      (before.apply index ⟨after, .hmi (.waiting 1 ⟨respLen, before.shared.upgrade⟩), []⟩) := by
  have main := invariant.main_kept here step id (fun isNew _ => keeps.gStat.trans isNew)
  refine ⟨?_, ?_, main⟩
  · rw [Pool.apply_shared, keeps.upgrade]
    refine Pool.AtMostOne.take here ?_ (by simp)
    intro other found different there acts
    have fits := ready ▸ invariant.fits other found there acts
    rcases fits.at_ready acts with tested | isRun
    · exact different (listener.one _ _ _ _ there here tested.listens trivial)
    · exact first found (List.mem_of_getElem? there) isRun
  · rw [Pool.apply_shared, keeps.upgrade, keeps.gStat]
    exact invariant.fits.apply here (fun _ => ready) (fun _ _ _ _ was => was) (by simp)

/-- A manifest hands the new upgrade to the downloader; whoever acted for an
older one acts for an older one still. -/
theorem PipelineInvariant.accepts {before : State} {index : Nat} {effect : Effect}
    (invariant : PipelineInvariant before) (tags : TagsBounded before)
    (here : before.At index (.main .polling)) (accepts : Accepts before.shared effect) :
    PipelineInvariant
      (before.apply index ⟨effect.shared, .main .newPkg, effect.started⟩) := by
  have nobody (other : Nat) (found : Thread) (there : before.At other found) :
      ¬ found.ActsFor (before.shared.upgrade + 1) := by
    intro acts
    have tag : found.tag ≤ before.shared.upgrade := tags other found there
    rw [acts.2] at tag
    omega
  have started (found : Thread) (fresh : found ∈ effect.started) :
      found = .downloaderStart (before.shared.upgrade + 1) := by
    rw [accepts.started] at fresh
    exact List.mem_singleton.mp fresh
  refine ⟨?_, ?_, ?_⟩
  · rw [Pool.apply_shared, accepts.upgrade]
    exact Pool.AtMostOne.pass here (fun other found _ there => nobody other found there)
      (fun acts => acts.1) accepts.started
  · rw [Pool.apply_shared, accepts.upgrade, accepts.gStat]
    have anyone : before.Each (fun _ _ => True) := fun _ _ _ => trivial
    refine anyone.apply here (fun acts => absurd acts.1 id) ?_ ?_
    · intro other found _ there _ acts
      exact absurd acts (nobody other found there)
    · intro other found _ fresh _
      rw [started found fresh]
      exact .inl rfl
  · rw [Pool.apply_shared, accepts.gStat]
    refine invariant.main.apply here ?_ ?_ ?_
    · intro pc _
      exact ⟨(invariant.main index _ here _ rfl).1, fun _ => rfl⟩
    · intro other found _ _ was pc same
      exact ⟨(was pc same).1, fun _ => rfl⟩
    · intro other found _ fresh pc same
      rw [started found fresh] at same
      cases same

theorem PipelineInvariant.downloading {before : State} {index : Nat}
    (invariant : PipelineInvariant before) (here : before.At index (.main .newPkg)) :
    PipelineInvariant
      (before.apply index
        ⟨before.shared.setStat .dlcPkgDownloading, .main .polling, []⟩) := by
  obtain ⟨zero, atNew⟩ := invariant.main index _ here _ rfl
  refine ⟨?_, ?_, ?_⟩
  · rw [Pool.apply_shared]
    exact invariant.one.keep here (fun acts => absurd acts.1 id) (by simp)
  · rw [Pool.apply_shared]
    refine invariant.fits.apply here (fun acts => absurd acts.1 id) ?_ (by simp)
    intro other found _ there fits acts
    have fitsNew : found.Fits .dlcPkgNew := atNew rfl ▸ fits acts
    obtain ⟨downloader, rfl⟩ := fitsNew.at_new
    exact .inr rfl
  · rw [Pool.apply_shared]
    refine invariant.main.apply here ?_ ?_ (by simp)
    · intro pc same
      cases same
      exact ⟨zero, by simp⟩
    · intro other found different _ was pc same
      exact absurd ((was pc same).1.trans zero.symm) different

/-- A step on time keeps the invariant and follows the pipeline. -/
theorem PipelineInvariant.step {before : State} {index : Nat} {thread : Thread} {act : Act}
    {done : Done} (invariant : PipelineInvariant before) (listener : OneListener before)
    (tags : TagsBounded before) (here : before.At index thread)
    (step : Step before.shared index thread act done)
    (onTime : thread.OnTime before act) :
    PipelineInvariant (before.apply index done) ∧
      FollowsPipeline before (index, act) (before.apply index done) := by
  by_cases assigns : thread.Assigns act
  · have acting : thread.ActsFor before.shared.upgrade :=
      ⟨step.live_of_assigns assigns onTime.2, onTime.1 assigns⟩
    have fits := invariant.fits index thread here acting
    have assigned := step.assigned assigns onTime.2 fits
    refine ⟨invariant.assigned here step acting assigned ?_ ?_, assigned.follows⟩
    · intro takes
      cases thread <;> first | exact assigns | exact takes
    · intro isNew
      obtain ⟨downloader, rfl⟩ := (isNew ▸ fits).at_new
      cases act with
      | tick => exact absurd isNew (onTime.2 assigns)
      | _ => cases assigns
  · by_cases manifest : thread.TakesManifest act
    · cases step with
      | mainManifest root effect accepts =>
          refine ⟨invariant.accepts tags here accepts, .inr ?_⟩
          rw [Pool.apply_shared, accepts.gStat]
          exact .accepted _ accepts.upgrade
      | _ => cases manifest
    · by_cases atNew : thread = .main .newPkg
      · subst atNew
        cases step with
        | mainDownloading =>
            refine ⟨invariant.downloading here, .inr ?_⟩
            rw [(invariant.main index _ here _ rfl).2 rfl]
            exact .downloading
      · by_cases start : ∃ pc, thread = .hmi .serving ∧ done.thread = .hmi pc ∧ pc ≠ .serving
        · obtain ⟨pc, rfl, there, left⟩ := start
          cases step with
          | hmiServes _ after keeps => cases there; exact absurd rfl left
          | hmiStarts root after respLen keeps ready start =>
              exact ⟨invariant.starts listener here keeps ready (onTime.2 ready start)
                (.hmiStarts root after respLen keeps ready start), .inl keeps.gStat⟩
        · have quiet := step.quiet assigns manifest atNew start
          exact ⟨invariant.quiet here step quiet manifest, .inl quiet.gStat⟩

/-! ### Runs -/

private theorem pipelineInvariant_of_reaches {state : State}
    (reached : system.Reaches OnTime state) : PipelineInvariant state := by
  have start : PipelineInvariant system.initial := by
    refine ⟨?_, ?_, ?_⟩
    · intro first second left right atFirst atSecond _ _
      exact (system_initial_at atFirst).1.trans (system_initial_at atSecond).1.symm
    · intro index thread there acts
      rw [(system_initial_at there).2] at acts
      exact absurd acts.1 id
    · intro index thread there pc same
      rw [(system_initial_at there).2] at same
      cases same
      exact ⟨(system_initial_at there).1, by simp⟩
  refine Machine.Reaches.invariant start ?_ reached
  intro before move after earlier invariant allowed taken
  obtain ⟨thread, done, here, step, rfl⟩ := Step.of_move taken
  exact (invariant.step (oneListener_of_reaches earlier) (tagsBounded_of_reaches earlier) here
    step (allowed thread here)).1

/-- A state that ends an upgrade is left only by a new manifest. -/
theorem FollowsPipeline.final {before : State} {move : Move} {after : State}
    (follows : FollowsPipeline before move after)
    (ended : before.shared.gStat = .orchTdrSucc ∨ before.shared.gStat = .orchTdrFail)
    (left : after.shared.gStat ≠ before.shared.gStat) :
    after.shared.gStat = .dlcPkgNew ∧ after.shared.upgrade = before.shared.upgrade + 1 := by
  have edge := follows.resolve_left left
  generalize target : after.shared.gStat = next at edge ⊢
  rcases ended with succ | fail
  · rw [succ] at edge
    cases edge with
    | accepted _ counted => exact ⟨rfl, counted⟩
    | unreachable _ cgw => simp at cgw
  · rw [fail] at edge
    cases edge with
    | accepted _ counted => exact ⟨rfl, counted⟩
    | unreachable _ cgw => simp at cgw

/-- In runs on time every step follows the pipeline, and the states that end an
upgrade are left only by a new manifest. -/
theorem followsPipeline_of_onTime {before after : State} {move : Move}
    (reached : system.Reaches OnTime before) (onTime : OnTime before move)
    (taken : system.step before move = some after) :
    FollowsPipeline before move after ∧
      (before.shared.gStat = .orchTdrSucc ∨ before.shared.gStat = .orchTdrFail →
        after.shared.gStat ≠ before.shared.gStat →
          after.shared.gStat = .dlcPkgNew ∧
            after.shared.upgrade = before.shared.upgrade + 1) := by
  obtain ⟨thread, done, here, step, rfl⟩ := Step.of_move taken
  have follows := ((pipelineInvariant_of_reaches reached).step
    (oneListener_of_reaches reached) (tagsBounded_of_reaches reached) here step
    (onTime thread here)).2
  exact ⟨follows, follows.final⟩

def lastReport : Move :=
  (7, .connection (statusReply [progressMember 100]))

def beforeLastReport : List Move :=
  upgradeRuns ++ [(7, .tick), (7, .tick), (7, .tick)]

theorem lastReport_follows :
    ∃ before after, system.run system.initial beforeLastReport = some before ∧
      system.step before lastReport = some after ∧ after.shared.gStat = .orchTdrSucc ∧
        FollowsPipeline before lastReport after := by
  refine ⟨_, _, rfl, rfl, rfl, ?_⟩
  refine (followsPipeline_of_onTime ?_ ?_ rfl).1
  · exact Machine.Reaches.of_run beforeLastReport .initial (by decide) rfl
  · decide

/-- The report arrives when a second manifest has replaced the first one. -/
def beforeLateReport : List Move :=
  upgradeRuns ++
    [(0, .tick), (0, .tick), (0, .dmcManifest StubManifest.mani.root), (0, .tick), (0, .tick)] ++
    [(7, .tick), (7, .tick), (7, .tick)]

theorem late_report_ends_new_upgrade :
    ¬ ∀ before move after, system.Reachable before → system.step before move = some after →
      FollowsPipeline before move after := by
  intro always
  have ran : ∃ before after, system.run system.initial beforeLateReport = some before ∧
      system.step before lastReport = some after ∧
        before.shared.gStat = .dlcPkgDownloading ∧ after.shared.gStat = .orchTdrSucc :=
    ⟨_, _, rfl, rfl, rfl, rfl⟩
  obtain ⟨before, after, earlier, taken, downloading, succ⟩ := ran
  rcases always before lastReport after (Machine.Reachable.of_run earlier) taken with same | edge
  · rw [downloading, succ] at same
    contradiction
  · rw [downloading, succ] at edge
    cases edge

end DlcServer
