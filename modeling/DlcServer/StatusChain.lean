/-
Whether a status request is outstanding while an upgrade runs.

Each /tdr/stat reply that is still in progress starts the next request, while
the thread that has handled it is yet to reset the flag both of them test.  The
new thread polls only if it tests the flag after the reset, and before the close
in `mg_mgr_free` that sets it again.
-/

import DlcServer.ExitFlags

namespace DlcServer

open Library

/-! ### The rule -/

def tdrRunConnected : List Event → Bool
  | [] => false
  | .connected .tdrRun :: _ => true
  | _ :: past => tdrRunConnected past

/-- A status request that is over, in a thread still to reset the flag. -/
def Thread.HandsOver : Thread → Prop :=
  Thread.Serves (fun thread => thread.api = .tdrStat ∧ thread.InLoop ∧ thread.conn.Ended)

/-- The flag of the status requests is clear, or there is a thread to clear
it. -/
def FlagClears (state : State) : Prop :=
  state.shared.exit .tdrStat = false ∨ ∃ thread ∈ state.threads, thread.HandsOver

/-- The request has been neither answered nor closed, and its loop will still
poll. -/
structure CgwMsgThread.Watches (state : State) (thread : CgwMsgThread) : Prop where
  stat : thread.api = .tdrStat
  outstanding : ¬ thread.conn.Ended
  alive : thread.pc ≠ .reset ∧ thread.pc ≠ .freeing ∧ thread.pc ≠ .done
  polls : thread.pc = .start ∨ thread.pc = .test → FlagClears state

def Monitored (state : State) : Prop :=
  tdrRunConnected state.shared.past = true → state.shared.gStat = .orchTdrRun →
    ∃ thread, .cgw thread ∈ state.threads ∧ thread.Watches state

/-! ### The condition -/

/-- A status request that is neither answered nor closed. -/
def Thread.Outstanding : Thread → Prop :=
  Thread.Serves (fun thread => thread.api = .tdrStat ∧ ¬ thread.conn.Ended)

/-- One that has not got past its loop test. -/
def Thread.TestsNext : Thread → Prop :=
  Thread.Serves (fun thread =>
    thread.api = .tdrStat ∧ ¬ thread.conn.Ended ∧ (thread.pc = .start ∨ thread.pc = .test))

/-- What the events and tests of the request threads must not do: a status
request connects and is answered inside its loop; while the upgrade runs, its
reply has a `result`, it is not closed unanswered, it finds the flag clear when
it tests it, and no close in `mg_mgr_free` sets the flag before that test.  A
/tdr/run request connects when the flag is clear or will be cleared, and a
package that is not WPC is answered before any of them has. -/
def CgwMsgThread.KeepsWatch (before : State) (thread : CgwMsgThread) : Act → Prop
  | .connection (.connect _) =>
      (thread.api = .tdrRun → FlagClears before) ∧
        (thread.api = .tdrStat → thread.pc = .polling)
  | .connection (.reply body) =>
      (thread.api = .pkgNew → before.shared.gCtx.curManifest.devId ≠ text "WPC" →
          tdrRunConnected before.shared.past = false) ∧
        (thread.api = .tdrStat → thread.pc = .polling ∧
          (before.shared.gStat = .orchTdrRun → body.result.isSome = true))
  | .connection .close =>
      thread.api = .tdrStat → before.shared.gStat = .orchTdrRun →
        thread.conn.Ended ∧
          (thread.pc = .freeing →
            (∃ other ∈ before.threads, other.HandsOver) ∨
              ∀ other ∈ before.threads, ¬ other.TestsNext)
  | .tick =>
      thread.api = .tdrStat → before.shared.gStat = .orchTdrRun → ¬ thread.conn.Ended →
        (thread.pc = .test → before.shared.exit .tdrStat = false) ∧
          (thread.pc = .polling → FlagClears before)
  | _ => True

def Thread.KeepsWatch (before : State) : Thread → Act → Prop
  | .cgw thread, act => thread.KeepsWatch before act
  | _, _ => True

def KeepsWatch (before : State) (move : Move) : Prop :=
  ∀ thread ∈ before.threads[move.1]?, thread.KeepsWatch before move.2

instance : DecidablePred Thread.HandsOver :=
  inferInstanceAs (DecidablePred (Thread.Serves _))

instance : DecidablePred Thread.Outstanding :=
  inferInstanceAs (DecidablePred (Thread.Serves _))

instance : DecidablePred Thread.TestsNext :=
  inferInstanceAs (DecidablePred (Thread.Serves _))

instance (state : State) : Decidable (FlagClears state) :=
  inferInstanceAs (Decidable (_ ∨ _))

instance (before : State) (thread : CgwMsgThread) (act : Act) :
    Decidable (thread.KeepsWatch before act) :=
  match act with
  | .tick => inferInstanceAs (Decidable (_ → _ → _ → _))
  | .connection event =>
      match event with
      | .close => inferInstanceAs (Decidable (_ → _ → _))
      | .connect _ | .reply _ => inferInstanceAs (Decidable (_ ∧ _))
  | .dmcAccept _ | .dmcManifest _ | .hmiAccept _ | .hmiRecv _ | .statusReport _ | .popen _
  | .eof | .exit _ _ => inferInstanceAs (Decidable True)

instance (before : State) (thread : Thread) (act : Act) :
    Decidable (thread.KeepsWatch before act) :=
  match thread with
  | .cgw thread => inferInstanceAs (Decidable (thread.KeepsWatch before act))
  | .main _ | .hmi _ | .monitor _ | .downloader _ | .uploader _ =>
      inferInstanceAs (Decidable True)

instance (before : State) (move : Move) : Decidable (KeepsWatch before move) :=
  inferInstanceAs (Decidable (∀ thread ∈ before.threads[move.1]?, _))

/-! ### The flag -/

/-- A step leaves the flag clear or a thread to clear it, unless it closes a
connection in `mg_mgr_free` with nobody else to clear the flag. -/
theorem FlagClears.apply {before : State} {index : Nat} {thread : Thread} {act : Act}
    {done : Done} (clears : FlagClears before) (here : before.At index thread)
    (step : Step before.shared index thread act done)
    (late : ∀ request, thread = .cgw request → request.api = .tdrStat →
      request.pc = .freeing → request.conn.phase ≠ .closed →
        ∃ other ∈ before.threads, other.HandsOver) :
    FlagClears (before.apply index done) := by
  by_cases other : ∃ position found, position ≠ index ∧ before.At position found ∧
      found.HandsOver
  · obtain ⟨position, found, different, there, hands⟩ := other
    exact .inr ⟨found, List.mem_of_getElem? (there.apply_other different), hands⟩
  · have only (found : Thread) (member : found ∈ before.threads) (hands : found.HandsOver) :
        found = thread := by
      obtain ⟨position, there⟩ := List.mem_iff_getElem?.mp member
      have same : position = index :=
        by_contra fun different => other ⟨position, found, different, there, hands⟩
      subst same
      exact Pool.At.unique there here
    have clear (idle : ¬ thread.HandsOver) : before.shared.exit .tdrStat = false := by
      rcases clears with clear | ⟨found, member, hands⟩
      · exact clear
      · exact absurd (only found member hands ▸ hands) idle
    cases thread with
    | cgw request =>
        obtain ⟨next, made, sameApi, use⟩ := step.flagUse
        have hands (stat : request.api = .tdrStat) (loops : next.InLoop)
            (ended : next.conn.Ended) : FlagClears (before.apply index done) := by
          refine .inr ⟨_, List.mem_of_getElem? here.apply_self, ?_⟩
          rw [made]
          exact ⟨sameApi.trans stat, loops, ended⟩
        cases use with
        | begins start _ exits =>
            exact .inl ((exits _).trans (clear (fun hands => hands.2.1.1 start)))
        | stays inside there _ ended exits =>
            by_cases handing : (Thread.cgw request).HandsOver
            · exact hands handing.1 there (ended handing.2.2)
            · exact .inl ((exits _).trans (clear handing))
        | raises inside there _ ended exits =>
            by_cases stat : request.api = .tdrStat
            · exact hands stat there ended
            · refine .inl ((exits _).trans ?_)
              rw [if_neg (fun same => stat same.symm)]
              exact clear (fun hands => stat hands.1)
        | resets atReset _ _ exits =>
            refine .inl ((exits _).trans ?_)
            by_cases stat : request.api = .tdrStat
            · rw [if_pos stat.symm]
            · rw [if_neg (fun same => stat same.symm)]
              exact clear (fun hands => stat hands.1)
        | late freeing opened exits =>
            have idle : ¬ (Thread.cgw request).HandsOver := fun hands => hands.2.1.2.1 freeing
            by_cases stat : request.api = .tdrStat
            · obtain ⟨found, member, hands⟩ := late request rfl stat freeing opened
              exact absurd (only found member hands ▸ hands) idle
            · exact .inl ((exits _ (fun same => stat same.symm)).trans (clear idle))
        | ends freeing _ exits =>
            exact .inl ((exits _).trans (clear (fun hands => hands.2.1.2.1 freeing)))
    | _ => exact .inl ((step.exit_of_not_cgw (by simp) _).1.trans (clear id))

/-! ### Requests that connect have no reply yet -/

def Thread.Unanswered : Thread → Prop
  | .cgw thread => thread.conn.phase = .connecting → thread.conn.replied = false
  | _ => True

private theorem Connection.not_connecting_of_after {conn next : Connection} {event : CgwEvent}
    (had : conn.after event = some next) : next.phase ≠ .connecting := by
  cases event with
  | connect failed =>
      obtain ⟨_, rfl⟩ := after_connect had
      cases failed <;> simp
  | reply body =>
      obtain ⟨connected, rfl⟩ := after_reply had
      simp [connected]
  | close =>
      obtain ⟨_, rfl⟩ := after_close had
      simp

private theorem Step.unanswered {shared : Shared} {self : Nat} {thread : Thread} {act : Act}
    {done : Done} (step : Step shared self thread act done) (was : thread.Unanswered) :
    done.thread.Unanswered := by
  cases step with
  | cgwHandles request here event conn had handled handling =>
      intro connecting
      have begun : conn.phase ≠ .connecting := Connection.not_connecting_of_after had
      exact absurd connecting begun
  | _ => trivial

private theorem unanswered_of_reaches {requests : List Api} {guard : State → Move → Prop}
    {state : State} (reached : (systemWith requests).Reaches guard state) :
    state.Each (fun _ thread => thread.Unanswered) := by
  refine Machine.Reaches.invariant ?_ ?_ reached
  · intro index thread there
    rcases initial_at there with rfl | ⟨api, rfl⟩
    · trivial
    · exact fun _ => rfl
  · intro before move after _ unanswered _ taken
    obtain ⟨thread, done, here, step, rfl⟩ := Step.of_move taken
    refine unanswered.apply here ?_ (fun _ _ _ _ was => was) ?_
    · exact step.unanswered (unanswered _ _ here)
    · intro other found _ started
      cases found with
      | cgw request =>
          obtain ⟨api, caller, same⟩ := step.spawned_start started
          cases same
          exact fun _ => rfl
      | _ => trivial

/-! ### How ORCH_TDR_RUN is entered -/

/-- Where the obligation to watch comes from when it holds after a step. -/
inductive Origin (before : State) (thread : Thread) (done : Done) : Prop
  | was (connected : tdrRunConnected before.shared.past = true)
      (running : before.shared.gStat = .orchTdrRun)
  | starts (caller : Nat) (fresh : .cgwStart .tdrStat caller ∈ done.spawned)
      (clears : done.thread.HandsOver ∨
        FlagClears before ∧ ∃ request, thread = .cgw request ∧ request.api ≠ .tdrStat)
  | takes (next : CgwMsgThread) (made : done.thread = .cgw next)
      (stat : next.api = .tdrStat) (outstanding : ¬ next.conn.Ended)
      (polling : next.pc = .polling)

private theorem Handling.origin {before : State} {self : Nat} {thread : CgwMsgThread}
    {event : CgwEvent} {handled : Handled} {conn : Connection}
    (handling : Handling (logConnect before.shared thread.api event) self thread.upgrade
      thread.api event handled)
    (had : thread.conn.after event = some conn)
    (keeps : thread.KeepsWatch before (.connection event))
    (unanswered : (Thread.cgw thread).Unanswered)
    (connected : tdrRunConnected handled.shared.past = true)
    (running : handled.shared.gStat = .orchTdrRun) :
    Origin before (.cgw thread)
      ⟨handled.shared,
        .cgw
          { thread with
            conn :=
              { conn with
                closeImmediately := conn.closeImmediately || handled.flagged
                raised := conn.raised || handled.raised } },
        handled.started⟩ := by
  obtain ⟨api, upgrade, pc, old, postData⟩ := thread
  dsimp only at handling had
  cases handling with
  | closed _ => exact .was connected running
  | pkgNewForeign body foreign =>
      have before_ : tdrRunConnected before.shared.past = true := connected
      rw [keeps.1 rfl foreign] at before_
      contradiction
  | pkgStatReady body ready => exact .was connected running
  | tdrRunConnects failed =>
      exact .starts upgrade (List.mem_singleton_self _)
        (.inr ⟨keeps.1 rfl, _, rfl, by simp⟩)
  | tdrRunReplied body => exact .was connected running
  | tdrStatConnects =>
      obtain ⟨connecting, rfl⟩ := Connection.after_connect had
      refine .takes _ rfl rfl ?_ (keeps.2 rfl)
      have open_ : old.replied = false := unanswered connecting
      simp [Connection.Ended, open_]
  | tdrStatBadJson body bad => exact .was connected running
  | tdrStatReports body result reported verdict carried settled =>
      obtain ⟨_, rfl⟩ := Connection.after_reply had
      obtain ⟨_, _, _, _, verdicts⟩ := tdrStatReport_keeps settled
      rcases verdicts with ⟨_, rfl⟩ | ⟨_, rfl⟩ | ⟨_, rfl⟩
      · cases running
      · refine .starts upgrade (List.mem_singleton_self _) (.inl ⟨rfl, ?_, .inl rfl⟩)
        have polling : pc = .polling := (keeps.2 rfl).1
        simp [CgwMsgThread.InLoop, polling]
      · cases running
  | _ => cases running

private theorem Step.origin {before : State} {index : Nat} {thread : Thread} {act : Act}
    {done : Done} (step : Step before.shared index thread act done)
    (keeps : thread.KeepsWatch before act) (unanswered : thread.Unanswered)
    (connected : tdrRunConnected done.shared.past = true)
    (running : done.shared.gStat = .orchTdrRun) : Origin before thread done := by
  have kept {old after : Shared} (keeps : Keeps old after)
      (sameStat : old.gStat = before.shared.gStat) (samePast : old.past = before.shared.past)
      (connected : tdrRunConnected after.past = true) (running : after.gStat = .orchTdrRun) :
      Origin before thread done := by
    refine .was ?_ ((keeps.gStat.trans sameStat).symm.trans running)
    rw [← samePast]
    rcases keeps.past with same | ⟨peer, bytes, sent⟩
    · exact same ▸ connected
    · rw [sent] at connected
      exact connected
  cases step with
  | mainAccepts nc after same => exact kept same rfl rfl connected running
  | mainAnnounces nc after same => exact kept same rfl rfl connected running
  | mainManifest root effect accepts =>
      rw [accepts.gStat] at running
      cases running
  | mainDownloading => cases running
  | hmiServes act after same => exact kept same rfl rfl connected running
  | hmiStarts root after respLen same => exact kept same rfl rfl connected running
  | hmiActs request => cases running
  | hmiUnlocks request after same => exact kept same rfl rfl connected running
  | monitorServes act after same => exact kept same rfl rfl connected running
  | cgwHandles request here event conn had handled handling =>
      exact handling.origin had keeps unanswered connected running
  | downloaderReports request here succeeded => cases running
  | uploaderSets request here => cases running
  | _ => exact .was connected running

/-! ### What the watching thread does -/

private theorem Step.watching {before : State} {index : Nat} {thread : CgwMsgThread} {act : Act}
    {done : Done} (step : Step before.shared index (.cgw thread) act done)
    (watches : thread.Watches before) (keeps : thread.KeepsWatch before act)
    (running : before.shared.gStat = .orchTdrRun) (still : done.shared.gStat = .orchTdrRun) :
    (∃ next, done.thread = .cgw next ∧ next.api = .tdrStat ∧ ¬ next.conn.Ended ∧
        (next.pc ≠ .reset ∧ next.pc ≠ .freeing ∧ next.pc ≠ .done) ∧
        (next.pc = .start ∨ next.pc = .test → FlagClears before)) ∨
      ∃ caller, .cgwStart .tdrStat caller ∈ done.spawned ∧ done.thread.HandsOver := by
  obtain ⟨stat, outstanding, alive, polls⟩ := watches
  cases step with
  | cgwRequests _ here payload =>
      exact .inl ⟨_, rfl, stat, outstanding, by simp, fun _ => polls (.inl here)⟩
  | cgwLeaves _ here raised =>
      rw [stat, (keeps stat running outstanding).1 here] at raised
      contradiction
  | cgwStays _ here lowered => exact .inl ⟨_, rfl, stat, outstanding, by simp, by simp⟩
  | cgwWaits _ t here => exact .inl ⟨_, rfl, stat, outstanding, by simp, by simp⟩
  | cgwAwaited _ t here => exact .inl ⟨_, rfl, stat, outstanding, by simp, by simp⟩
  | cgwLocks _ here => exact .inl ⟨_, rfl, stat, outstanding, by simp, by simp⟩
  | cgwHandles _ here event conn had handled handling =>
      have polling : thread.pc = .polling := here.resolve_right alive.2.1
      obtain ⟨api, upgrade, pc, old, postData⟩ := thread
      dsimp only at stat polling
      subst stat polling
      cases handling with
      | closed => exact absurd (keeps rfl running).1 outstanding
      | tdrStatFails => cases still
      | tdrStatConnects =>
          obtain ⟨connecting, rfl⟩ := Connection.after_connect had
          refine .inl ⟨_, rfl, rfl, ?_, by simp, by simp⟩
          have open_ : old.replied = false := Bool.eq_false_iff.mpr (not_or.mp outstanding).1
          simp [Connection.Ended, open_]
      | tdrStatBadJson body bad =>
          have carried := (keeps.2 rfl).2 running
          rw [bad] at carried
          contradiction
      | tdrStatReports body result reported verdict carried settled =>
          obtain ⟨_, rfl⟩ := Connection.after_reply had
          obtain ⟨_, _, _, _, verdicts⟩ := tdrStatReport_keeps settled
          rcases verdicts with ⟨_, rfl⟩ | ⟨_, rfl⟩ | ⟨_, rfl⟩
          · cases still
          · exact .inr ⟨upgrade, List.mem_singleton_self _, rfl, by simp [CgwMsgThread.InLoop],
              .inl rfl⟩
          · cases still
  | cgwUnlocks _ here closed =>
      exact .inl ⟨_, rfl, stat, outstanding, by simp,
        fun _ => (keeps stat running outstanding).2 here⟩
  | cgwResets _ here => exact absurd here alive.1
  | cgwFreed _ here closed => exact absurd here alive.2.1

/-! ### Runs -/

/-- In the guard, a status request in `mg_mgr_free` has only its close, and that
with somebody to clear the flag when another request is still to test it. -/
theorem Step.late {before : State} {index : Nat} {request : CgwMsgThread} {act : Act}
    {done : Done} (step : Step before.shared index (.cgw request) act done)
    (keeps : request.KeepsWatch before act) (running : before.shared.gStat = .orchTdrRun)
    (tests : ∃ other ∈ before.threads, other.TestsNext) (stat : request.api = .tdrStat)
    (freeing : request.pc = .freeing) (opened : request.conn.phase ≠ .closed) :
    ∃ other ∈ before.threads, other.HandsOver := by
  cases step with
  | cgwFreed _ here closed => exact absurd closed opened
  | cgwHandles _ here event conn had handled handling =>
      cases event with
      | connect failed =>
          have polling := keeps.2 stat
          rw [freeing] at polling
          cases polling
      | reply body =>
          have polling := (keeps.2 stat).1
          rw [freeing] at polling
          cases polling
      | close =>
          rcases (keeps stat running).2 freeing with hands | nobody
          · exact hands
          · obtain ⟨other, member, tested⟩ := tests
            exact absurd tested (nobody other member)
  | _ => simp_all

theorem Monitored.step {before : State} {index : Nat} {thread : Thread} {act : Act}
    {done : Done} (monitored : Monitored before) (here : before.At index thread)
    (step : Step before.shared index thread act done)
    (keeps : thread.KeepsWatch before act) (unanswered : thread.Unanswered) :
    Monitored (before.apply index done) := by
  intro connected running
  have fresh {caller : Nat} (started : .cgwStart .tdrStat caller ∈ done.spawned)
      (clears : FlagClears (before.apply index done)) :
      ∃ next, .cgw next ∈ (before.apply index done).threads ∧
        next.Watches (before.apply index done) := by
    refine ⟨_, List.mem_append_right _ started, rfl, ?_, by simp, fun _ => clears⟩
    simp [Connection.Ended, Connection.fresh]
  have handed (hands : done.thread.HandsOver) : FlagClears (before.apply index done) :=
    .inr ⟨_, List.mem_of_getElem? here.apply_self, hands⟩
  cases step.origin keeps unanswered connected running with
  | starts caller started clears =>
      rcases clears with hands | ⟨clears, request, rfl, other⟩
      · exact fresh started (handed hands)
      · refine fresh started (clears.apply here step ?_)
        intro found same stat
        cases same
        exact absurd stat other
  | takes next made stat outstanding polling =>
      refine ⟨next, made ▸ List.mem_of_getElem? here.apply_self, stat, outstanding, ?_, ?_⟩
      · simp [polling]
      · simp [polling]
  | was connected_ running_ =>
      obtain ⟨request, member, watches⟩ := monitored connected_ running_
      obtain ⟨position, there⟩ := List.mem_iff_getElem?.mp member
      by_cases same : position = index
      · subst same
        obtain rfl := Pool.At.unique there here
        rcases step.watching watches keeps running_ running with
          ⟨next, made, stat, outstanding, alive, polls⟩ | ⟨caller, started, hands⟩
        · refine ⟨next, made ▸ List.mem_of_getElem? here.apply_self, stat, outstanding, alive, ?_⟩
          intro tests
          refine (polls tests).apply here step ?_
          intro found isSelf _ freeing
          cases isSelf
          exact absurd freeing watches.alive.2.1
        · exact fresh started (handed hands)
      · refine ⟨request, List.mem_of_getElem? (Pool.At.apply_other there same), watches.stat,
          watches.outstanding, watches.alive, ?_⟩
        intro tests
        refine (watches.polls tests).apply here step ?_
        intro found isActor stat freeing opened
        subst isActor
        exact step.late keeps running_
          ⟨_, member, watches.stat, watches.outstanding, tests⟩ stat freeing opened

/-- In runs in which watch is kept, a status request is outstanding, and will
still be polled for, whenever the upgrade runs. -/
theorem monitored_of_keepsWatch {state : State} (reached : system.Reaches KeepsWatch state) :
    Monitored state := by
  refine Machine.Reaches.invariant ?_ ?_ reached
  · intro connected
    cases connected
  · intro before move after earlier monitored allowed taken
    obtain ⟨thread, done, here, step, rfl⟩ := Step.of_move taken
    exact monitored.step here step (allowed thread here)
      (unanswered_of_reaches earlier _ _ here)

/-- A first report in progress whose successor gets past its loop test between
the reset of the flag and the close of the first connection. -/
def reportInProgress : List Move :=
  upgradeRuns ++ [(7, .tick), (7, .tick), (7, .tick)] ++
    [(7, .connection (statusReply [progressMember 5])), (7, .tick)] ++ resets 7 ++ begins 8 ++
    [(8, .tick), (7, .connection .close), (7, .tick)]

set_option maxRecDepth 4096 in
theorem reportInProgress_monitored :
    ∃ state, system.run system.initial reportInProgress = some state ∧
      tdrRunConnected state.shared.past = true ∧ state.shared.gStat = .orchTdrRun ∧
        Monitored state := by
  refine ⟨_, rfl, rfl, rfl, ?_⟩
  refine monitored_of_keepsWatch ?_
  refine Machine.Reaches.of_run reportInProgress .initial ?_ rfl
  decide

/-- A status request that is answered with a text that is not JSON. -/
def answeredInText : List Move :=
  upgradeRuns ++ polls 7 [.reply ⟨text "busy", none⟩]

theorem answered_in_text_abandoned :
    ¬ ∀ state, system.Reachable state → Monitored state := by
  intro always
  have ran : ∃ state, system.run system.initial answeredInText = some state ∧
      tdrRunConnected state.shared.past = true ∧ state.shared.gStat = .orchTdrRun ∧
        ∀ thread ∈ state.threads, ¬ thread.Outstanding :=
    ⟨_, rfl, rfl, rfl, by decide⟩
  obtain ⟨state, ended, connected, running, none_⟩ := ran
  obtain ⟨thread, member, watches⟩ :=
    always state (Machine.Reachable.of_run ended) connected running
  exact none_ _ member ⟨watches.stat, watches.outstanding⟩

end DlcServer
