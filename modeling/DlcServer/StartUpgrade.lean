/-
How many /tdr/run requests one finished upload leads to.

START_UPGRADE tests `g_stat` and starts a request under the lock later, without
changing the state it has tested: the state is left by the connect event of the
request.  Every START_UPGRADE that is tested before that event starts one more.
-/

import DlcServer.Steps

namespace DlcServer

open Library

/-! ### The rule -/

/-- The /tdr/run requests started since the last upload finished. -/
def startsSinceUpload : List Event → Nat
  | [] => 0
  | .uploaded :: _ => 0
  | .started .tdrRun :: past => startsSinceUpload past + 1
  | _ :: past => startsSinceUpload past

def OneRunPerUpload (state : State) : Prop :=
  startsSinceUpload state.shared.past ≤ 1

/-- A START_UPGRADE that finds the package ready is the first one to do so
since the last upload. -/
def Thread.StartsFirst (shared : Shared) : Thread → Act → Prop
  | .hmi .serving, .hmiRecv root =>
      shared.gStat = .orchPkgReady → isStartUpgrade shared root = true →
        startsSinceUpload shared.past = 0
  | _, _ => True

instance (shared : Shared) (thread : Thread) (act : Act) :
    Decidable (thread.StartsFirst shared act) :=
  match thread with
  | .hmi pc =>
      match pc with
      | .serving =>
          match act with
          | .hmiRecv _ => inferInstanceAs (Decidable (_ → _ → _))
          | .tick | .dmcAccept _ | .dmcManifest _ | .hmiAccept _ | .statusReport _
          | .connection _ | .popen _ | .eof | .exit _ _ => inferInstanceAs (Decidable True)
      | .start | .deaf | .waiting _ _ | .lock _ | .acting _ | .unlock _ =>
          inferInstanceAs (Decidable True)
  | .main _ | .monitor _ | .cgw _ | .downloader _ | .uploader _ =>
      inferInstanceAs (Decidable True)

def StartsFirst (before : State) (move : Move) : Prop :=
  ∀ thread ∈ before.threads[move.1]?, thread.StartsFirst before.shared move.2

instance (before : State) (move : Move) : Decidable (StartsFirst before move) :=
  inferInstanceAs (Decidable (∀ thread ∈ before.threads[move.1]?, _))

/-! ### One thread serves the HMI -/

/-- The thread has the HMI port. -/
def Thread.Listens : Thread → Prop
  | .hmi .start | .hmi .deaf => False
  | .hmi _ => True
  | _ => False

/-- The thread is between the test and the call of START_UPGRADE. -/
def Thread.HasTested : Thread → Prop
  | .hmi (.waiting _ _) | .hmi (.lock _) | .hmi (.acting _) => True
  | _ => False

theorem Thread.HasTested.listens {thread : Thread} (tested : thread.HasTested) :
    thread.Listens := by
  cases thread with
  | hmi pc => cases pc <;> first | exact trivial | cases tested
  | _ => cases tested

structure OneListener (state : State) : Prop where
  one : state.AtMostOne Thread.Listens
  bound : ∀ index thread, state.At index thread → thread.Listens →
    state.shared.hmiBound = true

private theorem Handling.started_deaf {shared : Shared} {self caller : Nat} {api : Api}
    {event : CgwEvent} {handled : Handled}
    (handling : Handling shared self caller api event handled) {found : Thread}
    (fresh : found ∈ handled.started) : ¬ found.Listens := by
  rcases handling.started_cases fresh with ⟨_, rfl⟩ | ⟨_, rfl⟩
  · simp [Thread.uploaderStart, Thread.Listens]
  · simp [Thread.cgwStart, Thread.Listens]

/-- A thread comes to listen only by taking the port, and the port stays
taken. -/
theorem Step.listens {shared : Shared} {self : Nat} {thread : Thread} {act : Act}
    {done : Done} (step : Step shared self thread act done) :
    (shared.hmiBound = true → done.shared.hmiBound = true) ∧
      (done.thread.Listens → thread.Listens ∨
        shared.hmiBound = false ∧ done.shared.hmiBound = true) ∧
      ∀ found ∈ done.spawned, ¬ found.Listens := by
  cases step with
  | mainAccepts nc after keeps => simp [keeps.hmiBound, Thread.Listens]
  | mainAnnounces nc after keeps => simp [keeps.hmiBound, Thread.Listens]
  | mainManifest root effect accepts =>
      simp [accepts.hmiBound, accepts.started, Thread.Listens, Thread.downloaderStart]
  | hmiBinds free => simp [free]
  | hmiServes act after keeps => simp [keeps.hmiBound, Thread.Listens]
  | hmiStarts root after respLen keeps ready start => simp [keeps.hmiBound, Thread.Listens]
  | hmiUnlocks request after keeps => simp [keeps.hmiBound, Thread.Listens]
  | monitorServes act after keeps => simp [keeps.hmiBound, Thread.Listens]
  | cgwHandles thread here event conn had handled handling =>
      have same := handling.frame.hmiBound.trans (logConnect_frame _ _ _).hmiBound
      exact ⟨fun bound => same.trans bound, fun listens => absurd listens id,
        fun found fresh => handling.started_deaf fresh⟩
  | _ => simp [Thread.Listens, Thread.cgwStart]

theorem oneListener_of_reaches {requests : List Api} {guard : State → Move → Prop}
    {state : State} (reached : (systemWith requests).Reaches guard state) :
    OneListener state := by
  have start : OneListener (systemWith requests).initial := by
    constructor
    · intro first second left right atFirst _ listens _
      rcases initial_at atFirst with rfl | ⟨api, rfl⟩ <;> cases listens
    · intro index thread there listens
      rcases initial_at there with rfl | ⟨api, rfl⟩ <;> cases listens
  refine Machine.Reaches.invariant start ?_ reached
  intro before move after _ listener _ taken
  obtain ⟨thread, done, here, step, rfl⟩ := Step.of_move taken
  obtain ⟨stays, comes, started⟩ := step.listens
  constructor
  · by_cases binds : before.shared.hmiBound = false
    · refine Pool.AtMostOne.take here ?_ started
      intro other found _ there listens
      have bound := listener.bound other found there listens
      rw [binds] at bound
      contradiction
    · refine listener.one.keep here ?_ started
      intro listens
      exact (comes listens).resolve_right (fun fresh => binds fresh.1)
  · intro index found there listens
    rw [Pool.apply_shared]
    rcases here.of_apply there with ⟨_, rfl⟩ | ⟨_, old⟩ | ⟨_, fresh⟩
    · rcases comes listens with already | ⟨_, bound⟩
      · exact stays (listener.bound _ _ here already)
      · exact bound
    · exact stays (listener.bound _ _ old listens)
    · exact absurd listens (started found fresh)

/-! ### Steps and the count -/

theorem Keeps.counts {before after : Shared} (keeps : Keeps before after) :
    startsSinceUpload after.past = startsSinceUpload before.past := by
  rcases keeps.past with same | ⟨peer, bytes, sent⟩
  · rw [same]
  · rw [sent]
    rfl

theorem Handling.counts {shared : Shared} {self caller : Nat} {api : Api}
    {event : CgwEvent} {handled : Handled}
    (handling : Handling shared self caller api event handled) :
    startsSinceUpload handled.shared.past = startsSinceUpload shared.past := by
  cases handling with
  | tdrStatReports body result reported verdict carried settled =>
      obtain ⟨_, _, _, keeps, verdicts⟩ := tdrStatReport_keeps settled
      have same := keeps.counts
      rcases verdicts with ⟨_, rfl⟩ | ⟨_, rfl⟩ | ⟨_, rfl⟩ <;>
        simpa [startsSinceUpload] using same
  | _ => simp [cgwClosed, startsSinceUpload]

/-- Only the call of START_UPGRADE counts; every other step leaves the count or
begins it again. -/
theorem Step.counts {shared : Shared} {self : Nat} {thread : Thread} {act : Act}
    {done : Done} (step : Step shared self thread act done) :
    (thread.HasTested ∧ ¬ done.thread.HasTested ∧
        startsSinceUpload done.shared.past = startsSinceUpload shared.past + 1) ∨
      startsSinceUpload done.shared.past = startsSinceUpload shared.past ∨
      startsSinceUpload done.shared.past = 0 := by
  cases step with
  | mainAccepts nc after keeps => exact .inr (.inl keeps.counts)
  | mainAnnounces nc after keeps => exact .inr (.inl keeps.counts)
  | mainManifest root effect accepts =>
      exact .inr (.inl (by simp [accepts.past, startsSinceUpload]))
  | hmiServes act after keeps => exact .inr (.inl keeps.counts)
  | hmiStarts root after respLen keeps ready start => exact .inr (.inl keeps.counts)
  | hmiActs request =>
      exact .inl ⟨trivial, id, by simp [startsSinceUpload]⟩
  | hmiUnlocks request after keeps => exact .inr (.inl keeps.counts)
  | monitorServes act after keeps => exact .inr (.inl keeps.counts)
  | cgwHandles thread here event conn had handled handling =>
      refine .inr (.inl (handling.counts.trans ?_))
      cases event <;> rfl
  | uploaderSets thread here => exact .inr (.inr rfl)
  | _ => exact .inr (.inl (by simp [startsSinceUpload]))

private theorem Step.hasTested {shared : Shared} {self : Nat} {thread : Thread} {act : Act}
    {done : Done} (step : Step shared self thread act done)
    (first : thread.StartsFirst shared act) (tested : done.thread.HasTested) :
    thread.HasTested ∨ startsSinceUpload shared.past = 0 := by
  cases step with
  | hmiStarts root after respLen keeps ready start => exact .inr (first ready start)
  | hmiWaits t request => exact .inl trivial
  | hmiAwaited t request => exact .inl trivial
  | hmiLocks request => exact .inl trivial
  | _ => cases tested

private theorem Step.spawned_not_tested {shared : Shared} {self : Nat} {thread : Thread} {act : Act}
    {done : Done} (step : Step shared self thread act done) :
    ∀ found ∈ done.spawned, ¬ found.HasTested := by
  intro found started tested
  exact step.listens.2.2 found started tested.listens

/-! ### Runs -/

/-- At most one request was started, and none while one is being prepared. -/
structure StartInvariant (state : State) : Prop where
  atMost : OneRunPerUpload state
  pending : state.Each (fun _ thread =>
    thread.HasTested → startsSinceUpload state.shared.past = 0)

theorem StartInvariant.step {before : State} {index : Nat} {thread : Thread} {act : Act}
    {done : Done} (invariant : StartInvariant before) (listener : OneListener before)
    (here : before.At index thread) (step : Step before.shared index thread act done)
    (first : thread.StartsFirst before.shared act) :
    StartInvariant (before.apply index done) := by
  constructor
  · unfold OneRunPerUpload
    rw [Pool.apply_shared]
    have atMost := invariant.atMost
    unfold OneRunPerUpload at atMost
    rcases step.counts with ⟨tested, _, counted⟩ | same | again
    · rw [counted, invariant.pending index thread here tested]
    · omega
    · omega
  · refine invariant.pending.apply here ?_ ?_ ?_
    · intro tested
      rw [Pool.apply_shared]
      have none_ : startsSinceUpload before.shared.past = 0 := by
        rcases step.hasTested first tested with already | none_
        · exact invariant.pending index thread here already
        · exact none_
      rcases step.counts with ⟨_, notTested, _⟩ | same | again
      · exact absurd tested notTested
      · exact same.trans none_
      · exact again
    · intro other found different there none_ tested
      rw [Pool.apply_shared]
      rcases step.counts with ⟨acting, _, _⟩ | same | again
      · exact absurd (listener.one _ _ _ _ there here tested.listens acting.listens) different
      · exact same.trans (none_ tested)
      · exact again
    · intro other found _ started tested
      exact absurd tested (step.spawned_not_tested found started)

/-- In runs whose START_UPGRADEs find the package ready at most once for each
upload, at most one /tdr/run request is started for it. -/
theorem oneRunPerUpload_of_startsFirst {state : State}
    (reached : system.Reaches StartsFirst state) : OneRunPerUpload state := by
  suffices invariant : StartInvariant state from invariant.atMost
  have start : StartInvariant system.initial := by
    refine ⟨Nat.zero_le 1, ?_⟩
    intro index thread there tested
    rcases initial_at there with rfl | ⟨api, rfl⟩ <;> cases tested
  refine Machine.Reaches.invariant start ?_ reached
  intro before move after earlier invariant allowed taken
  obtain ⟨thread, done, here, step, rfl⟩ := Step.of_move taken
  exact invariant.step (oneListener_of_reaches earlier) here step (allowed thread here)

theorem one_request_one_run :
    ∃ state, system.run system.initial (packageReady ++ hmiConnects ++ startUpgrades) =
      some state ∧ OneRunPerUpload state := by
  refine ⟨_, rfl, ?_⟩
  refine oneRunPerUpload_of_startsFirst ?_
  refine Machine.Reaches.of_run (packageReady ++ hmiConnects ++ startUpgrades) .initial ?_ rfl
  decide

/-- Two START_UPGRADEs before the first request has connected. -/
theorem two_requests_two_runs :
    ¬ ∀ state, system.Reachable state → OneRunPerUpload state := by
  intro always
  have ran : ∃ state,
      system.run system.initial
          (packageReady ++ hmiConnects ++ startUpgrades ++ startUpgrades) = some state ∧
        startsSinceUpload state.shared.past = 2 :=
    ⟨_, rfl, by decide⟩
  obtain ⟨state, ended, two⟩ := ran
  have rule := always state (Machine.Reachable.of_run ended)
  unfold OneRunPerUpload at rule
  omega

end DlcServer
