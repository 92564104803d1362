/-
Who is between setting `g_stat_lock` and clearing it.

`core_state_handler` is to run under the lock.  The places that set the lock
write 1 to it whatever is there, so the rule can only be kept by a run in which
each of them happens to find it clear.
-/

import DlcServer.Library.AdvisoryLock
import DlcServer.Steps

namespace DlcServer

open Library

/-! ### Sections -/

/-- The thread has set the lock and not cleared it yet. -/
def Thread.Critical : Thread → Prop
  | .main .polling | .main (.accepting _) | .main .newPkg => True
  | .hmi (.acting _) | .hmi (.unlock _) => True
  | .cgw thread => thread.pc = .polling
  | .downloader thread => thread.pc = .report ∨ thread.pc = .unlock
  | .uploader thread => thread.pc = .set ∨ thread.pc = .unlock
  | _ => False

def Thread.Locks : Thread → Act → Prop
  | .main .set, .tick => True
  | .hmi (.lock _), .tick => True
  | .cgw thread, .tick => thread.pc = .lock
  | .downloader thread, .tick => thread.pc = .lock
  | .uploader thread, .tick => thread.pc = .lock
  | _, _ => False

/-- The events in whose handlers `core_state_handler` is called. -/
def CgwEvent.CallsCore (api : Api) : CgwEvent → Prop
  | .connect _ => api = .tdrRun
  | .reply body => api = .tdrStat ∧ body.result ≠ none
  | .close => False

/-- Such an event comes in the last poll, the one of `mg_mgr_free`, which is
made without the lock. -/
def Thread.CallsCoreFreeing : Thread → Act → Prop
  | .cgw thread, .connection event => thread.pc = .freeing ∧ event.CallsCore thread.api
  | _, _ => False

/-- `core_state_handler` was entered in a step between these two states. -/
def CoreEntered (before after : State) : Prop :=
  coreCalls after.shared.past ≠ coreCalls before.shared.past

structure LockDiscipline (before : State) (move : Move) (after : State) : Prop where
  exclusive : after.AtMostOne Thread.Critical
  coreLocked : CoreEntered before after → before.shared.gStatLock = some move.1
  clearsOwn : ∀ holder, before.shared.gStatLock = some holder →
    after.shared.gStatLock = none → holder = move.1

/-- A step that sets the lock finds it clear, and `mg_mgr_free` delivers no
event that calls `core_state_handler`. -/
def FindsLockClear (before : State) (move : Move) : Prop :=
  ∀ thread, before.At move.1 thread →
    (thread.Locks move.2 → before.shared.gStatLock = none) ∧
      ¬ thread.CallsCoreFreeing move.2

/-! ### Steps and the lock -/

abbrev UsesLock := Pool.LockUse Shared.gStatLock Thread.Critical

private theorem Handling.started_outside {shared : Shared} {self caller : Nat} {api : Api}
    {event : CgwEvent} {handled : Handled}
    (handling : Handling shared self caller api event handled) {found : Thread}
    (fresh : found ∈ handled.started) : ¬ found.Critical := by
  rcases handling.started_cases fresh with ⟨_, rfl⟩ | ⟨_, rfl⟩
  · simp [Thread.uploaderStart, Thread.Critical]
  · simp [Thread.cgwStart, Thread.Critical]

private theorem Step.spawned_outside {shared : Shared} {self : Nat} {thread : Thread} {act : Act}
    {done : Done} (step : Step shared self thread act done) :
    ∀ found ∈ done.spawned, ¬ found.Critical := by
  cases step with
  | mainManifest root effect accepts =>
      simp [accepts.started, Thread.downloaderStart, Thread.Critical]
  | cgwHandles thread here event conn had handled handling =>
      exact fun found fresh => handling.started_outside fresh
  | _ => simp [Thread.cgwStart, Thread.Critical]

private theorem Step.lockUse {shared : Shared} {self : Nat} {thread : Thread} {act : Act}
    {done : Done} (step : Step shared self thread act done) :
    UsesLock shared self thread done := by
  cases step with
  | mainAccepts nc after keeps => exact .stays (by simp [Thread.Critical]) keeps.gStatLock
  | mainAnnounces nc after keeps => exact .stays (by simp [Thread.Critical]) keeps.gStatLock
  | mainManifest root effect accepts =>
      exact .stays (by simp [Thread.Critical]) accepts.gStatLock
  | mainLocks => exact .takes (by simp [Thread.Critical]) trivial rfl
  | mainUnlocks => exact .gives trivial (by simp [Thread.Critical]) rfl
  | hmiServes act after keeps => exact .stays Iff.rfl keeps.gStatLock
  | hmiStarts root after respLen keeps ready start =>
      exact .stays (by simp [Thread.Critical]) keeps.gStatLock
  | hmiLocks request => exact .takes (by simp [Thread.Critical]) trivial rfl
  | hmiUnlocks request after keeps =>
      exact .gives trivial (by simp [Thread.Critical]) keeps.gStatLock
  | monitorServes act after keeps => exact .stays Iff.rfl keeps.gStatLock
  | cgwLocks thread here => exact .takes (by simp [Thread.Critical, here]) rfl rfl
  | cgwHandles thread here event conn had handled handling =>
      exact .stays Iff.rfl (handling.frame.gStatLock.trans (logConnect_frame _ _ _).gStatLock)
  | cgwUnlocks thread here closed =>
      exact .gives here (by simp [Thread.Critical]) rfl
  | downloaderLocks thread here =>
      exact .takes (by simp [Thread.Critical, here]) (.inl rfl) rfl
  | downloaderUnlocks thread here => exact .gives (.inr here) (by simp [Thread.Critical]) rfl
  | uploaderLocks thread here =>
      exact .takes (by simp [Thread.Critical, here]) (.inl rfl) rfl
  | uploaderUnlocks thread here => exact .gives (.inr here) (by simp [Thread.Critical]) rfl
  | downloaderFails thread package here =>
      refine .stays ?_ rfl
      rcases here with start | ⟨⟨rest, reading⟩, _⟩
      · simp [Thread.Critical, start]
      · simp [Thread.Critical, reading]
  | _ => exact .stays (by simp_all [Thread.Critical]) (by simp)

private theorem Step.locks_iff {shared : Shared} {self : Nat} {thread : Thread} {act : Act}
    {done : Done} (step : Step shared self thread act done) :
    thread.Locks act ↔ ¬ thread.Critical ∧ done.thread.Critical := by
  cases step with
  | downloaderFails thread package here =>
      rcases here with start | ⟨⟨rest, reading⟩, _⟩ <;>
        simp_all [Thread.Locks, Thread.Critical]
  | hmiServes act after keeps => cases act <;> simp [Thread.Locks, Thread.Critical]
  | monitorServes act after keeps => simp [Thread.Locks, Thread.Critical]
  | cgwHandles thread here event conn had handled handling =>
      simp [Thread.Locks, Thread.Critical]
  | _ => simp_all [Thread.Locks, Thread.Critical]

/-! ### Steps and `core_state_handler` -/

private theorem coreEntered_of_callsCore {shared : Shared} {self caller : Nat} {api : Api}
    {event : CgwEvent} {handled : Handled}
    (handling : Handling shared self caller api event handled) (calls : event.CallsCore api) :
    coreCalls handled.shared.past ≠ coreCalls shared.past := by
  cases handling with
  | tdrStatReports body result reported verdict carried settled =>
      obtain ⟨_, _, _, keeps, verdicts⟩ := tdrStatReport_keeps settled
      have same := keeps.coreCalls
      rcases verdicts with ⟨_, rfl⟩ | ⟨_, rfl⟩ | ⟨_, rfl⟩ <;> simp_all [coreCalls]
  | tdrStatBadJson body bad => exact absurd bad calls.2
  | tdrRunConnects failed => simp [coreCalls]
  | _ => simp_all [CgwEvent.CallsCore]

private theorem callsCore_of_coreEntered {shared : Shared} {self caller : Nat} {api : Api}
    {event : CgwEvent} {handled : Handled}
    (handling : Handling shared self caller api event handled)
    (entered : coreCalls handled.shared.past ≠ coreCalls shared.past) :
    event.CallsCore api := by
  cases handling with
  | tdrStatReports body result reported verdict carried settled =>
      exact ⟨rfl, by simp [carried]⟩
  | tdrRunConnects failed => rfl
  | _ => simp [cgwClosed] at entered

private theorem Step.critical_of_coreEntered {shared : Shared} {self : Nat} {thread : Thread}
    {act : Act} {done : Done} (step : Step shared self thread act done)
    (entered : coreCalls done.shared.past ≠ coreCalls shared.past) :
    thread.Critical ∨ thread.CallsCoreFreeing act := by
  cases step with
  | cgwHandles thread here event conn had handled handling =>
      rcases here with polling | freeing
      · exact .inl polling
      · have logged : coreCalls (logConnect shared thread.api event).past =
            coreCalls shared.past := by
          cases event <;> rfl
        exact .inr ⟨freeing, callsCore_of_coreEntered handling (logged ▸ entered)⟩
  | mainManifest root effect accepts => exact .inl trivial
  | hmiActs request => exact .inl trivial
  | downloaderReports thread here succeeded => exact .inl (.inl here)
  | mainAccepts nc after keeps => exact absurd keeps.coreCalls entered
  | mainAnnounces nc after keeps => exact absurd keeps.coreCalls entered
  | hmiServes act after keeps => exact absurd keeps.coreCalls entered
  | hmiStarts root after respLen keeps ready start => exact absurd keeps.coreCalls entered
  | hmiUnlocks request after keeps => exact absurd keeps.coreCalls entered
  | monitorServes act after keeps => exact absurd keeps.coreCalls entered
  | _ => simp [coreCalls] at entered

private theorem Step.coreEntered_of_freeing {shared : Shared} {self : Nat} {thread : Thread}
    {act : Act} {done : Done} (step : Step shared self thread act done)
    (calls : thread.CallsCoreFreeing act) :
    coreCalls done.shared.past ≠ coreCalls shared.past := by
  cases step with
  | cgwHandles thread here event conn had handled handling =>
      have logged : coreCalls (logConnect shared thread.api event).past =
          coreCalls shared.past := by
        cases event <;> rfl
      exact logged ▸ coreEntered_of_callsCore handling calls.2
  | _ => simp_all [Thread.CallsCoreFreeing]

private theorem Thread.not_critical_of_freeing {thread : Thread} {act : Act}
    (calls : thread.CallsCoreFreeing act) : ¬ thread.Critical := by
  cases thread with
  | cgw thread =>
      cases act with
      | connection event =>
          simp only [Thread.CallsCoreFreeing] at calls
          simp [Thread.Critical, calls.1]
      | _ => cases calls
  | _ => cases act <;> cases calls

/-! ### Runs -/

private theorem lockOwned_initial (requests : List Api) :
    (systemWith requests).initial.Owned Shared.gStatLock Thread.Critical := by
  constructor
  · intro index thread there inside
    rcases initial_at there with rfl | ⟨api, rfl⟩
    · cases inside
    · simp [Thread.cgwStart, Thread.Critical] at inside
  · intro index wrote
    cases wrote

private theorem lockOwned_step {before after : State} {move : Move} {requests : List Api}
    (owned : before.Owned Shared.gStatLock Thread.Critical)
    (taken : (systemWith requests).step before move = some after)
    (clear : FindsLockClear before move) :
    after.Owned Shared.gStatLock Thread.Critical := by
  obtain ⟨thread, done, here, step, rfl⟩ := Step.of_move taken
  refine owned.apply here step.lockUse step.spawned_outside ?_
  intro outside inside
  exact (clear thread here).1 (step.locks_iff.mpr ⟨outside, inside⟩)

private theorem lockDiscipline_iff {before after : State} {move : Move} {requests : List Api}
    (owned : before.Owned Shared.gStatLock Thread.Critical)
    (taken : (systemWith requests).step before move = some after) :
    LockDiscipline before move after ↔ FindsLockClear before move := by
  constructor
  · intro rule thread here
    rcases Step.of_move_at taken here with ⟨done, step, rfl⟩
    constructor
    · intro locks
      by_contra held
      obtain ⟨outside, inside⟩ := step.locks_iff.mp locks
      exact owned.not_atMostOne_of_held here outside inside held rule.exclusive
    · intro calls
      have locked := rule.coreLocked (step.coreEntered_of_freeing calls)
      obtain ⟨holder, there, inside⟩ := owned.owner _ locked
      obtain rfl := here.unique there
      exact Thread.not_critical_of_freeing calls inside
  · intro clear
    have next := lockOwned_step owned taken clear
    obtain ⟨thread, done, here, step, rfl⟩ := Step.of_move taken
    refine ⟨next.atMostOne, ?_, ?_⟩
    · intro entered
      rcases step.critical_of_coreEntered entered with inside | calls
      · exact owned.writer _ _ here inside
      · exact absurd calls (clear thread here).2
    · intro holder held cleared
      cases step.lockUse with
      | stays _ kept =>
          rw [Pool.apply_shared, kept, held] at cleared
          contradiction
      | takes _ _ written =>
          rw [Pool.apply_shared, written] at cleared
          contradiction
      | gives inside _ _ =>
          have wrote := owned.writer _ _ here inside
          rw [held] at wrote
          exact Option.some.inj wrote

/-- A run keeps the rule of the lock exactly as long as every setting of it
finds it clear and `mg_mgr_free` enters no `core_state_handler`. -/
theorem lockDiscipline_along_iff (requests : List Api) (moves : List Move) :
    (systemWith requests).Along LockDiscipline (systemWith requests).initial moves ↔
      (systemWith requests).Along (fun before move _ => FindsLockClear before move)
        (systemWith requests).initial moves := by
  refine Machine.along_iff_of_invariant ?_ ?_ (lockOwned_initial requests) moves
  · intro before move after owned taken
    exact lockDiscipline_iff owned taken
  · intro before move after owned taken rule
    exact lockOwned_step owned taken ((lockDiscipline_iff owned taken).mp rule)

/-- The main loop accepts a manifest under the lock, and the downloader it
starts runs through before the main loop clears it. -/
def downloaderOvertakes : List Move :=
  [(0, .tick), (0, .tick), (0, .dmcAccept 0), (0, .tick),
    (0, .dmcManifest StubManifest.mani.root), (3, .popen true), (3, .eof)]

theorem downloader_sets_held_lock :
    ¬ ∀ (requests : List Api) (moves : List Move),
      (systemWith requests).Along LockDiscipline (systemWith requests).initial moves := by
  intro always
  have along := always [] (downloaderOvertakes ++ [(3, .tick)])
  have ran : ∃ before after, system.run system.initial downloaderOvertakes = some before ∧
      system.step before (3, .tick) = some after ∧
        after.At 0 (.main .newPkg) ∧
          ∃ thread, after.At 3 (.downloader thread) ∧ thread.pc = .report :=
    ⟨_, _, rfl, rfl, rfl, _, rfl, rfl⟩
  obtain ⟨before, after, earlier, taken, first, thread, second, report⟩ := ran
  have rule := along.of_run earlier taken
  have same := rule.exclusive 0 3 _ _ first second trivial (.inl report)
  contradiction

end DlcServer
