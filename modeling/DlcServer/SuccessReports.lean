/-
On which reports an upgrade is ended as a success.

The step property and the condition on the report are both about single steps;
`verdict_needs_full_iff` ties one to the other, and the runs follow.
-/

import DlcServer.Steps

namespace DlcServer

open Library

/-- `core_state_handler(ORCH_TDR_SUCC)` is called only while handling a report
that itself carries a progress of 100 or more. -/
def SuccessIsReported (before : State) (move : Move) (after : State) : Prop :=
  coreCalls after.shared.past = .orchTdrSucc :: coreCalls before.shared.past →
    ∃ body result, move.2 = .connection (.reply body) ∧ body.result = some result ∧
      CarriesFull result

/-- A report finds a stored progress below 100, or settles it with its first
member, or carries 100 itself. -/
def ReportsFreshly (before : State) (move : Move) : Prop :=
  ∀ request body result, before.At move.1 (.cgw request) →
    move.2 = .connection (.reply body) → request.api = .tdrStat →
      body.result = some result →
        before.shared.gCtx.hmiUpgradeStat.progressPercent < 100 ∨ SettlesProgress result ∨
          CarriesFull result

/-! ### Verdicts -/

private theorem updateMembers_verdict {stat after : BsEcuUpgradeStat} {items : List CJson}
    {verdict : Int} (done : updateMembers stat items = .ok (after, verdict)) :
    verdict = -1 ∨ verdict = 0 ∨ verdict = 1 := by
  induction items generalizing stat with
  | nil => exact .inr (.inl (Prod.mk.inj (Except.ok.inj done)).2.symm)
  | cons iterator next ih =>
      obtain ⟨name, _, ⟨_, _, failed⟩ | ⟨_, assigned, _, ⟨_, _, full⟩ | ⟨_, later⟩⟩⟩ :=
        updateMembers_cons done
      · exact .inl failed
      · exact .inr (.inr full)
      · exact ih later

private theorem tdrStatReport_succ_iff {shared reported : Shared} {result : CJson} {verdict : Stat}
    (done : tdrStatReport shared result = .ok (reported, verdict)) :
    (verdict = .orchTdrSucc → CarriesFull result) ↔
      shared.gCtx.hmiUpgradeStat.progressPercent < 100 ∨ SettlesProgress result ∨
        CarriesFull result := by
  obtain ⟨stat, number, updates, _, verdicts⟩ := tdrStatReport_keeps done
  rw [← verdict_needs_full_iff updates]
  have three := updateMembers_verdict updates
  rcases verdicts with ⟨low, rfl⟩ | ⟨zero, rfl⟩ | ⟨high, rfl⟩
  · have notOne : number ≠ 1 := by omega
    simp [notOne]
  · have notOne : number ≠ 1 := by omega
    simp [notOne]
  · have one : number = 1 := by omega
    simp [one]

/-! ### Steps -/

/-- Handlers that are not on a report never call `core_state_handler` on
success. -/
theorem Handling.success {shared : Shared} {self caller : Nat} {api : Api}
    {event : CgwEvent} {handled : Handled}
    (handling : Handling shared self caller api event handled)
    (succ : coreCalls handled.shared.past = .orchTdrSucc :: coreCalls shared.past) :
    ∃ body result reported, api = .tdrStat ∧ event = .reply body ∧
      body.result = some result ∧
      tdrStatReport (shared.setExit .tdrStat true) result = .ok (reported, .orchTdrSucc) := by
  cases handling with
  | tdrStatReports body result reported verdict carried settled =>
      obtain ⟨_, _, _, keeps, verdicts⟩ := tdrStatReport_keeps settled
      have same := keeps.coreCalls
      rcases verdicts with ⟨_, rfl⟩ | ⟨_, rfl⟩ | ⟨_, rfl⟩
      · simp [coreCalls] at succ
      · simp [coreCalls] at succ
      · exact ⟨body, result, reported, rfl, rfl, carried, settled⟩
  | _ => simp [cgwClosed, coreCalls] at succ

theorem Step.success {shared : Shared} {self : Nat} {thread : Thread} {act : Act}
    {done : Done} (step : Step shared self thread act done)
    (succ : coreCalls done.shared.past = .orchTdrSucc :: coreCalls shared.past) :
    ∃ request body result reported, thread = .cgw request ∧ request.api = .tdrStat ∧
      act = .connection (.reply body) ∧ body.result = some result ∧
      tdrStatReport (shared.setExit .tdrStat true) result = .ok (reported, .orchTdrSucc) := by
  cases step with
  | cgwHandles request here event conn had handled handling =>
      have logged : coreCalls (logConnect shared request.api event).past =
          coreCalls shared.past := by
        cases event <;> rfl
      obtain ⟨body, result, reported, isStat, isReply, carried, settled⟩ :=
        handling.success (logged ▸ succ)
      subst isReply
      exact ⟨request, body, result, reported, rfl, isStat, rfl, carried, settled⟩
  | mainAccepts nc after keeps => simp [keeps.coreCalls] at succ
  | mainAnnounces nc after keeps => simp [keeps.coreCalls] at succ
  | mainManifest root effect accepts => simp [accepts.past, coreCalls] at succ
  | hmiServes act after keeps => simp [keeps.coreCalls] at succ
  | hmiStarts root after respLen keeps ready start => simp [keeps.coreCalls] at succ
  | hmiUnlocks request after keeps => simp [keeps.coreCalls] at succ
  | monitorServes act after keeps => simp [keeps.coreCalls] at succ
  | _ => simp [coreCalls] at succ

theorem Step.reports {shared : Shared} {self : Nat} {request : CgwMsgThread} {body : Body}
    {result : CJson} {done : Done}
    (step : Step shared self (.cgw request) (.connection (.reply body)) done)
    (isStat : request.api = .tdrStat) (carried : body.result = some result) :
    ∃ reported verdict,
      tdrStatReport (shared.setExit .tdrStat true) result = .ok (reported, verdict) ∧
        done.shared = (coreStateHandler reported verdict request.upgrade).shared := by
  cases step with
  | cgwHandles _ here event conn had handled handling =>
      rw [isStat] at handling
      cases handling with
      | tdrStatBadJson _ bad =>
          rw [bad] at carried
          contradiction
      | tdrStatReports _ found reported verdict carries settled =>
          obtain rfl := Option.some.inj (carries.symm.trans carried)
          exact ⟨reported, verdict, settled, rfl⟩

private theorem successIsReported_iff {requests : List Api} {before after : State} {move : Move}
    (taken : (systemWith requests).step before move = some after) :
    SuccessIsReported before move after ↔ ReportsFreshly before move := by
  rcases move with ⟨index, act⟩
  constructor
  · intro rule request body result here isReply isStat carried
    rcases Step.of_move_at taken here with ⟨done, step, rfl⟩
    dsimp only at isReply
    subst isReply
    obtain ⟨reported, verdict, settled, left⟩ := step.reports isStat carried
    refine (tdrStatReport_succ_iff settled).mp ?_
    intro succ
    have called : coreCalls done.shared.past = .orchTdrSucc :: coreCalls before.shared.past := by
      obtain ⟨_, _, _, keeps, _⟩ := tdrStatReport_keeps settled
      have same := keeps.coreCalls
      rw [left, succ]
      simpa [coreCalls] using same
    obtain ⟨other, report, isReply, carries, full⟩ := rule called
    cases isReply
    obtain rfl := Option.some.inj (carries.symm.trans carried)
    exact full
  · intro fresh succ
    rcases Step.of_move taken with ⟨thread, done, here, step, rfl⟩
    obtain ⟨request, body, result, reported, rfl, isStat, rfl, carried, settled⟩ :=
      step.success succ
    refine ⟨body, result, rfl, carried, ?_⟩
    exact (tdrStatReport_succ_iff settled).mpr
      (fresh request body result here rfl isStat carried) rfl

/-! ### Runs -/

/-- A run ends upgrades as successes only on reports that say so exactly when no
report is left to a stored progress of 100. -/
theorem successIsReported_along_iff (moves : List Move) :
    system.Along SuccessIsReported system.initial moves ↔
      system.Along (fun before move _ => ReportsFreshly before move) system.initial moves := by
  refine Machine.along_iff_of_forall ?_ _ moves
  intro before move after taken
  exact successIsReported_iff taken

/-- A second upgrade up to its first status request, beside the threads that the
first one has left: downloader 8, request threads 9, 11 and 12, uploader 10. -/
def secondUpgradeRuns : List Move :=
  [(0, .tick), (0, .tick), (0, .dmcManifest StubManifest.mani.root), (0, .tick), (0, .tick)] ++
    downloads 8 0 ++ begins 9 ++ polls 9 [.connect false] ++ polls 9 [.reply ⟨[], none⟩] ++
    uploads 10 0 ++ startUpgrades ++ begins 11 ++ polls 11 [.connect false] ++ begins 12 ++
    polls 12 [.connect false]

/-- The first upgrade ends with 100 percent; the second one sends a report of 5
percent whose first member is its status. -/
def staleProgress : List Move :=
  upgradeRuns ++ polls 7 [statusReply [progressMember 100]] ++ resets 7 ++
    secondUpgradeRuns ++ [(12, .tick), (12, .tick), (12, .tick)]

def fivePercent : List CJson :=
  [statusMember (text "in progress"), progressMember 5]

theorem stale_progress_ends_upgrade :
    ¬ ∀ moves, system.Along SuccessIsReported system.initial moves := by
  intro always
  have along := always (staleProgress ++ [(12, .connection (statusReply fivePercent))])
  have ran : ∃ before after, system.run system.initial staleProgress = some before ∧
      system.step before (12, .connection (statusReply fivePercent)) = some after ∧
        coreCalls after.shared.past = .orchTdrSucc :: coreCalls before.shared.past :=
    ⟨_, _, rfl, rfl, rfl⟩
  obtain ⟨before, after, earlier, taken, succ⟩ := ran
  obtain ⟨body, result, isReply, carried, item, member, named, full⟩ :=
    along.of_run earlier taken succ
  cases isReply
  cases carried
  have low : ∀ item ∈ fivePercent, item.valueint < 100 := by decide
  have below := low item member
  omega

end DlcServer
