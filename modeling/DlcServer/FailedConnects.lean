/-
What is left of a connect to the orchestrator that fails?

mongoose reports the failure with MG_EV_CONNECT and a status that is not zero,
and the connection is closed in the same poll.  The two handlers of the status
requests look at the status, those of /pkg/new and /tdr/run do not.
-/

import DlcServer.Steps

namespace DlcServer

open Library

/-! ### Failures and how they are handled -/

def Stat.IsError (stat : Stat) : Prop :=
  stat = .orchConErr ∨ stat = .orchPkgBad

def FailsConnect (before : State) (move : Move) (request : CgwMsgThread) : Prop :=
  before.At move.1 (.cgw request) ∧ move.2 = .connection (.connect true)

/-- The connection of a request whose connect has failed is closed in this step. -/
def ClosesFailed (before : State) (move : Move) (request : CgwMsgThread) : Prop :=
  before.At move.1 (.cgw request) ∧ move.2 = .connection .close ∧ request.conn.phase = .failed

/-- A failed connect ends in an error state, which the close that follows leaves
alone; neither starts a thread. -/
structure FailureHandled (before : State) (move : Move) (after : State) : Prop where
  connect : ∀ request, FailsConnect before move request →
    after.shared.gStat.IsError ∧ after.threads.length = before.threads.length
  close : ∀ request, ClosesFailed before move request →
    after.shared.gStat = before.shared.gStat ∧ after.threads.length = before.threads.length

def FailsStatus (before : State) (move : Move) : Prop :=
  ∀ request, FailsConnect before move request →
    request.api = .pkgStat ∨ request.api = .tdrStat

/-! ### One event -/

private theorem Handling.failed_iff {shared : Shared} {self caller : Nat} {api : Api}
    {handled : Handled} (handling : Handling shared self caller api (.connect true) handled) :
    handled.shared.gStat.IsError ∧ handled.started = [] ↔ api = .pkgStat ∨ api = .tdrStat := by
  cases handling with
  | pkgNewConnects => simp [Stat.IsError]
  | pkgStatFails => simp [Stat.IsError]
  | tdrRunConnects => simp [Stat.IsError, startCgw]
  | tdrStatFails => simp [Stat.IsError]

private theorem Handling.close_eq {shared : Shared} {self caller : Nat} {api : Api} {handled : Handled}
    (handling : Handling shared self caller api .close handled) :
    handled.shared.gStat = shared.gStat ∧ handled.started = [] := by
  cases handling with
  | closed => exact ⟨rfl, rfl⟩

section Steps

variable {before : State} {index : Nat} {request : CgwMsgThread} {done : Done}

private theorem apply_length_iff :
    (before.apply index done).threads.length = before.threads.length ↔ done.spawned = [] := by
  simp [Pool.apply]

private theorem Step.failed_iff {shared : Shared}
    (step : Step shared index (.cgw request) (.connection (.connect true)) done) :
    done.shared.gStat.IsError ∧ done.spawned = [] ↔
      request.api = .pkgStat ∨ request.api = .tdrStat := by
  cases step with
  | cgwHandles _ here event conn had handled handling => exact handling.failed_iff

private theorem Step.close_eq {shared : Shared}
    (step : Step shared index (.cgw request) (.connection .close) done) :
    done.shared.gStat = shared.gStat ∧ done.spawned = [] := by
  cases step with
  | cgwHandles _ here event conn had handled handling => exact handling.close_eq

end Steps

private theorem failureHandled_iff {requests : List Api} {before after : State} {move : Move}
    (taken : (systemWith requests).step before move = some after) :
    FailureHandled before move after ↔ FailsStatus before move := by
  rcases move with ⟨index, act⟩
  constructor
  · intro handled request fails
    have left := handled.connect request fails
    rcases fails with ⟨here, failed⟩
    dsimp only at failed
    subst failed
    rcases Step.of_move_at taken here with ⟨done, step, rfl⟩
    rw [apply_length_iff] at left
    exact step.failed_iff.mp left
  · intro status
    constructor
    · intro request fails
      have api := status request fails
      rcases fails with ⟨here, failed⟩
      dsimp only at failed
      subst failed
      rcases Step.of_move_at taken here with ⟨done, step, rfl⟩
      rw [apply_length_iff]
      exact step.failed_iff.mpr api
    · intro request closes
      rcases closes with ⟨here, closed, _⟩
      dsimp only at closed
      subst closed
      rcases Step.of_move_at taken here with ⟨done, step, rfl⟩
      rw [apply_length_iff]
      exact step.close_eq

/-! ### Runs -/

/-- Every failed connect of a run ends in an error state exactly when only
connects of status requests fail. -/
theorem failuresHandled_iff (requests : List Api) (moves : List Move) :
    (systemWith requests).Along FailureHandled (systemWith requests).initial moves ↔
      (systemWith requests).Along (fun before move _ => FailsStatus before move)
        (systemWith requests).initial moves := by
  apply Machine.along_iff_of_forall
  intro before move after taken
  exact failureHandled_iff taken

/-- The package of a first manifest is there, and the /pkg/new request polls. -/
def announces : List Move :=
  manifestArrives StubManifest.mani.root ++ downloads 3 0 ++ begins 4 ++
    [(4, .tick), (4, .tick), (4, .tick)]

/-- The orchestrator cannot be reached, and is taken to be downloading. -/
theorem failed_announcement_downloads :
    ¬∀ requests moves,
      (systemWith requests).Along FailureHandled (systemWith requests).initial moves := by
  intro always
  have ran : ∃ before after request, system.run system.initial announces = some before ∧
      system.step before (4, .connection (.connect true)) = some after ∧
        before.At 4 (.cgw request) ∧ after.shared.gStat = .orchPkgDownloading :=
    ⟨_, _, _, rfl, rfl, rfl, rfl⟩
  rcases ran with ⟨before, after, request, earlier, taken, there, downloading⟩
  have along := always [] (announces ++ [(4, .connection (.connect true))])
  have handled : FailureHandled before (4, .connection (.connect true)) after :=
    along.of_run earlier taken
  have left := (handled.connect request ⟨there, rfl⟩).1
  rw [downloading] at left
  rcases left with error | error
  · contradiction
  · contradiction

end DlcServer
