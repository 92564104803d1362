/-
What the connects of the DMC start.

Every connect starts an HMI thread and, after the pause of the handler, a
monitor.  Either finds its port taken when it is not the first of its kind: the
HMI thread then polls on without a listener, the monitor ends the process.
-/

import DlcServer.StartUpgrade
import DlcServer.Traffic

namespace DlcServer

open Library

/-! ### The rule -/

/-- The thread has the port of the monitor. -/
def Thread.Monitors : Thread → Prop
  | .monitor .serving => True
  | _ => False

/-- One listener at most on either port, and the process runs. -/
structure SafeConnects (state : State) : Prop where
  hmi : state.AtMostOne Thread.Listens
  monitor : state.AtMostOne Thread.Monitors
  runs : state.shared.exited = false

/-- A connect of the DMC is the first one: no earlier one has set `g_ctx.dmc`. -/
def FirstConnect (before : State) (move : Move) : Prop :=
  ∀ nc, move.2 = .dmcAccept nc → before.shared.gCtx.dmc = none

instance (before : State) (move : Move) : Decidable (FirstConnect before move) :=
  match act : move.2 with
  | .dmcAccept nc =>
      decidable_of_iff (before.shared.gCtx.dmc = none)
        ⟨fun null _ _ => null, fun first => first nc act⟩
  | .tick | .dmcManifest _ | .hmiAccept _ | .hmiRecv _ | .statusReport _ | .connection _
  | .popen _ | .eof | .exit _ _ =>
      isTrue (fun nc accepts => by rw [act] at accepts; cases accepts)

/-! ### The port of the monitor -/

/-- What the start of a monitor reads and writes. -/
def Shared.monitoring (shared : Shared) : Bool × Bool :=
  (shared.monitorBound, shared.exited)

private theorem coreStateHandler_monitoring (shared : Shared) (reset : Stat) (caller : Nat) :
    (coreStateHandler shared reset caller).shared.monitoring = shared.monitoring := by
  have entered : (coreEnter shared reset).monitoring = shared.monitoring := by
    unfold coreEnter
    split
    all_goals rfl
  unfold coreStateHandler
  dsimp only
  split
  · exact entered
  · exact entered
  · split
    all_goals exact entered
  · exact entered
  · exact entered
  · exact entered

private theorem hmiPayloadParser_monitoring {shared after : Shared} {root : Option CJson}
    {started : Option Nat} (done : hmiPayloadParser shared root = .ok (after, started)) :
    after.monitoring = shared.monitoring := by
  cases root with
  | none =>
      cases done
      rfl
  | some tree =>
      obtain ⟨uuid, code, _, ⟨_, _, response, rfl⟩ | ⟨_, _, _, response, bytes, rfl⟩ |
        ⟨_, _, rfl⟩⟩ := hmiPayloadParser_cases done
      · rfl
      · rfl
      · rfl

private theorem Handling.monitoring {shared : Shared} {self caller : Nat} {api : Api} {event : CgwEvent}
    {handled : Handled} (handling : Handling shared self caller api event handled) :
    handled.shared.monitoring = shared.monitoring := by
  cases handling with
  | tdrRunConnects failed => exact coreStateHandler_monitoring _ _ _
  | tdrStatReports body result reported verdict carried settled =>
      refine (coreStateHandler_monitoring _ _ _).trans ?_
      obtain ⟨_, _, _, ⟨_, _, _, _, _, rfl⟩ | ⟨_, rfl⟩⟩ := tdrStatReport_cases settled
      · rfl
      · rfl
  | _ => rfl

private theorem logConnect_monitoring (shared : Shared) (api : Api) (event : CgwEvent) :
    (logConnect shared api event).monitoring = shared.monitoring := by
  cases event
  all_goals rfl

private theorem perform_monitoring {shared : Shared} {self : Nat} {thread : Thread} {act : Act}
    {done : Done} (taken : perform shared self thread act = some done)
    (other : thread ≠ .monitor .start) : done.shared.monitoring = shared.monitoring := by
  have step := Step.of_perform taken
  unfold perform at taken
  split at taken
  · contradiction
  · cases thread with
    | main pc =>
        simp only [mainStep] at taken
        split at taken
        · split at taken
          all_goals
            cases taken
            rfl
        · cases taken
          rfl
        · cases taken
          rfl
        · cases taken
          rfl
        · split at taken
          · contradiction
          · obtain ⟨effect, accepted, same⟩ := Option.map_eq_some_iff.mp taken
            cases same
            unfold acceptManifest at accepted
            split at accepted
            · contradiction
            · split at accepted
              · cases accepted
                rfl
              · contradiction
        · cases taken
          rfl
        · cases taken
          rfl
        · contradiction
    | hmi pc =>
        simp only [hmiStep] at taken
        split at taken
        · split at taken
          all_goals
            cases taken
            rfl
        · cases taken
          rfl
        · split at taken
          · contradiction
          · split at taken
            · contradiction
            all_goals
              rename_i parses
              cases taken
              exact hmiPayloadParser_monitoring parses
        · split at taken
          all_goals
            cases taken
            rfl
        · cases taken
          rfl
        · cases taken
          exact coreStateHandler_monitoring _ _ _
        · split at taken
          · contradiction
          · rename_i delivered
            cases taken
            obtain ⟨_, rfl⟩ := mgSend_eq delivered
            rfl
        · contradiction
    | monitor pc =>
        cases pc with
        | start => exact absurd rfl other
        | serving =>
            simp only [monitorStep] at taken
            split at taken
            · contradiction
            · split at taken
              · split at taken
                all_goals
                  cases taken
                  rfl
              · contradiction
            · contradiction
    | cgw thread =>
        cases step with
        | cgwHandles _ here event conn had handled handling =>
            exact handling.monitoring.trans (logConnect_monitoring _ _ _)
        | _ => rfl
    | downloader thread =>
        cases step with
        | downloaderReports _ here succeeded => exact coreStateHandler_monitoring _ _ _
        | _ => rfl
    | uploader thread =>
        cases step with
        | _ => rfl

/-! ### Threads on the way to a monitor -/

/-- The thread is a monitor, or the handler that will start one. -/
def Thread.LeadsToMonitor : Thread → Prop
  | .main (.accepting _) | .monitor _ => True
  | _ => False

/-- The port is still to be taken on this way. -/
def Thread.MayBind : Thread → Prop
  | .main (.accepting _) | .monitor .start => True
  | _ => False

private theorem Thread.MayBind.leads {thread : Thread} (may : thread.MayBind) :
    thread.LeadsToMonitor := by
  cases thread with
  | main pc => cases pc <;> first | exact trivial | cases may
  | monitor pc => exact trivial
  | _ => cases may

private theorem Thread.Monitors.leads {thread : Thread} (monitors : thread.Monitors) :
    thread.LeadsToMonitor := by
  cases thread with
  | monitor pc => exact trivial
  | _ => cases monitors

private theorem Step.leads {shared : Shared} {self : Nat} {thread : Thread} {act : Act} {done : Done}
    (step : Step shared self thread act done) :
    (done.thread.LeadsToMonitor → thread.LeadsToMonitor ∨ ∃ nc, act = .dmcAccept nc) ∧
      (done.thread.MayBind → thread.MayBind ∨ ∃ nc, act = .dmcAccept nc) ∧
      ((thread.MayBind ∧ ¬ done.thread.LeadsToMonitor ∧ done.spawned = [.monitor .start]) ∨
        ∀ found ∈ done.spawned, ¬ found.LeadsToMonitor) := by
  cases step with
  | mainManifest root effect accepts =>
      simp [accepts.started, Thread.LeadsToMonitor, Thread.MayBind, Thread.downloaderStart]
  | cgwHandles thread here event conn had handled handling =>
      refine ⟨fun leads => absurd leads id, fun may => absurd may id, .inr ?_⟩
      intro found fresh
      rcases handling.started_cases fresh with ⟨_, rfl⟩ | ⟨_, rfl⟩
      · exact id
      · exact id
  | _ => simp [Thread.LeadsToMonitor, Thread.MayBind, Thread.cgwStart]

/-! ### Runs -/

/-- There is one way to a monitor at most, none before the first connect, and
the port is free on it. -/
structure OneMonitor (state : State) : Prop where
  one : state.AtMostOne Thread.LeadsToMonitor
  unused : state.shared.gCtx.dmc = none →
    state.shared.monitorBound = false ∧ state.Each (fun _ thread => ¬ thread.LeadsToMonitor)
  free : state.Each (fun _ thread => thread.MayBind → state.shared.monitorBound = false)
  runs : state.shared.exited = false

private theorem monitorStep_free {shared : Shared} {self : Nat} {act : Act} {done : Done}
    (taken : perform shared self (.monitor .start) act = some done)
    (free : shared.monitorBound = false) :
    done = ⟨{ shared with monitorBound := true }, .monitor .serving, []⟩ := by
  unfold perform at taken
  split at taken
  · contradiction
  · cases act with
    | tick =>
        simp only [monitorStep, free, Bool.false_eq_true, if_false, Option.some.injEq] at taken
        exact taken.symm
    | _ => contradiction

/-- The start of the only monitor. -/
theorem OneMonitor.binds {before : State} {index : Nat} (invariant : OneMonitor before)
    (here : before.At index (.monitor .start)) :
    OneMonitor (before.apply index
      ⟨{ before.shared with monitorBound := true }, .monitor .serving, []⟩) := by
  constructor
  · exact invariant.one.keep here (fun _ => trivial) (by simp)
  · intro null
    exact absurd trivial ((invariant.unused null).2 index _ here)
  · refine invariant.free.apply here (fun may => absurd may id) ?_ (by simp)
    intro other found different there _ may
    exact absurd (invariant.one _ _ _ _ there here may.leads trivial) different
  · exact invariant.runs

/-- The first connect. -/
theorem OneMonitor.accepts {before : State} {index : Nat} {thread : Thread} {done : Done}
    (invariant : OneMonitor before) (here : before.At index thread)
    (null : before.shared.gCtx.dmc = none) (set : done.shared.gCtx.dmc ≠ none)
    (same : done.shared.monitoring = before.shared.monitoring)
    (spawned : ∀ found ∈ done.spawned, ¬ found.LeadsToMonitor) :
    OneMonitor (before.apply index done) := by
  obtain ⟨unbound, nobody⟩ := invariant.unused null
  have bound : done.shared.monitorBound = before.shared.monitorBound := congrArg Prod.fst same
  have exited : done.shared.exited = before.shared.exited := congrArg Prod.snd same
  constructor
  · exact Pool.AtMostOne.take here (fun other found _ there => nobody other found there) spawned
  · intro still
    exact absurd still set
  · intro other found _ _
    exact bound.trans unbound
  · exact exited.trans invariant.runs

/-- Any other step that leaves the port alone. -/
theorem OneMonitor.keeps {before : State} {index : Nat} {thread : Thread} {act : Act}
    {done : Done} (invariant : OneMonitor before) (here : before.At index thread)
    (step : Step before.shared index thread act done) (other : ∀ nc, act ≠ .dmcAccept nc)
    (pointer : done.shared.gCtx.dmc = before.shared.gCtx.dmc)
    (same : done.shared.monitoring = before.shared.monitoring) :
    OneMonitor (before.apply index done) := by
  obtain ⟨leads, may, spawned⟩ := step.leads
  have bound : done.shared.monitorBound = before.shared.monitorBound := congrArg Prod.fst same
  have exited : done.shared.exited = before.shared.exited := congrArg Prod.snd same
  have stays (after : done.thread.LeadsToMonitor) : thread.LeadsToMonitor :=
    (leads after).resolve_right (fun ⟨nc, accepts⟩ => other nc accepts)
  have mayStill (after : done.thread.MayBind) : thread.MayBind :=
    (may after).resolve_right (fun ⟨nc, accepts⟩ => other nc accepts)
  have alone (was : thread.LeadsToMonitor) (index' : Nat) (found : Thread)
      (different : index' ≠ index) (there : before.At index' found) : ¬ found.LeadsToMonitor :=
    fun also => different (invariant.one _ _ _ _ there here also was)
  constructor
  · rcases spawned with ⟨was, left, single⟩ | none_
    · exact Pool.AtMostOne.pass here (alone was.leads) left single
    · exact invariant.one.keep here stays none_
  · intro null
    rw [Pool.apply_shared, pointer] at null
    obtain ⟨unbound, nobody⟩ := invariant.unused null
    refine ⟨bound.trans unbound, ?_⟩
    refine nobody.apply here (fun after => nobody _ _ here (stays after)) ?_ ?_
    · intro _ _ _ _ not
      exact not
    · intro _ found _ fresh
      rcases spawned with ⟨was, _, _⟩ | none_
      · exact absurd was.leads (nobody _ _ here)
      · exact none_ found fresh
  · refine invariant.free.apply here ?_ ?_ ?_
    · intro after
      exact bound.trans (invariant.free _ _ here (mayStill after))
    · intro index' found _ _ unbound binds
      exact bound.trans (unbound binds)
    · intro _ found _ fresh binds
      rcases spawned with ⟨was, _, _⟩ | none_
      · exact bound.trans (invariant.free _ _ here was)
      · exact absurd binds.leads (none_ found fresh)
  · exact exited.trans invariant.runs

private theorem oneMonitor_of_firstConnects {state : State}
    (reached : system.Reaches FirstConnect state) : OneMonitor state := by
  have start : OneMonitor system.initial := by
    constructor
    · intro first second left right atFirst _ leads _
      rw [(system_initial_at atFirst).2] at leads
      cases leads
    · intro _
      refine ⟨rfl, ?_⟩
      intro index thread there leads
      rw [(system_initial_at there).2] at leads
      cases leads
    · intro index thread there may
      rw [(system_initial_at there).2] at may
      cases may
    · rfl
  refine Machine.Reaches.invariant start ?_ reached
  intro before move after _ invariant first taken
  obtain ⟨thread, done, here, performed, rfl⟩ := Pool.step_eq_some taken
  by_cases starts : thread = .monitor .start
  · subst starts
    have free := invariant.free _ _ here trivial
    rw [monitorStep_free performed free]
    exact invariant.binds here
  · have same := perform_monitoring performed starts
    have step := Step.of_perform performed
    have pointer : done.shared.peer = pointTo before.shared.peer move.2.accepts :=
      (Dealing.of_perform performed).peer
    obtain ⟨index, act⟩ := move
    cases act with
    | dmcAccept nc =>
        have null := first nc rfl
        refine invariant.accepts here null ?_ same ?_
        · have set : done.shared.gCtx.dmc = some nc := congrFun pointer .dmc
          rw [set]
          exact Option.some_ne_none nc
        · cases step with
          | mainAccepts _ after keeps => simp [Thread.LeadsToMonitor]
          | hmiServes _ after keeps => simp
          | monitorServes _ after keeps => simp
    | hmiAccept nc =>
        exact invariant.keeps here step (by simp) (congrFun pointer .dmc) same
    | _ => exact invariant.keeps here step (by simp) (congrFun pointer .dmc) same

/-- In runs in which the DMC connects once, either port has one listener at most
and the process does not exit. -/
theorem safeConnects_of_firstConnects {state : State}
    (reached : system.Reaches FirstConnect state) : SafeConnects state := by
  have invariant := oneMonitor_of_firstConnects reached
  constructor
  · exact (oneListener_of_reaches reached).one
  · intro first second left right atFirst atSecond monitors also
    exact invariant.one _ _ _ _ atFirst atSecond monitors.leads also.leads
  · exact invariant.runs

/-- The DMC connects, and the HMI thread 1 and the monitor 2 take their ports. -/
def dmcConnects : List Move :=
  [(0, .tick), (0, .tick), (0, .dmcAccept 0), (0, .tick), (1, .tick), (2, .tick)]

theorem one_connect_safe :
    ∃ state, system.run system.initial dmcConnects = some state ∧
      state.shared.monitorBound = true ∧ SafeConnects state := by
  have ran : ∃ state, system.run system.initial dmcConnects = some state ∧
      state.shared.monitorBound = true :=
    ⟨_, rfl, rfl⟩
  obtain ⟨state, ended, bound⟩ := ran
  exact ⟨state, ended, bound,
    safeConnects_of_firstConnects (Machine.Reaches.of_run dmcConnects .initial (by decide) ended)⟩

/-- The DMC connects again in the same poll, and the monitor 4 is started. -/
theorem second_connect_exits :
    ¬ ∀ state, system.Reachable state → SafeConnects state := by
  intro always
  have ran : ∃ state,
      system.run system.initial
          (dmcConnects ++ [(0, .dmcAccept 1), (0, .tick), (4, .tick)]) = some state ∧
        state.shared.exited = true :=
    ⟨_, rfl, rfl⟩
  obtain ⟨state, ended, exits⟩ := ran
  have rule := (always state (Machine.Reachable.of_run ended)).runs
  rw [exits] at rule
  contradiction

end DlcServer
