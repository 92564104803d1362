/-
Whose events end the polling loop of a request thread.

The exit flag belongs to the handler, not to the thread: all request threads of
one handler test it, and each resets it on its way out, before the last poll and
the close of its connection, which may set it again.
-/

import DlcServer.Steps

namespace DlcServer

open Library

/-! ### The rule -/

/-- The thread has begun and not reset the flag yet. -/
def CgwMsgThread.InLoop (thread : CgwMsgThread) : Prop :=
  thread.pc ≠ .start ∧ thread.pc ≠ .freeing ∧ thread.pc ≠ .done

instance (thread : CgwMsgThread) : Decidable thread.InLoop :=
  inferInstanceAs (Decidable (_ ∧ _ ∧ _))

def Thread.LoopsOn (api : Api) : Thread → Prop :=
  Thread.Serves (fun thread => thread.api = api ∧ thread.InLoop)

instance (api : Api) : DecidablePred (Thread.LoopsOn api) :=
  inferInstanceAs (DecidablePred (Thread.Serves _))

/-- The thread runs: it has begun and has not ended. -/
def Thread.RunsOn (api : Api) : Thread → Prop :=
  Thread.Serves (fun thread => thread.api = api ∧ thread.pc ≠ .start ∧ thread.pc ≠ .done)

instance (api : Api) : DecidablePred (Thread.RunsOn api) :=
  inferInstanceAs (DecidablePred (Thread.Serves _))

/-- A thread that finds the flag set at its loop test has set it by an event of
its own connection, and the flag of a handler that no thread runs on is clear. -/
structure LeavesByOwnEvent (state : State) : Prop where
  own : ∀ index thread, state.At index (.cgw thread) → thread.pc = .test →
    state.shared.exit thread.api = true → thread.conn.raised = true
  idle : ∀ api, (∀ thread ∈ state.threads, ¬ thread.RunsOn api) →
    state.shared.exit api = false

/-- A request thread begins only when no other one of its handler is in its
loop, and resets the flag only when its connection is closed. -/
def Thread.BeginsAlone (threads : List Thread) : Thread → Prop
  | .cgw thread =>
      (thread.pc = .start → ∀ other ∈ threads, ¬ other.LoopsOn thread.api) ∧
        (thread.pc = .reset → thread.conn.phase = .closed)
  | _ => True

instance (threads : List Thread) (thread : Thread) : Decidable (thread.BeginsAlone threads) :=
  match thread with
  | .cgw thread =>
      inferInstanceAs (Decidable
        ((thread.pc = .start → ∀ other ∈ threads, ¬ other.LoopsOn thread.api) ∧
          (thread.pc = .reset → thread.conn.phase = .closed)))
  | .main _ | .hmi _ | .monitor _ | .downloader _ | .uploader _ =>
      inferInstanceAs (Decidable True)

def BeginsAlone (before : State) (move : Move) : Prop :=
  ∀ thread ∈ before.threads[move.1]?, thread.BeginsAlone before.threads

instance (before : State) (move : Move) : Decidable (BeginsAlone before move) :=
  inferInstanceAs (Decidable (∀ thread ∈ before.threads[move.1]?, _))

/-! ### Steps and the flag -/

theorem Keeps.exit {before after : Shared} (keeps : Keeps before after) (api : Api) :
    after.exit api = before.exit api := by
  unfold Shared.exit
  rw [keeps.cgwApi]

theorem Handling.exit {shared : Shared} {self caller : Nat} {api : Api} {event : CgwEvent}
    {handled : Handled} (handling : Handling shared self caller api event handled)
    (other : Api) :
    handled.shared.exit other =
      if other = api ∧ handled.raised = true then true else shared.exit other := by
  cases handling with
  | tdrStatReports body result reported verdict carried settled =>
      obtain ⟨_, _, _, keeps, verdicts⟩ := tdrStatReport_keeps settled
      have same := keeps.exit other
      rcases verdicts with ⟨_, rfl⟩ | ⟨_, rfl⟩ | ⟨_, rfl⟩ <;> simp [same]
  | _ => simp [cgwClosed]

/-- Threads that are no request threads stay so and leave the flags alone. -/
theorem Step.exit_of_not_cgw {shared : Shared} {self : Nat} {thread : Thread} {act : Act}
    {done : Done} (step : Step shared self thread act done)
    (other : ∀ request, thread ≠ .cgw request) (api : Api) :
    done.shared.exit api = shared.exit api ∧ ∀ request, done.thread ≠ .cgw request := by
  cases step with
  | mainAccepts nc after keeps => exact ⟨keeps.exit api, by simp⟩
  | mainAnnounces nc after keeps => exact ⟨keeps.exit api, by simp⟩
  | mainManifest root effect accepts =>
      refine ⟨?_, by simp⟩
      unfold Shared.exit
      rw [accepts.cgwApi]
  | hmiServes act after keeps => exact ⟨keeps.exit api, by simp⟩
  | hmiStarts root after respLen keeps ready start => exact ⟨keeps.exit api, by simp⟩
  | hmiUnlocks request after keeps => exact ⟨(keeps.exit api).trans (by simp), by simp⟩
  | monitorServes act after keeps => exact ⟨keeps.exit api, by simp⟩
  | hmiBinds free => exact ⟨rfl, by simp⟩
  | monitorExits => exact ⟨rfl, by simp⟩
  | monitorBinds => exact ⟨rfl, by simp⟩
  | cgwRequests thread => exact absurd rfl (other thread)
  | cgwLeaves thread => exact absurd rfl (other thread)
  | cgwStays thread => exact absurd rfl (other thread)
  | cgwWaits thread => exact absurd rfl (other thread)
  | cgwAwaited thread => exact absurd rfl (other thread)
  | cgwLocks thread => exact absurd rfl (other thread)
  | cgwHandles thread => exact absurd rfl (other thread)
  | cgwUnlocks thread => exact absurd rfl (other thread)
  | cgwResets thread => exact absurd rfl (other thread)
  | cgwFreed thread => exact absurd rfl (other thread)
  | _ => exact ⟨by simp, by simp⟩

private theorem Handling.started_start {shared : Shared} {self caller : Nat} {api : Api}
    {event : CgwEvent} {handled : Handled}
    (handling : Handling shared self caller api event handled) {request : CgwMsgThread}
    (started : .cgw request ∈ handled.started) :
    ∃ other, .cgw request = Thread.cgwStart other caller := by
  rcases handling.started_cases started with ⟨_, same⟩ | ⟨_, same⟩
  · cases same
  · exact ⟨.tdrStat, same⟩

theorem Step.spawned_start {shared : Shared} {self : Nat} {thread : Thread} {act : Act}
    {done : Done} (step : Step shared self thread act done) {request : CgwMsgThread}
    (started : .cgw request ∈ done.spawned) :
    ∃ api caller, .cgw request = Thread.cgwStart api caller := by
  cases step with
  | mainManifest root effect accepts =>
      simp [accepts.started, Thread.downloaderStart] at started
  | hmiActs request => exact ⟨.tdrRun, _, by simpa using started⟩
  | downloaderReports thread here succeeded => exact ⟨.pkgNew, _, by simpa using started⟩
  | cgwHandles thread here event conn had handled handling =>
      obtain ⟨api, same⟩ := handling.started_start started
      exact ⟨api, _, same⟩
  | _ => simp at started

/-- What a step of a request thread does with the flag of its handler. -/
inductive FlagUse (shared : Shared) (thread : CgwMsgThread) (done : Done)
    (next : CgwMsgThread) : Prop
  | begins (here : thread.pc = .start) (there : next.pc = .test)
      (exits : ∀ api, done.shared.exit api = shared.exit api)
  | stays (here : thread.InLoop) (there : next.InLoop)
      (raised : next.conn.raised = thread.conn.raised)
      (ended : thread.conn.Ended → next.conn.Ended)
      (exits : ∀ api, done.shared.exit api = shared.exit api)
  | raises (here : thread.InLoop) (there : next.InLoop) (raised : next.conn.raised = true)
      (ended : next.conn.Ended)
      (exits : ∀ api, done.shared.exit api =
        if api = thread.api then true else shared.exit api)
  | resets (here : thread.pc = .reset) (there : next.pc = .freeing)
      (conn : next.conn = thread.conn)
      (exits : ∀ api, done.shared.exit api =
        if api = thread.api then false else shared.exit api)
  | late (here : thread.pc = .freeing) (opened : thread.conn.phase ≠ .closed)
      (exits : ∀ api, api ≠ thread.api → done.shared.exit api = shared.exit api)
  | ends (here : thread.pc = .freeing) (there : next.pc = .done)
      (exits : ∀ api, done.shared.exit api = shared.exit api)

private theorem Connection.not_closed_of_after {conn next : Connection} {event : CgwEvent}
    (had : conn.after event = some next) : conn.phase ≠ .closed := by
  intro closed
  cases event <;> simp [Connection.after, closed] at had

private theorem Connection.raised_of_after {conn next : Connection} {event : CgwEvent}
    (had : conn.after event = some next) : next.raised = conn.raised := by
  cases event with
  | connect failed =>
      obtain ⟨_, rfl⟩ := after_connect had
      rfl
  | reply body =>
      obtain ⟨_, rfl⟩ := after_reply had
      rfl
  | close =>
      obtain ⟨_, rfl⟩ := after_close had
      rfl

theorem Connection.Ended.after {conn next : Connection} {event : CgwEvent}
    (ended : conn.Ended) (had : conn.after event = some next) : next.Ended := by
  cases event with
  | connect failed =>
      obtain ⟨connecting, rfl⟩ := after_connect had
      have replied : conn.replied = true := by simpa [Ended, connecting] using ended
      exact .inl replied
  | reply body =>
      obtain ⟨_, rfl⟩ := after_reply had
      exact .inl rfl
  | close =>
      obtain ⟨_, rfl⟩ := after_close had
      exact .inr (.inr rfl)

/-- The flag is set by events that end the connection only. -/
theorem Handling.ended {shared : Shared} {self caller : Nat} {api : Api} {event : CgwEvent}
    {handled : Handled} {conn next : Connection}
    (handling : Handling shared self caller api event handled) (raised : handled.raised = true)
    (had : conn.after event = some next) : next.Ended := by
  have replied {body : Body} (had : conn.after (.reply body) = some next) : next.Ended := by
    obtain ⟨_, rfl⟩ := Connection.after_reply had
    exact .inl rfl
  have failed (had : conn.after (.connect true) = some next) : next.Ended := by
    obtain ⟨_, rfl⟩ := Connection.after_connect had
    exact .inr (.inl rfl)
  cases handling with
  | closed _ =>
      obtain ⟨_, rfl⟩ := Connection.after_close had
      exact .inr (.inr rfl)
  | pkgNewForeign body foreign => exact replied had
  | pkgNewUploads body wpc => exact replied had
  | pkgStatFails => exact failed had
  | pkgStatReady body ready => exact replied had
  | tdrStatFails => exact failed had
  | tdrStatReports body result reported verdict carried settled => exact replied had
  | _ => cases raised

private theorem logConnect_exit (shared : Shared) (api other : Api) (event : CgwEvent) :
    (logConnect shared api event).exit other = shared.exit other := by
  cases event <;> rfl

theorem Step.flagUse {shared : Shared} {self : Nat} {thread : CgwMsgThread} {act : Act}
    {done : Done} (step : Step shared self (.cgw thread) act done) :
    ∃ next, done.thread = .cgw next ∧ next.api = thread.api ∧
      FlagUse shared thread done next := by
  cases step with
  | cgwRequests _ here payload =>
      exact ⟨_, rfl, rfl, .begins here rfl (fun _ => rfl)⟩
  | cgwLeaves _ here raised =>
      exact ⟨_, rfl, rfl,
        .stays (by simp [CgwMsgThread.InLoop, here]) (by simp [CgwMsgThread.InLoop]) rfl
          id (fun _ => rfl)⟩
  | cgwStays _ here lowered =>
      exact ⟨_, rfl, rfl,
        .stays (by simp [CgwMsgThread.InLoop, here]) (by simp [CgwMsgThread.InLoop]) rfl
          id (fun _ => rfl)⟩
  | cgwWaits _ t here =>
      exact ⟨_, rfl, rfl,
        .stays (by simp [CgwMsgThread.InLoop, here]) (by simp [CgwMsgThread.InLoop]) rfl
          id (fun _ => rfl)⟩
  | cgwAwaited _ t here =>
      exact ⟨_, rfl, rfl,
        .stays (by simp [CgwMsgThread.InLoop, here]) (by simp [CgwMsgThread.InLoop]) rfl
          id (fun _ => rfl)⟩
  | cgwLocks _ here =>
      exact ⟨_, rfl, rfl,
        .stays (by simp [CgwMsgThread.InLoop, here]) (by simp [CgwMsgThread.InLoop]) rfl
          id (fun _ => rfl)⟩
  | cgwUnlocks _ here closed =>
      exact ⟨_, rfl, rfl,
        .stays (by simp [CgwMsgThread.InLoop, here]) (by simp [CgwMsgThread.InLoop]) rfl
          id (fun _ => rfl)⟩
  | cgwResets _ here =>
      exact ⟨_, rfl, rfl, .resets here rfl rfl (by simp)⟩
  | cgwFreed _ here closed =>
      exact ⟨_, rfl, rfl, .ends here rfl (fun _ => rfl)⟩
  | cgwHandles _ here event conn had handled handling =>
      refine ⟨_, rfl, rfl, ?_⟩
      have exits (api : Api) := handling.exit api
      simp only [logConnect_exit] at exits
      rcases here with polling | freeing
      · have inside : thread.InLoop := by simp [CgwMsgThread.InLoop, polling]
        cases raised : handled.raised with
        | true =>
            have ended : conn.Ended := handling.ended raised had
            exact .raises inside inside (by simp) ended (by simpa [raised] using exits)
        | false =>
            have ended (old : thread.conn.Ended) : conn.Ended := old.after had
            refine .stays inside inside ?_ ended (by simpa [raised] using exits)
            simp [Connection.raised_of_after had]
      · refine .late freeing (Connection.not_closed_of_after had) ?_
        intro api other
        simpa [other] using exits api

/-! ### The invariant -/

/-- At most one thread of a handler is in its loop, a flag that is set was set
by an event of the thread in the loop, and a thread that has reset the flag has
no connection left. -/
structure ExitInvariant (state : State) : Prop where
  one : ∀ api, state.AtMostOne (Thread.LoopsOn api)
  cause : ∀ api, state.shared.exit api = true →
    ∃ index thread, state.At index (.cgw thread) ∧ thread.api = api ∧ thread.InLoop ∧
      thread.conn.raised = true
  freed : ∀ index thread, state.At index (.cgw thread) → thread.pc = .freeing →
    thread.conn.phase = .closed

private theorem ExitInvariant.leavesByOwnEvent {state : State} (invariant : ExitInvariant state) :
    LeavesByOwnEvent state := by
  constructor
  · intro index thread there atTest set
    obtain ⟨other, raiser, atOther, sameApi, inside, raised⟩ := invariant.cause _ set
    have loops : thread.InLoop := by simp [CgwMsgThread.InLoop, atTest]
    have same := invariant.one thread.api other index _ _ atOther there
      ⟨sameApi, inside⟩ ⟨rfl, loops⟩
    subst same
    have alike := atOther.unique there
    cases alike
    exact raised
  · intro api idle
    by_contra set
    obtain ⟨index, thread, there, sameApi, inside, _⟩ :=
      invariant.cause api (Bool.not_eq_false _ ▸ set)
    exact idle (.cgw thread) (List.mem_of_getElem? there) ⟨sameApi, inside.1, inside.2.2⟩

private theorem exitInvariant_initial (requests : List Api) :
    ExitInvariant (systemWith requests).initial := by
  refine ⟨?_, ?_, ?_⟩
  · intro api first second left right atFirst _ loops _
    rcases initial_at atFirst with rfl | ⟨other, rfl⟩
    · cases loops
    · exact absurd rfl loops.2.1
  · intro api set
    cases set
  · intro index thread there freeing
    rcases initial_at there with same | ⟨other, same⟩
    · cases same
    · cases same
      cases freeing

private theorem ExitInvariant.of_not_cgw {before : State} {index : Nat} {thread : Thread} {act : Act}
    {done : Done} (invariant : ExitInvariant before) (here : before.At index thread)
    (step : Step before.shared index thread act done)
    (other : ∀ request, thread ≠ .cgw request) : ExitInvariant (before.apply index done) := by
  have quiet := step.exit_of_not_cgw other
  have notLoops {found : Thread} (none_ : ∀ request, found ≠ .cgw request) (api : Api) :
      ¬ found.LoopsOn api := by
    cases found with
    | cgw request => exact absurd rfl (none_ request)
    | _ => exact id
  have old {position : Nat} {request : CgwMsgThread} (begun : request.pc ≠ .start)
      (there : (before.apply index done).At position (.cgw request)) :
      before.At position (.cgw request) := by
    rcases here.of_apply there with ⟨_, same⟩ | ⟨_, old⟩ | ⟨_, started⟩
    · exact absurd same.symm ((quiet request.api).2 request)
    · exact old
    · obtain ⟨api, caller, same⟩ := step.spawned_start started
      cases same
      exact absurd rfl begun
  refine ⟨?_, ?_, ?_⟩
  · intro api
    refine (invariant.one api).keep here ?_ ?_
    · intro loops
      exact absurd loops (notLoops (quiet api).2 api)
    · intro found started loops
      cases found with
      | cgw request =>
          obtain ⟨api, caller, same⟩ := step.spawned_start started
          cases same
          exact loops.2.1 rfl
      | _ => cases loops
  · intro api set
    rw [Pool.apply_shared, (quiet api).1] at set
    obtain ⟨position, request, there, facts⟩ := invariant.cause api set
    refine ⟨position, request, there.apply_other ?_, facts⟩
    intro same
    subst same
    exact other request (here.unique there)
  · intro position request there freeing
    exact invariant.freed position request (old (by simp [freeing]) there) freeing

private theorem ExitInvariant.of_cgw {before : State} {index : Nat} {thread : CgwMsgThread}
    {act : Act} {done : Done} (invariant : ExitInvariant before)
    (here : before.At index (.cgw thread))
    (step : Step before.shared index (.cgw thread) act done)
    (alone : thread.pc = .start → ∀ other ∈ before.threads, ¬ other.LoopsOn thread.api)
    (closed : thread.pc = .reset → thread.conn.phase = .closed) :
    ExitInvariant (before.apply index done) := by
  obtain ⟨next, made, sameApi, use⟩ := step.flagUse
  have fresh (found : CgwMsgThread) (started : .cgw found ∈ done.spawned) :
      found.pc = .start := by
    obtain ⟨api, caller, same⟩ := step.spawned_start started
    cases same
    rfl
  have notStarted (api : Api) : ∀ found ∈ done.spawned, ¬ found.LoopsOn api := by
    intro found started loops
    cases found with
    | cgw request => exact loops.2.1 (fresh request started)
    | _ => cases loops
  have remains {api : Api} (set : before.shared.exit api = true)
      (notActing : thread.api = api → ¬ thread.InLoop) :
      ∃ position request, (before.apply index done).At position (.cgw request) ∧
        request.api = api ∧ request.InLoop ∧ request.conn.raised = true := by
    obtain ⟨position, request, there, facts⟩ := invariant.cause api set
    refine ⟨position, request, there.apply_other ?_, facts⟩
    intro same
    subst same
    have alike := here.unique there
    cases alike
    exact notActing facts.1 facts.2.1
  refine ⟨?_, ?_, ?_⟩
  · intro api
    by_cases begins : thread.pc = .start ∧ thread.api = api
    · refine Pool.AtMostOne.take here ?_ (notStarted api)
      intro other found _ there
      exact begins.2 ▸ alone begins.1 found (List.mem_of_getElem? there)
    · refine (invariant.one api).keep here ?_ (notStarted api)
      intro loops
      rw [made] at loops
      refine ⟨sameApi ▸ loops.1, ?_⟩
      cases use with
      | begins start _ _ => exact absurd ⟨start, sameApi ▸ loops.1⟩ begins
      | stays inside => exact inside
      | raises inside => exact inside
      | resets _ there => exact absurd there loops.2.2.1
      | late freeing opened => exact absurd (invariant.freed index thread here freeing) opened
      | ends _ there _ => exact absurd there loops.2.2.2
  · intro api set
    rw [Pool.apply_shared] at set
    cases use with
    | begins start _ exits =>
        rw [exits] at set
        exact remains set (fun _ inside => inside.1 start)
    | stays inside there raised _ exits =>
        rw [exits] at set
        obtain ⟨position, request, atRequest, facts⟩ := invariant.cause api set
        by_cases self : position = index
        · subst self
          have alike := here.unique atRequest
          cases alike
          exact ⟨position, next, made ▸ here.apply_self, sameApi.trans facts.1, there,
            raised.trans facts.2.2⟩
        · exact ⟨position, request, atRequest.apply_other self, facts⟩
    | raises inside there raised _ exits =>
        rw [exits] at set
        by_cases own : api = thread.api
        · exact ⟨index, next, made ▸ here.apply_self, sameApi.trans own.symm, there, raised⟩
        · rw [if_neg own] at set
          exact remains set (fun same => absurd same.symm own)
    | resets atReset _ _ exits =>
        rw [exits] at set
        by_cases own : api = thread.api
        · rw [if_pos own] at set
          contradiction
        · rw [if_neg own] at set
          exact remains set (fun same => absurd same.symm own)
    | late freeing opened => exact absurd (invariant.freed index thread here freeing) opened
    | ends freeing _ exits =>
        rw [exits] at set
        exact remains set (fun _ inside => inside.2.1 freeing)
  · intro position request there freeing
    rcases here.of_apply there with ⟨_, same⟩ | ⟨_, old⟩ | ⟨_, started⟩
    · rw [made] at same
      cases same
      cases use with
      | begins _ atTest _ => simp [atTest] at freeing
      | stays _ loops => exact absurd freeing loops.2.1
      | raises _ loops => exact absurd freeing loops.2.1
      | resets atReset _ conn _ => exact conn ▸ closed atReset
      | late freeing opened => exact absurd (invariant.freed index thread here freeing) opened
      | ends _ done_ _ => simp [done_] at freeing
    · exact invariant.freed position request old freeing
    · have atStart := fresh request started
      simp [atStart] at freeing

private theorem exitInvariant_of_reaches {requests : List Api} {state : State}
    (reached : (systemWith requests).Reaches BeginsAlone state) : ExitInvariant state := by
  refine Machine.Reaches.invariant (exitInvariant_initial requests) ?_ reached
  intro before move after _ invariant allowed taken
  obtain ⟨thread, done, here, step, rfl⟩ := Step.of_move taken
  cases thread with
  | cgw request =>
      have allowedHere := allowed _ here
      exact invariant.of_cgw here step allowedHere.1 allowedHere.2
  | _ => exact invariant.of_not_cgw here step (by simp)

/-- In runs whose request threads begin alone and reset the flag only behind a
closed connection, every thread leaves its loop by an event of its own
connection, and no flag is left behind. -/
theorem leavesByOwnEvent_of_beginsAlone {requests : List Api} {state : State}
    (reached : (systemWith requests).Reaches BeginsAlone state) : LeavesByOwnEvent state :=
  (exitInvariant_of_reaches reached).leavesByOwnEvent

/-- A /pkg/new request that is closed without an answer. -/
def closedUnanswered : List Move :=
  manifestArrives StubManifest.mani.root ++ downloads 3 0 ++ begins 4 ++
    polls 4 [.connect false] ++ polls 4 [.close] ++ leaves 4 []

theorem closedUnanswered_leavesByOwnEvent :
    ∃ state, system.run system.initial closedUnanswered = some state ∧
      LeavesByOwnEvent state := by
  refine ⟨_, rfl, ?_⟩
  refine @leavesByOwnEvent_of_beginsAlone [] _ ?_
  refine Machine.Reaches.of_run closedUnanswered .initial ?_ rfl
  decide

/-- A /pkg/new request that is answered: the thread resets the flag, and the
close of its connection in `mg_mgr_free` sets it again. -/
def answered : List Move :=
  manifestArrives StubManifest.mani.root ++ downloads 3 0 ++ begins 4 ++
    polls 4 [.connect false] ++ polls 4 [.reply ⟨[], none⟩] ++ leaves 4 [.close]

theorem answered_leaves_flag_set :
    ¬ ∀ (requests : List Api) (state : State),
      (systemWith requests).Reachable state → LeavesByOwnEvent state := by
  intro always
  have ran : ∃ state, system.run system.initial answered = some state ∧
      state.shared.exit .pkgNew = true ∧ ∀ thread ∈ state.threads, ¬ thread.RunsOn .pkgNew :=
    ⟨_, rfl, rfl, by decide⟩
  obtain ⟨state, ended, set, idle⟩ := ran
  have rule := always [] state (Machine.Reachable.of_run ended)
  rw [rule.idle .pkgNew idle] at set
  contradiction

end DlcServer
