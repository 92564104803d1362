/-
Are the messages to the two peers sent on open connections?

`g_ctx.dmc` and `g_ctx.hmi` are set when a connection is accepted, and a close
leaves them as they are.  The handlers of the CGW connections reset theirs; the
handlers of the two ports pass the close over.
-/

import DlcServer.Traffic

namespace DlcServer

open Library

/-! ### The program with its connections -/

/-- `open_` holds the connections of each port that are accepted and not yet
closed, `last` the one accepted last.  A connection is known by its port and a
number that no other has while it is open. -/
structure Served where
  program : State
  open_ : Peer → List Nat
  last : Peer → Option Nat

/-- A move of the program, or mongoose closes a connection and frees it. -/
inductive PortMove
  | move (move : Move)
  | close (peer : Peer) (nc : Nat)

/-- The port that something is received on. -/
def Act.receives : Act → Option Peer
  | .dmcManifest _ => some .dmc
  | .hmiRecv _ => some .hmi
  | _ => none

/-- A connection is accepted under a number that is free, and received on while
one is open. -/
def Served.Admits (served : Served) (act : Act) : Prop :=
  (∀ accepted ∈ act.accepts, accepted.2 ∉ served.open_ accepted.1) ∧
    ∀ peer ∈ act.receives, served.open_ peer ≠ []

instance (served : Served) (act : Act) : Decidable (served.Admits act) :=
  inferInstanceAs (Decidable (_ ∧ _))

/-- The thread polls the connections of this port, and may see one closed. -/
def Thread.polls : Thread → Peer → Bool
  | .main .polling, .dmc | .hmi .serving, .hmi => true
  | _, _ => false

def openWith (open_ : Peer → List Nat) : Option (Peer × Nat) → Peer → List Nat
  | none => open_
  | some (peer, nc) => Function.update open_ peer (nc :: open_ peer)

def Served.record (served : Served) (program : State) (accepted : Option (Peer × Nat)) : Served :=
  { program := program
    open_ := openWith served.open_ accepted
    last := pointTo served.last accepted }

def Served.step (served : Served) : PortMove → Option Served
  | .move (self, act) =>
      if served.Admits act then
        (system.step served.program (self, act)).map
          (fun program => served.record program act.accepts)
      else none
  | .close peer nc =>
      if nc ∈ served.open_ peer ∧ served.program.threads.any (fun thread => thread.polls peer) then
        some
          { served with
            open_ := Function.update served.open_ peer ((served.open_ peer).erase nc) }
      else none

def ports : Machine Served PortMove where
  initial := { program := system.initial, open_ := fun _ => [], last := fun _ => none }
  step := Served.step

/-! ### Sends -/

/-- The inventory goes out through the connection its handler was given. -/
def Served.Announces (before : Served) : PortMove → Prop
  | .move (self, _) => ∃ nc, before.program.At self (.main (.accepting nc))
  | .close _ _ => False

/-- The step has sent a message through the pointer of `g_ctx` to this peer. -/
def Served.SendsThrough (before : Served) (move : PortMove) (after : Served) (peer : Peer) :
    Prop :=
  sends after.program.shared.past = peer :: sends before.program.shared.past ∧
    ¬ before.Announces move

/-- What is sent through a pointer of `g_ctx` goes to an open connection. -/
def SendsOpen (before : Served) (move : PortMove) (after : Served) : Prop :=
  ∀ peer, before.SendsThrough move after peer →
    ∃ nc ∈ before.open_ peer, before.program.shared.peer peer = some nc

/-- Whom a thread writes to at what happens to it: the monitor passes every
status report on to the DMC; the HMI is answered at once, or after the upgrade
has been started, and told of a status reply that settles nothing. -/
def Thread.writes (shared : Shared) : Thread → Act → Option Peer
  | .monitor .serving, .statusReport _ => some .dmc
  | .hmi .serving, .hmiRecv (some root) =>
      match hmiScan root.child shared.uuid 0 with
      | .error _ => none
      | .ok (_, code) =>
          if code = some upgradeProgress ∨ code = some checkNewPackage then some .hmi else none
  | .hmi (.unlock _), .tick => some .hmi
  | .cgw thread, .connection (.reply body) =>
      if thread.api = .tdrStat then
        match body.result with
        | none => none
        | some result =>
            match hmiRespUpgradeStatUpdate shared.gCtx.hmiUpgradeStat result with
            | .error _ => none
            | .ok (_, number) => if number = 0 then some .hmi else none
      else none
  | _, _ => none

/-- Where the step writes to a peer, the connection that peer has made last is
still open. -/
def Served.LastOpen (before : Served) : PortMove → Prop
  | .move (self, act) =>
      ∀ thread, before.program.At self thread → ∀ peer,
        thread.writes before.program.shared act = some peer →
          ∀ nc ∈ before.last peer, nc ∈ before.open_ peer
  | .close _ _ => True

private theorem writes_of_idle {shared : Shared} {thread : Thread} {act : Act}
    (idle : ¬ thread.Deals act) : thread.writes shared act = none := by
  unfold Thread.writes
  split
  · exact absurd trivial idle
  · exact absurd trivial idle
  · exact absurd trivial idle
  · split
    · rename_i status
      exact absurd status idle
    · rfl
  · rfl

private theorem Dealing.sends_iff {shared after : Shared} {thread : Thread} {act : Act}
    (dealing : Dealing shared thread act after) (peer : Peer) :
    (sends after.past = peer :: sends shared.past ∧ ¬ ∃ nc, thread = .main (.accepting nc)) ↔
      thread.writes shared act = some peer ∧ shared.peer peer ≠ none := by
  have silent (same : sends after.past = sends shared.past)
      (nobody : thread.writes shared act = none) :
      (sends after.past = peer :: sends shared.past ∧
          ¬ ∃ nc, thread = .main (.accepting nc)) ↔
        thread.writes shared act = some peer ∧ shared.peer peer ≠ none := by
    rw [same, nobody]
    simp
  have written (target : Peer) (sent : sends after.past = target :: sends shared.past)
      (writes : thread.writes shared act = some target) (there : shared.peer target ≠ none)
      (other : ¬ ∃ nc, thread = .main (.accepting nc)) :
      (sends after.past = peer :: sends shared.past ∧
          ¬ ∃ nc, thread = .main (.accepting nc)) ↔
        thread.writes shared act = some peer ∧ shared.peer peer ≠ none := by
    rw [sent, writes, List.cons.injEq, Option.some.injEq]
    constructor
    · rintro ⟨⟨rfl, _⟩, _⟩
      exact ⟨rfl, there⟩
    · rintro ⟨rfl, _⟩
      exact ⟨⟨rfl, rfl⟩, other⟩
  cases dealing with
  | idle _ _ _ idle untouched => exact silent untouched.sends (writes_of_idle idle)
  | dmcAccepts nc => exact silent rfl rfl
  | announces nc bytes => simp [Thread.writes]
  | manifest root _ parsed parses kept peer none_ => exact silent none_ rfl
  | hmiAccepts nc => exact silent rfl rfl
  | requested root _ started nc there parses =>
      cases root with
      | none =>
          cases parses
          exact silent rfl rfl
      | some tree =>
          obtain ⟨uuid, code, scans, _, _, ⟨asks, set, sent⟩ | ⟨other, same⟩⟩ :=
            hmiPayloadParser_traffic parses
          · refine written .hmi sent ?_ set (by simp)
            simp only [Thread.writes, scans, if_pos asks]
          · refine silent same ?_
            simp only [Thread.writes, scans, if_neg other]
  | confirms request bytes there => exact written .hmi rfl rfl there (by simp)
  | dropsStatus body absent =>
      constructor
      · rintro ⟨sent, _⟩
        simp at sent
      · rintro ⟨writes, set⟩
        cases writes
        exact absurd absent set
  | passesStatus body nc bytes there =>
      refine written .dmc rfl rfl ?_ (by simp)
      intro unset
      exact Option.some_ne_none nc (there.symm.trans unset)
  | repliedBadly thread body status bad =>
      refine silent rfl ?_
      simp only [Thread.writes, if_pos status, bad]
  | reported thread body result reported _ verdict status carried settled untouched =>
      obtain ⟨stat, number, updates, _, _, ⟨busy, set, sent⟩ | ⟨settles, same⟩⟩ :=
        tdrStatReport_traffic settled
      · refine written .hmi (untouched.sends.trans sent) ?_ set (by simp)
        have update : hmiRespUpgradeStatUpdate shared.gCtx.hmiUpgradeStat result =
            .ok (stat, number) := updates
        simp only [Thread.writes, if_pos status, carried, update, if_pos busy]
      · refine silent (untouched.sends.trans same) ?_
        have update : hmiRespUpgradeStatUpdate shared.gCtx.hmiUpgradeStat result =
            .ok (stat, number) := updates
        simp only [Thread.writes, if_pos status, carried, update, if_neg settles]

/-! ### Pointers and connections -/

/-- The pointers of `g_ctx` are to the connections accepted last. -/
def Served.Tracks (served : Served) : Prop :=
  served.program.shared.peer = served.last

private theorem Served.step_move {before after : Served} {self : Nat} {act : Act}
    (taken : before.step (.move (self, act)) = some after) :
    before.Admits act ∧ ∃ thread done, before.program.At self thread ∧
      perform before.program.shared self thread act = some done ∧
      after = before.record (before.program.apply self done) act.accepts := by
  simp only [Served.step] at taken
  split at taken
  · rename_i admits
    obtain ⟨program, moved, rfl⟩ := Option.map_eq_some_iff.mp taken
    obtain ⟨thread, done, here, performed, rfl⟩ := Pool.step_eq_some moved
    exact ⟨admits, thread, done, here, performed, rfl⟩
  · contradiction

private theorem Served.step_close {before after : Served} {peer : Peer} {nc : Nat}
    (taken : before.step (.close peer nc) = some after) :
    after = { before with
      open_ := Function.update before.open_ peer ((before.open_ peer).erase nc) } := by
  simp only [Served.step] at taken
  split at taken
  · exact (Option.some.inj taken).symm
  · contradiction

private theorem tracks_step {before after : Served} {move : PortMove} (tracks : before.Tracks)
    (taken : before.step move = some after) : after.Tracks := by
  cases move with
  | close peer nc =>
      obtain rfl := Served.step_close taken
      exact tracks
  | move move =>
      obtain ⟨self, act⟩ := move
      obtain ⟨_, thread, done, _, performed, rfl⟩ := Served.step_move taken
      have dealing := Dealing.of_perform performed
      unfold Served.Tracks at tracks ⊢
      simp only [Served.record, Pool.apply_shared]
      rw [dealing.peer, tracks]

private theorem sendsOpen_step_iff {before after : Served} {move : PortMove} (tracks : before.Tracks)
    (taken : before.step move = some after) :
    SendsOpen before move after ↔ before.LastOpen move := by
  cases move with
  | close peer nc =>
      obtain rfl := Served.step_close taken
      refine iff_of_true ?_ trivial
      rintro other ⟨sent, _⟩
      simp at sent
  | move move =>
      obtain ⟨self, act⟩ := move
      obtain ⟨_, thread, done, here, performed, rfl⟩ := Served.step_move taken
      have announces : before.Announces (.move (self, act)) ↔
          ∃ nc, thread = .main (.accepting nc) := by
        constructor
        · rintro ⟨nc, there⟩
          exact ⟨nc, here.unique there⟩
        · rintro ⟨nc, rfl⟩
          exact ⟨nc, here⟩
      have through (peer : Peer) := (Dealing.of_perform performed).sends_iff peer
      unfold SendsOpen Served.SendsThrough Served.LastOpen
      simp only [announces, Served.record, Pool.apply_shared]
      unfold Served.Tracks at tracks
      constructor
      · intro open_ other same peer writes nc isLast
        obtain rfl := here.unique same
        have set : before.program.shared.peer peer = some nc := by
          rw [tracks]
          exact isLast
        have sent := (through peer).mpr ⟨writes, by simp [set]⟩
        obtain ⟨found, isOpen, points⟩ := open_ peer sent
        cases set.symm.trans points
        exact isOpen
      · intro lastOpen peer sent
        obtain ⟨writes, set⟩ := (through peer).mp sent
        obtain ⟨nc, points⟩ := Option.ne_none_iff_exists'.mp set
        exact ⟨nc, lastOpen thread here peer writes nc (tracks ▸ points), points⟩

/-- Along any run of accepts, closes, traffic and the program's own steps, every
message through `g_ctx.dmc` or `g_ctx.hmi` is sent on an open connection exactly
as long as nothing is written to a peer after its last connection was closed. -/
theorem sendsOpen_iff (moves : List PortMove) :
    ports.Along SendsOpen ports.initial moves ↔
      ports.Along (fun before move _ => before.LastOpen move) ports.initial moves := by
  have start : ports.initial.Tracks := by
    funext peer
    cases peer <;> rfl
  refine Machine.along_iff_of_invariant ?_ ?_ start moves
  · intro before move after tracks taken
    exact sendsOpen_step_iff tracks taken
  · intro before move after tracks taken _
    exact tracks_step tracks taken

/-- The DMC connects and is announced to, closes, and a status report comes. -/
theorem status_sent_to_closed :
    ¬ ∀ moves : List PortMove, ports.Along SendsOpen ports.initial moves := by
  intro always
  have along := always
    ([.move (0, .tick), .move (0, .tick), .move (0, .dmcAccept 0), .move (0, .tick),
      .close .dmc 0, .move (2, .tick)] ++ [.move (2, .statusReport [])])
  have broken := along.of_run (by rfl) (by rfl) .dmc
  obtain ⟨nc, isOpen, _⟩ := broken ⟨by rfl, by rintro ⟨nc, there⟩; cases there⟩
  cases isOpen

/-! ### Pointers that are set -/

/-- The peer that must have been there for the thread to have come about. -/
def Thread.answers : Thread → Option Peer
  | .main (.accepting _) | .monitor _ => some .dmc
  | .hmi (.waiting _ _) | .hmi (.lock _) | .hmi (.acting _) | .hmi (.unlock _) => some .hmi
  | .cgw thread => if thread.api = .tdrRun ∨ thread.api = .tdrStat then some .hmi else none
  | _ => none

theorem Handling.answers {shared : Shared} {self caller : Nat} {api : Api} {event : CgwEvent}
    {handled : Handled} (handling : Handling shared self caller api event handled)
    {found : Thread} (fresh : found ∈ handled.started) {peer : Peer}
    (answers : found.answers = some peer) : (api = .tdrRun ∨ api = .tdrStat) ∧ peer = .hmi := by
  rcases handling.started_cases fresh with ⟨_, rfl⟩ | ⟨status, rfl⟩
  · contradiction
  · exact ⟨status, (Option.some.inj answers).symm⟩

/-- A thread answers to a peer it answered to before, or that its parent did, or
that has just connected or asked. -/
theorem Step.answers {shared : Shared} {self : Nat} {thread : Thread} {act : Act} {done : Done}
    (step : Step shared self thread act done) {found : Thread}
    (after : found = done.thread ∨ found ∈ done.spawned) {peer : Peer}
    (answers : found.answers = some peer) :
    thread.answers = some peer ∨ (∃ nc, act = .dmcAccept nc ∧ peer = .dmc) ∨
      (∃ root, act = .hmiRecv root) ∧ peer = .hmi := by
  cases step with
  | mainAccepts nc left keeps =>
      rcases after with rfl | fresh
      · exact .inr (.inl ⟨nc, rfl, (Option.some.inj answers).symm⟩)
      · obtain rfl := List.mem_singleton.mp fresh
        contradiction
  | mainAnnounces nc left keeps =>
      rcases after with rfl | fresh
      · contradiction
      · obtain rfl := List.mem_singleton.mp fresh
        exact .inl answers
  | mainManifest root effect accepts =>
      rcases after with rfl | fresh
      · contradiction
      · rw [accepts.started] at fresh
        obtain rfl := List.mem_singleton.mp fresh
        contradiction
  | hmiStarts root left respLen keeps ready start =>
      rcases after with rfl | fresh
      · exact .inr (.inr ⟨⟨root, rfl⟩, (Option.some.inj answers).symm⟩)
      · cases fresh
  | hmiActs request =>
      rcases after with rfl | fresh
      · exact .inl answers
      · obtain rfl := List.mem_singleton.mp fresh
        exact .inl answers
  | cgwHandles thread here event conn had handled handling =>
      rcases after with rfl | fresh
      · exact .inl answers
      · obtain ⟨status, rfl⟩ := handling.answers fresh answers
        exact .inl (if_pos status)
  | downloaderReports thread here succeeded =>
      rcases after with rfl | fresh
      · contradiction
      · obtain rfl := List.mem_singleton.mp fresh
        contradiction
  | mainBusy | mainFree | mainLocks | mainDownloading | mainUnlocks | hmiDeaf | hmiBinds
  | hmiServes | hmiUnlocks =>
      rcases after with rfl | fresh
      · contradiction
      · cases fresh
  | _ =>
      rcases after with rfl | fresh
      · exact .inl answers
      · cases fresh

/-- The peers that threads answer to have been there, and so has every port that
has an open connection. -/
structure Served.Pointed (served : Served) : Prop where
  threads : served.program.Each fun _ thread => ∀ peer, thread.answers = some peer →
    served.last peer ≠ none
  ports : ∀ peer, served.open_ peer ≠ [] → served.last peer ≠ none

private theorem pointTo_ne_none {pointers : Peer → Option Nat} {peer : Peer}
    (accepted : Option (Peer × Nat)) (set : pointers peer ≠ none) :
    pointTo pointers accepted peer ≠ none := by
  cases accepted with
  | none => exact set
  | some found =>
      by_cases same : peer = found.1
      · subst same
        simp [pointTo]
      · simpa [pointTo, same] using set

private theorem pointed_step {before after : Served} {move : PortMove} (pointed : before.Pointed)
    (taken : before.step move = some after) : after.Pointed := by
  cases move with
  | close peer nc =>
      obtain rfl := Served.step_close taken
      constructor
      · exact pointed.threads
      · intro other some_
        refine pointed.ports other ?_
        intro nothing
        by_cases same : other = peer
        · subst same
          simp [nothing] at some_
        · simp [same, nothing] at some_
  | move move =>
      obtain ⟨self, act⟩ := move
      obtain ⟨admits, thread, done, here, performed, rfl⟩ := Served.step_move taken
      have step := Step.of_perform performed
      have answered (found : Thread) (mine : found = done.thread ∨ found ∈ done.spawned)
          (peer : Peer) (answers : found.answers = some peer) :
          pointTo before.last act.accepts peer ≠ none := by
        rcases step.answers mine answers with was | ⟨nc, rfl, rfl⟩ | ⟨⟨root, rfl⟩, rfl⟩
        · exact pointTo_ne_none _ (pointed.threads self thread here peer was)
        · simp [Act.accepts, pointTo]
        · exact pointed.ports .hmi (admits.2 .hmi rfl)
      constructor
      · refine Pool.Each.apply pointed.threads here ?_ ?_ ?_
        · exact answered done.thread (.inl rfl)
        · intro other found _ _ set peer answers
          exact pointTo_ne_none _ (set peer answers)
        · intro other found _ fresh
          exact answered found (.inr fresh)
      · intro peer some_
        cases accepted : act.accepts with
        | none =>
            simp only [Served.record, accepted, openWith] at some_
            simpa [Served.record, accepted, pointTo] using pointed.ports peer some_
        | some found =>
            by_cases same : peer = found.1
            · subst same
              simp [Served.record, pointTo]
            · have before_ : before.open_ peer ≠ [] := by
                simpa [Served.record, accepted, openWith, same] using some_
              simpa [Served.record, accepted, pointTo, same] using pointed.ports peer before_

private theorem tracks_of_reachable {served : Served} (reached : ports.Reachable served) :
    served.Tracks ∧ served.Pointed := by
  induction reached with
  | initial =>
      refine ⟨funext (fun peer => by cases peer <;> rfl), ?_, ?_⟩
      · intro index found there peer answers
        obtain ⟨_, rfl⟩ := system_initial_at there
        contradiction
      · intro peer some_
        exact absurd rfl some_
  | step _ _ taken ih => exact ⟨tracks_step ih.1 taken, pointed_step ih.2 taken⟩

private theorem answers_of_writes {shared : Shared} {thread : Thread} {act : Act} {peer : Peer}
    (writes : thread.writes shared act = some peer) :
    thread.answers = some peer ∨ act.receives = some peer := by
  unfold Thread.writes at writes
  split at writes
  · exact .inl writes
  · split at writes
    · contradiction
    · split_ifs at writes
      exact .inr writes
  · exact .inl writes
  · split_ifs at writes with status
    split at writes
    · contradiction
    · split at writes
      · contradiction
      · split_ifs at writes
        simp only [Thread.answers, status, or_true, if_true]
        exact .inl writes
  · contradiction

/-- No thread comes to write to a peer whose pointer is still NULL. -/
theorem pointer_set_of_writes {served : Served} (reached : ports.Reachable served) {self : Nat}
    {act : Act} (admits : served.Admits act) {thread : Thread}
    (here : served.program.At self thread) {peer : Peer}
    (writes : thread.writes served.program.shared act = some peer) :
    served.program.shared.peer peer ≠ none := by
  obtain ⟨tracks, pointed⟩ := tracks_of_reachable reached
  unfold Served.Tracks at tracks
  rw [tracks]
  rcases answers_of_writes writes with answers | receives
  · exact pointed.threads self thread here peer answers
  · exact pointed.ports peer (admits.2 peer receives)

end DlcServer
