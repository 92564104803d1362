/-
Partial machines and the runs they make.

A machine is an initial state and a step function that refuses the moves that
are not enabled.  Two notions of run are used side by side: the states reached
under a guard on every step, which is what invariants are proved about, and
explicit lists of moves, which a concrete run can be given as.
-/

namespace Library

/-- A labelled machine; `none` says that the move is not enabled. -/
structure Machine (State Move : Type) where
  initial : State
  step : State → Move → Option State

namespace Machine

variable {State Move : Type} (machine : Machine State Move)

/-! ### Guarded reachability -/

/-- The states reached when every step taken satisfies `guard` in the state it
is taken from. -/
inductive Reaches (guard : State → Move → Prop) : State → Prop
  | initial : Reaches guard machine.initial
  | step {before : State} {move : Move} {after : State}
      (earlier : Reaches guard before) (allowed : guard before move)
      (taken : machine.step before move = some after) : Reaches guard after

/-- The states of unrestricted runs. -/
def Reachable (state : State) : Prop :=
  machine.Reaches (fun _ _ => True) state

variable {machine}

/-- What holds at the start and is kept by every guarded step from a state that
is reached holds in every state of a guarded run. -/
theorem Reaches.invariant {guard : State → Move → Prop} {holds : State → Prop}
    (start : holds machine.initial)
    (kept : ∀ before move after, machine.Reaches guard before → holds before →
      guard before move → machine.step before move = some after → holds after)
    {state : State} (reached : machine.Reaches guard state) : holds state := by
  induction reached with
  | initial => exact start
  | step earlier allowed taken ih => exact kept _ _ _ earlier ih allowed taken

/-! ### Explicit runs -/

variable (machine)

/-- The state a list of moves leads to, when each of them is enabled. -/
def run : State → List Move → Option State
  | state, [] => some state
  | state, move :: rest =>
      match machine.step state move with
      | none => none
      | some next => run next rest

/-- Every step made along the list of moves satisfies `holds`; the list ends
where a move is not enabled. -/
def Along (holds : State → Move → State → Prop) : State → List Move → Prop
  | _, [] => True
  | state, move :: rest =>
      ∀ next, machine.step state move = some next →
        holds state move next ∧ Along holds next rest

instance decidableAlong (holds : State → Move → State → Prop)
    [∀ state move next, Decidable (holds state move next)] :
    ∀ state moves, Decidable (machine.Along holds state moves)
  | _, [] => isTrue trivial
  | state, move :: rest =>
      match taken : machine.step state move with
      | none => isTrue (fun next same => by rw [taken] at same; contradiction)
      | some next =>
          have := decidableAlong holds next rest
          decidable_of_iff (holds state move next ∧ machine.Along holds next rest)
            ⟨fun both other same => by
              obtain rfl := Option.some.inj (taken.symm.trans same)
              exact both, fun along => along next taken⟩

variable {machine}

theorem Reaches.of_run {guard : State → Move → Prop} (moves : List Move)
    {before after : State} (reached : machine.Reaches guard before)
    (allowed : machine.Along (fun state move _ => guard state move) before moves)
    (ran : machine.run before moves = some after) :
    machine.Reaches guard after := by
  induction moves generalizing before with
  | nil =>
      cases ran
      exact reached
  | cons move rest ih =>
      cases taken : machine.step before move with
      | none =>
          simp only [run, taken] at ran
          contradiction
      | some next =>
          simp only [run, taken] at ran
          have first := allowed next taken
          exact ih (.step reached first.1 taken) first.2 ran

theorem along_of_forall {holds : State → Move → State → Prop}
    (every : ∀ state move next, machine.step state move = some next →
      holds state move next)
    (state : State) (moves : List Move) : machine.Along holds state moves := by
  induction moves generalizing state with
  | nil => trivial
  | cons move rest ih =>
      intro next taken
      exact ⟨every state move next taken, ih next⟩

theorem Along.of_run {holds : State → Move → State → Prop} {moves : List Move} {move : Move}
    {first before after : State} (along : machine.Along holds first (moves ++ [move]))
    (ran : machine.run first moves = some before)
    (taken : machine.step before move = some after) : holds before move after := by
  induction moves generalizing first with
  | nil =>
      cases ran
      exact (along after taken).1
  | cons earlier rest ih =>
      cases stepped : machine.step first earlier with
      | none =>
          simp only [run, stepped] at ran
          contradiction
      | some next =>
          simp only [run, stepped] at ran
          exact ih (along next stepped).2 ran

theorem run_concat {moves : List Move} {move : Move} {first before after : State}
    (ran : machine.run first moves = some before)
    (taken : machine.step before move = some after) :
    machine.run first (moves ++ [move]) = some after := by
  induction moves generalizing first with
  | nil =>
      cases ran
      simp only [List.nil_append, run, taken]
  | cons earlier rest ih =>
      cases stepped : machine.step first earlier with
      | none =>
          simp only [run, stepped] at ran
          contradiction
      | some next =>
          simp only [run, stepped] at ran
          simp only [List.cons_append, run, stepped]
          exact ih ran

/-- Where every step is followed by a step of the other machine, every run is
followed by a run of it. -/
theorem run_simulates {Other Label : Type} {other : Machine Other Label}
    {related : State → Other → Prop} {allowed : Move → Prop} {label : Move → Label}
    (follows : ∀ state partner move next, related state partner → allowed move →
      machine.step state move = some next →
        ∃ after, other.step partner (label move) = some after ∧ related next after)
    {moves : List Move} (each : ∀ move ∈ moves, allowed move)
    {state final : State} {partner : Other} (start : related state partner)
    (ran : machine.run state moves = some final) :
    ∃ after, other.run partner (moves.map label) = some after ∧ related final after := by
  induction moves generalizing state partner with
  | nil =>
      cases ran
      exact ⟨partner, rfl, start⟩
  | cons move rest ih =>
      obtain ⟨first, later⟩ := List.forall_mem_cons.mp each
      cases stepped : machine.step state move with
      | none =>
          simp only [run, stepped] at ran
          contradiction
      | some next =>
          simp only [run, stepped] at ran
          obtain ⟨reached, followed, again⟩ := follows state partner move next start first stepped
          simp only [List.map_cons, run, followed]
          exact ih later again ran

theorem Reachable.of_run {moves : List Move} {state : State}
    (ran : machine.run machine.initial moves = some state) :
    machine.Reachable state :=
  Reaches.of_run moves .initial (along_of_forall (fun _ _ _ _ => trivial) _ _) ran

/-- Two step properties hold along the same runs when, under an invariant that
the first one keeps, each step has both or neither. -/
theorem along_iff_of_invariant {invariant : State → Prop}
    {first second : State → Move → State → Prop}
    (agree : ∀ state move next, invariant state →
      machine.step state move = some next →
        (first state move next ↔ second state move next))
    (kept : ∀ state move next, invariant state →
      machine.step state move = some next → first state move next →
        invariant next)
    {state : State} (start : invariant state) (moves : List Move) :
    machine.Along first state moves ↔ machine.Along second state moves := by
  induction moves generalizing state with
  | nil => exact Iff.rfl
  | cons move rest ih =>
      constructor
      · intro along next taken
        have step := along next taken
        have later := kept state move next start taken step.1
        exact ⟨(agree state move next start taken).mp step.1,
          (ih later).mp step.2⟩
      · intro along next taken
        have step := along next taken
        have here := (agree state move next start taken).mpr step.1
        have later := kept state move next start taken here
        exact ⟨here, (ih later).mpr step.2⟩

/-- Two step properties that no step tells apart hold along the same runs. -/
theorem along_iff_of_forall {first second : State → Move → State → Prop}
    (agree : ∀ state move next, machine.step state move = some next →
      (first state move next ↔ second state move next))
    (state : State) (moves : List Move) :
    machine.Along first state moves ↔ machine.Along second state moves := by
  refine @along_iff_of_invariant _ _ machine (fun _ => True) first second ?_ ?_ state trivial
    moves
  · intro before move next _ taken
    exact agree before move next taken
  · intros
    trivial

end Machine

end Library
