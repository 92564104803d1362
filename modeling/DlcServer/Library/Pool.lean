/-
Pools of threads that interleave over one shared state.

A thread is what it does next together with what it keeps for itself.  One
thread at a time performs one action on the shared state and its own record,
and may start further threads.  A thread keeps its place in the pool for good,
so that its index names it also after it has ended.
-/

import DlcServer.Library.Machine

namespace Library

structure Pool (Shared Thread : Type) where
  shared : Shared
  threads : List Thread

/-- What one action of one thread leaves behind. -/
structure Outcome (Shared Thread : Type) where
  shared : Shared
  thread : Thread
  spawned : List Thread

namespace Pool

variable {Shared Thread : Type}

/-- Thread `index` of the pool is `thread`. -/
def At (pool : Pool Shared Thread) (index : Nat) (thread : Thread) : Prop :=
  pool.threads[index]? = some thread

def apply (pool : Pool Shared Thread) (index : Nat)
    (outcome : Outcome Shared Thread) : Pool Shared Thread :=
  { shared := outcome.shared
    threads := pool.threads.set index outcome.thread ++ outcome.spawned }

@[simp] theorem apply_shared (pool : Pool Shared Thread) (index : Nat)
    (outcome : Outcome Shared Thread) :
    (pool.apply index outcome).shared = outcome.shared :=
  rfl

/-- Threads act one at a time, in any order. -/
def step {Act : Type}
    (perform : Shared → Nat → Thread → Act → Option (Outcome Shared Thread))
    (pool : Pool Shared Thread) (move : Nat × Act) : Option (Pool Shared Thread) :=
  match pool.threads[move.1]? with
  | none => none
  | some thread =>
      match perform pool.shared move.1 thread move.2 with
      | none => none
      | some outcome => some (pool.apply move.1 outcome)

theorem step_eq_some {Act : Type}
    {perform : Shared → Nat → Thread → Act → Option (Outcome Shared Thread)}
    {pool after : Pool Shared Thread} {move : Nat × Act}
    (taken : pool.step perform move = some after) :
    ∃ thread outcome, pool.At move.1 thread ∧
      perform pool.shared move.1 thread move.2 = some outcome ∧
      after = pool.apply move.1 outcome := by
  unfold step at taken
  cases found : pool.threads[move.1]? with
  | none =>
      rw [found] at taken
      contradiction
  | some thread =>
      rw [found] at taken
      cases performed : perform pool.shared move.1 thread move.2 with
      | none =>
          simp only [performed] at taken
          contradiction
      | some outcome =>
          simp only [performed, Option.some.injEq] at taken
          exact ⟨thread, outcome, found, performed, taken.symm⟩

/-! ### Where a thread of the new pool comes from -/

variable {pool : Pool Shared Thread} {index : Nat} {thread : Thread}
  {outcome : Outcome Shared Thread}

theorem At.lt (here : pool.At index thread) : index < pool.threads.length :=
  (List.getElem?_eq_some_iff.mp here).1

theorem At.unique {other : Thread} (here : pool.At index thread)
    (again : pool.At index other) : thread = other :=
  Option.some.inj (Eq.trans (Eq.symm here) again)

theorem At.of_apply (here : pool.At index thread) {other : Nat} {found : Thread}
    (after : (pool.apply index outcome).At other found) :
    (other = index ∧ found = outcome.thread) ∨
      (other ≠ index ∧ pool.At other found) ∨
      (pool.threads.length ≤ other ∧ found ∈ outcome.spawned) := by
  have bound := here.lt
  unfold At apply at after
  rw [List.getElem?_append] at after
  split at after
  · rename_i inside
    rw [List.getElem?_set] at after
    split at after
    · rename_i same
      exact .inl ⟨same.symm, (Option.some.inj after).symm⟩
    · rename_i different
      exact .inr (.inl ⟨fun same => different same.symm, after⟩)
  · rename_i outside
    rw [List.length_set] at outside
    exact .inr (.inr ⟨by omega, List.mem_of_getElem? after⟩)

theorem At.apply_self (here : pool.At index thread) :
    (pool.apply index outcome).At index outcome.thread := by
  have bound := here.lt
  unfold At apply
  rw [List.getElem?_append_left (by simpa using bound), List.getElem?_set_self bound]

theorem At.apply_other {other : Nat} {found : Thread}
    (there : pool.At other found) (different : other ≠ index) :
    (pool.apply index outcome).At other found := by
  have bound := there.lt
  unfold At apply
  rw [List.getElem?_append_left (by simpa using bound),
    List.getElem?_set_ne (fun same => different same.symm)]
  exact there

/-! ### Properties of every thread -/

/-- Every thread of the pool, with its index, satisfies `holds`. -/
def Each (holds : Nat → Thread → Prop) (pool : Pool Shared Thread) : Prop :=
  ∀ index thread, pool.At index thread → holds index thread

/-- What the acting thread and the started ones satisfy, and what the step
does not take from the others, holds of every thread after the step. -/
theorem Each.apply {before after : Nat → Thread → Prop}
    (each : pool.Each before) (here : pool.At index thread)
    (self : after index outcome.thread)
    (others : ∀ other found, other ≠ index → pool.At other found →
      before other found → after other found)
    (spawned : ∀ other found, pool.threads.length ≤ other →
      found ∈ outcome.spawned → after other found) :
    (pool.apply index outcome).Each after := by
  intro other found there
  rcases here.of_apply there with ⟨rfl, rfl⟩ | ⟨different, old⟩ | ⟨fresh, started⟩
  · exact self
  · exact others other found different old (each other found old)
  · exact spawned other found fresh started

/-! ### Properties of at most one thread -/

/-- At most one thread of the pool satisfies `holds`. -/
def AtMostOne (holds : Thread → Prop) (pool : Pool Shared Thread) : Prop :=
  ∀ first second left right, pool.At first left → pool.At second right →
    holds left → holds right → first = second

/-- A step after which the acting thread has the property only if it had it
before, and which starts no thread with it, leaves at most one. -/
theorem AtMostOne.keep {holds : Thread → Prop} (one : pool.AtMostOne holds)
    (here : pool.At index thread) (self : holds outcome.thread → holds thread)
    (spawned : ∀ found ∈ outcome.spawned, ¬ holds found) :
    (pool.apply index outcome).AtMostOne holds := by
  intro first second left right atFirst atSecond holdsLeft holdsRight
  rcases here.of_apply atFirst with ⟨rfl, rfl⟩ | ⟨_, oldLeft⟩ | ⟨_, startedLeft⟩
  · rcases here.of_apply atSecond with ⟨rfl, _⟩ | ⟨_, oldRight⟩ | ⟨_, startedRight⟩
    · rfl
    · exact one _ _ _ _ here oldRight (self holdsLeft) holdsRight
    · exact absurd holdsRight (spawned right startedRight)
  · rcases here.of_apply atSecond with ⟨rfl, rfl⟩ | ⟨_, oldRight⟩ | ⟨_, startedRight⟩
    · exact one _ _ _ _ oldLeft here holdsLeft (self holdsRight)
    · exact one _ _ _ _ oldLeft oldRight holdsLeft holdsRight
    · exact absurd holdsRight (spawned right startedRight)
  · exact absurd holdsLeft (spawned left startedLeft)

theorem AtMostOne.take {holds : Thread → Prop} (here : pool.At index thread)
    (others : ∀ other found, other ≠ index → pool.At other found → ¬ holds found)
    (spawned : ∀ found ∈ outcome.spawned, ¬ holds found) :
    (pool.apply index outcome).AtMostOne holds := by
  have only (other : Nat) (found : Thread)
      (there : (pool.apply index outcome).At other found)
      (held : holds found) : other = index := by
    rcases here.of_apply there with ⟨same, _⟩ | ⟨different, old⟩ | ⟨_, started⟩
    · exact same
    · exact absurd held (others other found different old)
    · exact absurd held (spawned found started)
  intro first second left right atFirst atSecond holdsLeft holdsRight
  exact (only first left atFirst holdsLeft).trans
    (only second right atSecond holdsRight).symm

theorem AtMostOne.pass {holds : Thread → Prop} {child : Thread}
    (here : pool.At index thread)
    (others : ∀ other found, other ≠ index → pool.At other found → ¬ holds found)
    (self : ¬ holds outcome.thread) (single : outcome.spawned = [child]) :
    (pool.apply index outcome).AtMostOne holds := by
  have only (other : Nat) (found : Thread)
      (there : (pool.apply index outcome).At other found)
      (held : holds found) : other = pool.threads.length := by
    rcases here.of_apply there with ⟨_, rfl⟩ | ⟨different, old⟩ | ⟨fresh, _⟩
    · exact absurd held self
    · exact absurd held (others other found different old)
    · have bound := there.lt
      unfold apply at bound
      rw [single, List.length_append, List.length_set, List.length_singleton] at bound
      omega
  intro first second left right atFirst atSecond holdsLeft holdsRight
  exact (only first left atFirst holdsLeft).trans
    (only second right atSecond holdsRight).symm

end Pool

end Library
