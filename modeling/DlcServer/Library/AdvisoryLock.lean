/-
An advisory lock over a pool of threads.

The lock is a cell that remembers which thread wrote it.  Nothing stops a thread
from writing a lock that is held: a thread is in its critical section from its
own writing of the cell to its own clearing of it, whatever the others do.  What
is proved here is that sections exclude each other as long as every writer finds
the cell clear, and that they no longer do when one does not.
-/

import DlcServer.Library.Pool

namespace Library

namespace Pool

variable {Shared Thread : Type}

/-- What an action does with the lock: leave it, enter its section or end it. -/
inductive LockUse (lock : Shared → Option Nat) (critical : Thread → Prop) (shared : Shared)
    (index : Nat) (thread : Thread) (outcome : Outcome Shared Thread) : Prop
  | stays (same : critical outcome.thread ↔ critical thread)
      (kept : lock outcome.shared = lock shared)
  | takes (outside : ¬ critical thread) (inside : critical outcome.thread)
      (written : lock outcome.shared = some index)
  | gives (inside : critical thread) (outside : ¬ critical outcome.thread)
      (cleared : lock outcome.shared = none)

/-- A thread in its section is the writer of the lock, and a lock that is
written has its writer in its section. -/
structure Owned (lock : Shared → Option Nat) (critical : Thread → Prop)
    (pool : Pool Shared Thread) : Prop where
  writer : ∀ index thread, pool.At index thread → critical thread →
    lock pool.shared = some index
  owner : ∀ index, lock pool.shared = some index →
    ∃ thread, pool.At index thread ∧ critical thread

variable {lock : Shared → Option Nat} {critical : Thread → Prop}
  {pool : Pool Shared Thread} {index : Nat} {thread : Thread}
  {outcome : Outcome Shared Thread}

theorem Owned.atMostOne (owned : pool.Owned lock critical) : pool.AtMostOne critical := by
  intro first second left right atFirst atSecond inLeft inRight
  have wrote := owned.writer first left atFirst inLeft
  rw [owned.writer second right atSecond inRight] at wrote
  exact (Option.some.inj wrote).symm

theorem Owned.apply (owned : pool.Owned lock critical) (here : pool.At index thread)
    (use : LockUse lock critical pool.shared index thread outcome)
    (spawned : ∀ found ∈ outcome.spawned, ¬ critical found)
    (free : ¬ critical thread → critical outcome.thread → lock pool.shared = none) :
    (pool.apply index outcome).Owned lock critical := by
  constructor
  · intro other found there inside
    rw [apply_shared]
    rcases here.of_apply there with ⟨rfl, rfl⟩ | ⟨different, old⟩ | ⟨_, started⟩
    · cases use with
      | stays same kept => rw [kept, owned.writer _ _ here (same.mp inside)]
      | takes _ _ written => exact written
      | gives _ outside _ => exact absurd inside outside
    · have wrote := owned.writer other found old inside
      cases use with
      | stays _ kept => rw [kept, wrote]
      | takes outside inside _ =>
          rw [free outside inside] at wrote
          contradiction
      | gives mine _ _ =>
          rw [owned.writer _ _ here mine] at wrote
          exact absurd (Option.some.inj wrote).symm different
    · exact absurd inside (spawned found started)
  · intro other wrote
    rw [apply_shared] at wrote
    cases use with
    | stays same kept =>
        rw [kept] at wrote
        obtain ⟨found, there, inside⟩ := owned.owner other wrote
        by_cases self : other = index
        · subst self
          have alike := there.unique here
          subst alike
          exact ⟨outcome.thread, here.apply_self, same.mpr inside⟩
        · exact ⟨found, there.apply_other self, inside⟩
    | takes _ inside written =>
        rw [written] at wrote
        obtain rfl := Option.some.inj wrote
        exact ⟨outcome.thread, here.apply_self, inside⟩
    | gives _ _ cleared =>
        rw [cleared] at wrote
        contradiction

theorem Owned.not_atMostOne_of_held (owned : pool.Owned lock critical)
    (here : pool.At index thread) (outside : ¬ critical thread)
    (inside : critical outcome.thread) (held : lock pool.shared ≠ none) :
    ¬ (pool.apply index outcome).AtMostOne critical := by
  intro one
  obtain ⟨holder, wrote⟩ := Option.ne_none_iff_exists'.mp held
  obtain ⟨found, there, already⟩ := owned.owner holder wrote
  have different : holder ≠ index := by
    intro same
    subst same
    have alike := there.unique here
    subst alike
    exact outside already
  exact different (one _ _ _ _ (there.apply_other different) here.apply_self already inside)

end Pool

end Library
