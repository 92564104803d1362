/-
Calls that open, use and close handles.

A program keeps one handle of each kind in a variable and makes its calls
through these variables.  The calls are recorded newest first, and every handle
that is opened gets a number of its own, so that a handle which is closed and
one which is opened later are told apart even where the system uses the same
address for both.
-/

import Mathlib.Data.List.Infix
import Mathlib.Logic.Function.Basic

namespace Library

/-- `none` is NULL: what a failed opening returns. -/
inductive HandleCall (Kind : Type)
  | opened (kind : Kind) (result : Option Nat)
  | used (kind : Kind) (handle : Option Nat)
  | closed (handle : Option Nat)
  deriving DecidableEq, Repr

namespace HandleCall

variable {Kind : Type}

/-! ### What is asked of the calls -/

/-- After `calls` the handle is open, and for this kind of use. -/
def IsOpen (calls : List (HandleCall Kind)) (kind : Kind) (handle : Nat) : Prop :=
  .opened kind (some handle) ∈ calls ∧ .closed (some handle) ∉ calls

/-- Only open handles are used and closed, and before another opening of its
kind an opened handle is closed exactly once. -/
structure Disciplined [DecidableEq Kind] (calls : List (HandleCall Kind)) : Prop where
  used : ∀ kind handle before, .used kind handle :: before <:+ calls →
    ∃ there, handle = some there ∧ IsOpen before kind there
  closed : ∀ handle before, .closed handle :: before <:+ calls →
    ∃ there kind, handle = some there ∧ IsOpen before kind there
  closedOnce : ∀ kind handle result between before,
    .opened kind result :: (between ++ .opened kind (some handle) :: before) <:+ calls →
      between.count (.closed (some handle)) = 1

/-- Every handle that was opened has been closed exactly once. -/
def AllClosed [DecidableEq Kind] (calls : List (HandleCall Kind)) : Prop :=
  ∀ kind handle after before, calls = after ++ .opened kind (some handle) :: before →
    after.count (.closed (some handle)) = 1

/-! ### Calls through variables -/

/-- The calls a program makes when it opens into an empty variable only, uses
what its variables hold and empties a variable when it closes what is there. -/
inductive Orderly [DecidableEq Kind] : List (HandleCall Kind) → (Kind → Option Nat) → Prop
  | start : Orderly [] (fun _ => none)
  | opens {calls : List (HandleCall Kind)} {slots : Kind → Option Nat} (kind : Kind)
      (handle : Nat) (earlier : Orderly calls slots) (idle : slots kind = none)
      (fresh : ∀ other, .opened other (some handle) ∉ calls) :
      Orderly (.opened kind (some handle) :: calls) (Function.update slots kind (some handle))
  | fails {calls : List (HandleCall Kind)} {slots : Kind → Option Nat} (kind : Kind)
      (earlier : Orderly calls slots) (idle : slots kind = none) :
      Orderly (.opened kind none :: calls) slots
  | uses {calls : List (HandleCall Kind)} {slots : Kind → Option Nat} (kind : Kind)
      (handle : Nat) (earlier : Orderly calls slots) (held : slots kind = some handle) :
      Orderly (.used kind (some handle) :: calls) slots
  | closes {calls : List (HandleCall Kind)} {slots : Kind → Option Nat} (kind : Kind)
      (handle : Nat) (earlier : Orderly calls slots) (held : slots kind = some handle) :
      Orderly (.closed (some handle) :: calls) (Function.update slots kind none)

namespace Orderly

variable [DecidableEq Kind] {calls : List (HandleCall Kind)} {slots : Kind → Option Nat}

/-- No handle is opened twice. -/
theorem same_kind (orderly : Orderly calls slots) {first second : Kind} {handle : Nat}
    (opened : .opened first (some handle) ∈ calls)
    (again : .opened second (some handle) ∈ calls) : first = second := by
  induction orderly with
  | start => cases opened
  | opens kind fresh earlier idle new ih =>
      rcases List.mem_cons.mp opened with one | old
      · rcases List.mem_cons.mp again with two | older
        · cases one
          cases two
          rfl
        · cases one
          exact absurd older (new second)
      · rcases List.mem_cons.mp again with two | older
        · cases two
          exact absurd old (new first)
        · exact ih old older
  | fails kind earlier idle ih => exact ih (by simpa using opened) (by simpa using again)
  | uses kind there earlier held ih => exact ih (by simpa using opened) (by simpa using again)
  | closes kind there earlier held ih => exact ih (by simpa using opened) (by simpa using again)

theorem opened_of_held (orderly : Orderly calls slots) {kind : Kind} {handle : Nat}
    (held : slots kind = some handle) : .opened kind (some handle) ∈ calls := by
  induction orderly with
  | start => cases held
  | opens other fresh earlier idle new ih =>
      by_cases same : kind = other
      · subst same
        rw [Function.update_self] at held
        cases held
        exact List.mem_cons_self
      · rw [Function.update_of_ne same] at held
        exact List.mem_cons_of_mem _ (ih held)
  | fails other earlier idle ih => exact List.mem_cons_of_mem _ (ih held)
  | uses other there earlier inUse ih => exact List.mem_cons_of_mem _ (ih held)
  | closes other there earlier inUse ih =>
      by_cases same : kind = other
      · subst same
        rw [Function.update_self] at held
        cases held
      · rw [Function.update_of_ne same] at held
        exact List.mem_cons_of_mem _ (ih held)

/-- Only what was opened is closed. -/
theorem opened_of_closed (orderly : Orderly calls slots) {handle : Nat}
    (closed : .closed (some handle) ∈ calls) : ∃ kind, .opened kind (some handle) ∈ calls := by
  induction orderly with
  | start => cases closed
  | opens other fresh earlier idle new ih =>
      obtain ⟨kind, opened⟩ := ih (by simpa using closed)
      exact ⟨kind, List.mem_cons_of_mem _ opened⟩
  | fails other earlier idle ih =>
      obtain ⟨kind, opened⟩ := ih (by simpa using closed)
      exact ⟨kind, List.mem_cons_of_mem _ opened⟩
  | uses other there earlier inUse ih =>
      obtain ⟨kind, opened⟩ := ih (by simpa using closed)
      exact ⟨kind, List.mem_cons_of_mem _ opened⟩
  | closes other there earlier inUse ih =>
      rcases List.mem_cons.mp closed with now | before
      · cases now
        exact ⟨other, List.mem_cons_of_mem _ (earlier.opened_of_held inUse)⟩
      · obtain ⟨kind, opened⟩ := ih before
        exact ⟨kind, List.mem_cons_of_mem _ opened⟩

/-- A handle is in its variable until it is closed, which happens once. -/
theorem count_closed (orderly : Orderly calls slots) {kind : Kind} {handle : Nat}
    {after before : List (HandleCall Kind)}
    (shape : calls = after ++ .opened kind (some handle) :: before) :
    after.count (.closed (some handle)) = if slots kind = some handle then 0 else 1 := by
  have occurs : .opened kind (some handle) ∈ calls := by simp [shape]
  induction orderly generalizing after with
  | start => cases occurs
  | @opens calls slots other fresh earlier idle new ih =>
      cases after with
      | nil =>
          cases shape
          rw [Function.update_self, if_pos rfl]
          rfl
      | cons call rest =>
          cases shape
          have old : HandleCall.opened kind (some handle) ∈
              rest ++ HandleCall.opened kind (some handle) :: before := by simp
          have unlike : fresh ≠ handle := fun same => new kind (same ▸ old)
          rw [List.count_cons_of_ne (by simp), ih rfl old]
          by_cases same : kind = other
          · subst same
            rw [idle, Function.update_self]
            simp [unlike]
          · rw [Function.update_of_ne same]
  | fails other earlier idle ih =>
      cases after with
      | nil => cases shape
      | cons call rest =>
          cases shape
          rw [List.count_cons_of_ne (by simp)]
          exact ih rfl (by simp)
  | uses other there earlier held ih =>
      cases after with
      | nil => cases shape
      | cons call rest =>
          cases shape
          rw [List.count_cons_of_ne (by simp)]
          exact ih rfl (by simp)
  | @closes calls slots other there earlier held ih =>
      cases after with
      | nil => cases shape
      | cons call rest =>
          cases shape
          have old : HandleCall.opened kind (some handle) ∈
              rest ++ HandleCall.opened kind (some handle) :: before := by simp
          have counted := ih rfl old
          by_cases same : kind = other
          · subst same
            rw [held] at counted
            rw [Function.update_self]
            by_cases again : there = handle
            · subst again
              rw [List.count_cons_self, counted]
              simp
            · rw [List.count_cons_of_ne (by simpa using again), counted]
              simp [again]
          · have unlike : there ≠ handle := by
              intro again
              subst again
              exact same (earlier.same_kind old (earlier.opened_of_held held))
            rw [List.count_cons_of_ne (by simpa using unlike), counted,
              Function.update_of_ne same]

theorem not_closed_of_held (orderly : Orderly calls slots) {kind : Kind} {handle : Nat}
    (held : slots kind = some handle) : .closed (some handle) ∉ calls := by
  intro closed
  induction orderly with
  | start => cases held
  | opens other fresh earlier idle new ih =>
      by_cases same : kind = other
      · subst same
        rw [Function.update_self] at held
        cases held
        obtain ⟨older, before⟩ := earlier.opened_of_closed (by simpa using closed)
        exact new older before
      · rw [Function.update_of_ne same] at held
        exact ih held (by simpa using closed)
  | fails other earlier idle ih => exact ih held (by simpa using closed)
  | uses other there earlier inUse ih => exact ih held (by simpa using closed)
  | closes other there earlier inUse ih =>
      by_cases same : kind = other
      · subst same
        rw [Function.update_self] at held
        cases held
      · rw [Function.update_of_ne same] at held
        rcases List.mem_cons.mp closed with now | before
        · cases now
          have opened := earlier.opened_of_held held
          exact same (earlier.same_kind opened (earlier.opened_of_held inUse))
        · exact ih held before

/-- What is in a variable is open. -/
theorem isOpen_of_held (orderly : Orderly calls slots) {kind : Kind} {handle : Nat}
    (held : slots kind = some handle) : IsOpen calls kind handle :=
  ⟨orderly.opened_of_held held, orderly.not_closed_of_held held⟩

theorem allClosed (orderly : Orderly calls slots) (empty : ∀ kind, slots kind = none) :
    AllClosed calls := by
  intro kind handle after before shape
  rw [orderly.count_closed shape, empty kind]
  rfl

theorem disciplined (orderly : Orderly calls slots) : Disciplined calls := by
  induction orderly with
  | start =>
      constructor
      · intro kind handle before made
        cases List.suffix_nil.mp made
      · intro handle before made
        cases List.suffix_nil.mp made
      · intro kind handle result between before made
        cases List.suffix_nil.mp made
  | opens kind handle earlier idle fresh ih =>
      constructor
      · intro other there before made
        exact ih.used other there before (by simpa [List.suffix_cons_iff] using made)
      · intro there before made
        exact ih.closed there before (by simpa [List.suffix_cons_iff] using made)
      · intro other there result between before made
        rcases List.suffix_cons_iff.mp made with now | old
        · cases now
          rw [earlier.count_closed rfl, idle]
          rfl
        · exact ih.closedOnce other there result between before old
  | fails kind earlier idle ih =>
      constructor
      · intro other there before made
        exact ih.used other there before (by simpa [List.suffix_cons_iff] using made)
      · intro there before made
        exact ih.closed there before (by simpa [List.suffix_cons_iff] using made)
      · intro other there result between before made
        rcases List.suffix_cons_iff.mp made with now | old
        · cases now
          rw [earlier.count_closed rfl, idle]
          rfl
        · exact ih.closedOnce other there result between before old
  | uses kind handle earlier held ih =>
      constructor
      · intro other there before made
        rcases List.suffix_cons_iff.mp made with now | old
        · cases now
          exact ⟨handle, rfl, earlier.isOpen_of_held held⟩
        · exact ih.used other there before old
      · intro there before made
        exact ih.closed there before (by simpa [List.suffix_cons_iff] using made)
      · intro other there result between before made
        exact ih.closedOnce other there result between before
          (by simpa [List.suffix_cons_iff] using made)
  | closes kind handle earlier held ih =>
      constructor
      · intro other there before made
        exact ih.used other there before (by simpa [List.suffix_cons_iff] using made)
      · intro there before made
        rcases List.suffix_cons_iff.mp made with now | old
        · cases now
          exact ⟨handle, kind, rfl, earlier.isOpen_of_held held⟩
        · exact ih.closed there before old
      · intro other there result between before made
        exact ih.closedOnce other there result between before
          (by simpa [List.suffix_cons_iff] using made)

end Orderly

end HandleCall

end Library
