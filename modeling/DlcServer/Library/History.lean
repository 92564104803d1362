/-
Histories in which every entry is judged by the ones before it.

A history grows at its end, so that what holds of all its entries is kept by a
new one that is right after those that are there.
-/

import Mathlib.Data.List.Basic

namespace Library

variable {α : Type}

/-- Every entry is right after the ones before it. -/
def EachAfter (right : List α → α → Prop) (history : List α) : Prop :=
  ∀ front entry rest, history = front ++ entry :: rest → right front entry

theorem eachAfter_nil (right : List α → α → Prop) : EachAfter right [] := by
  intro front entry rest split
  cases front with
  | nil => cases split
  | cons first more => cases split

theorem eachAfter_concat {right : List α → α → Prop} {history : List α} {last : α} :
    EachAfter right (history ++ [last]) ↔ EachAfter right history ∧ right history last := by
  constructor
  · intro all
    constructor
    · intro front entry rest split
      refine all front entry (rest ++ [last]) ?_
      rw [split, List.append_assoc, List.cons_append]
    · exact all history last [] rfl
  · rintro ⟨earlier, atEnd⟩ front entry rest split
    rcases List.eq_nil_or_concat rest with rfl | ⟨before, final, rfl⟩
    · obtain ⟨rfl, same⟩ := List.append_inj' split rfl
      cases same
      exact atEnd
    · rw [List.concat_eq_append, ← List.cons_append, ← List.append_assoc] at split
      obtain ⟨same, _⟩ := List.append_inj' split rfl
      exact earlier front entry before same

end Library
