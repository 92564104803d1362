/-
How deep a document goes, how long its longest number is and how much it holds.
-/

import Mathlib.Algebra.Ring.Nat
import DlcServer.Library.Json

namespace Library

namespace Json

/-! ### Depth -/

mutual

/-- The arrays and objects around the innermost value. -/
def nesting : Json → Nat
  | .array items => nestingItems items + 1
  | .object members => nestingMembers members + 1
  | _ => 0

def nestingItems : List Json → Nat
  | [] => 0
  | item :: more => max (nesting item) (nestingItems more)

def nestingMembers : List (CText × Json) → Nat
  | [] => 0
  | (_, value) :: more => max (nesting value) (nestingMembers more)

end

theorem nestingItems_le {limit : Nat} (items : List Json) :
    nestingItems items ≤ limit ↔ ∀ item ∈ items, nesting item ≤ limit := by
  induction items with
  | nil => simp [nestingItems]
  | cons item more ih => rw [nestingItems, Nat.max_le, ih, List.forall_mem_cons]

theorem nestingMembers_le {limit : Nat} (members : List (CText × Json)) :
    nestingMembers members ≤ limit ↔ ∀ member ∈ members, nesting member.2 ≤ limit := by
  induction members with
  | nil => simp [nestingMembers]
  | cons member more ih => rw [nestingMembers, Nat.max_le, ih, List.forall_mem_cons]

/-! ### Numbers -/

mutual

def longestNumber : Json → Nat
  | .number lexeme => lexeme.length
  | .array items => longestNumberItems items
  | .object members => longestNumberMembers members
  | _ => 0

def longestNumberItems : List Json → Nat
  | [] => 0
  | item :: more => max (longestNumber item) (longestNumberItems more)

def longestNumberMembers : List (CText × Json) → Nat
  | [] => 0
  | (_, value) :: more => max (longestNumber value) (longestNumberMembers more)

end

theorem longestNumberItems_le {limit : Nat} (items : List Json) :
    longestNumberItems items ≤ limit ↔ ∀ item ∈ items, longestNumber item ≤ limit := by
  induction items with
  | nil => simp [longestNumberItems]
  | cons item more ih => rw [longestNumberItems, Nat.max_le, ih, List.forall_mem_cons]

theorem longestNumberMembers_le {limit : Nat} (members : List (CText × Json)) :
    longestNumberMembers members ≤ limit ↔
      ∀ member ∈ members, longestNumber member.2 ≤ limit := by
  induction members with
  | nil => simp [longestNumberMembers]
  | cons member more ih => rw [longestNumberMembers, Nat.max_le, ih, List.forall_mem_cons]

/-! ### Size -/

mutual

/-- The values of a document and the bytes of its strings and names. -/
def weight : Json → Nat
  | .string value => value.length + 1
  | .array items => weightItems items + 1
  | .object members => weightMembers members + 1
  | _ => 1

def weightItems : List Json → Nat
  | [] => 0
  | item :: more => weight item + weightItems more

def weightMembers : List (CText × Json) → Nat
  | [] => 0
  | (name, value) :: more => name.length + weight value + weightMembers more

end

theorem weightItems_eq (items : List Json) : weightItems items = (items.map weight).sum := by
  induction items with
  | nil => rfl
  | cons item more ih => rw [weightItems, ih, List.map_cons, List.sum_cons]

def weightMember (member : CText × Json) : Nat :=
  member.1.length + weight member.2

theorem weightMembers_eq (members : List (CText × Json)) :
    weightMembers members = (members.map weightMember).sum := by
  induction members with
  | nil => rfl
  | cons member more ih =>
      obtain ⟨name, value⟩ := member
      rw [weightMembers, ih, List.map_cons, List.sum_cons, weightMember]

end Json

end Library
