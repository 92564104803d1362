/-
Reading bytes at positions, with accesses outside as results of their own.

A position counts from the start of the bytes, so that what is left from there on
is what `drop` leaves.
-/

import Mathlib.Data.List.Basic

namespace Library

/-- What a run over bytes stops at. -/
inductive Overstep
  /-- A byte behind the buffer is read. -/
  | read
  /-- A byte behind an allocated array is written. -/
  | write
  /-- A loop goes round more often than it was given. -/
  | fuel
  deriving DecidableEq, Repr

def peek (content : List UInt8) (position : Nat) : Except Overstep UInt8 :=
  match content[position]? with
  | none => .error .read
  | some byte => .ok byte

theorem overstep_bind_ok {α β : Type} (value : α) (next : α → Except Overstep β) :
    (Except.ok value >>= next) = next value :=
  rfl

theorem peek_of_drop {content rest : List UInt8} {position : Nat} {byte : UInt8}
    (here : content.drop position = byte :: rest) : peek content position = .ok byte := by
  have found : content[position]? = some byte := by
    rw [← List.head?_drop, here]
    rfl
  unfold peek
  rw [found]

theorem drop_next {content rest : List UInt8} {position : Nat} {byte : UInt8}
    (here : content.drop position = byte :: rest) : content.drop (position + 1) = rest := by
  rw [← List.tail_drop, here]
  rfl

theorem drop_append {content first rest : List UInt8} {position : Nat}
    (here : content.drop position = first ++ rest) :
    content.drop (position + first.length) = rest := by
  rw [← List.drop_drop, here, List.drop_left]

/-! ### Copying -/

/-- `src` written over the bytes of `dst` at a position. -/
def memcpy (dst : List UInt8) (position : Nat) (src : List UInt8) : Except Overstep (List UInt8) :=
  if position + src.length ≤ dst.length then
    .ok (dst.take position ++ src ++ dst.drop (position + src.length))
  else .error .write

/-- `count` bytes of an array moved inside it. -/
def memmove (block : List UInt8) (target source count : Nat) : Except Overstep (List UInt8) :=
  if source + count ≤ block.length then memcpy block target ((block.drop source).take count)
  else .error .read

theorem memcpy_inside {dst src : List UInt8} {position : Nat}
    (inside : position + src.length ≤ dst.length) :
    ∃ after, memcpy dst position src = .ok after ∧ after.length = dst.length ∧
      after.take (position + src.length) = dst.take position ++ src := by
  have front : (dst.take position ++ src).length = position + src.length := by
    rw [List.length_append, List.length_take, Nat.min_eq_left (by omega)]
  refine ⟨_, if_pos inside, ?_, ?_⟩
  · rw [List.length_append, front, List.length_drop]
    omega
  · exact List.take_left' front

theorem memmove_inside {block : List UInt8} {target source count : Nat}
    (read : source + count ≤ block.length) (written : target + count ≤ block.length) :
    ∃ after, memmove block target source count = .ok after ∧ after.length = block.length ∧
      after.take (target + count) = block.take target ++ (block.drop source).take count := by
  have moved : ((block.drop source).take count).length = count := by
    rw [List.length_take, List.length_drop]
    omega
  obtain ⟨after, copied, sameLength, front⟩ :=
    @memcpy_inside block ((block.drop source).take count) target (by omega)
  rw [moved] at front
  exact ⟨after, (if_pos read).trans copied, sameLength, front⟩

/-- What `realloc` gives: NULL, or an array whose new bytes are whatever they are. -/
abbrev Grant := Option (Nat → UInt8)

def realloc (block : List UInt8) (size : Nat) (fresh : Nat → UInt8) : List UInt8 :=
  block.take size ++ (List.range (size - block.length)).map fresh

theorem realloc_length (block : List UInt8) (size : Nat) (fresh : Nat → UInt8) :
    (realloc block size fresh).length = size := by
  unfold realloc
  rw [List.length_append, List.length_take, List.length_map, List.length_range]
  omega

theorem realloc_take {block : List UInt8} {size count : Nat} (fresh : Nat → UInt8)
    (kept : count ≤ size) (inside : count ≤ block.length) :
    (realloc block size fresh).take count = block.take count := by
  unfold realloc
  rw [List.take_append_of_le_length (by rw [List.length_take]; omega), List.take_take,
    Nat.min_eq_left kept]

end Library
