/-
A byte sequence cut into numbered blocks.

All blocks but the last have the same size and the last one is shorter, so that
its length says that it is the last.  Numbers travel in two bytes, most
significant first, and are therefore known modulo 65536 only.
-/

import Mathlib.Data.List.Basic

namespace Library

variable {α : Type}

/-! ### Two-byte numbers -/

/-- The two bytes of a number, most significant first. -/
def netWord (value : Nat) : List UInt8 :=
  [UInt8.ofNat (value / 256), UInt8.ofNat value]

/-- The number in the two bytes at `offset`. -/
def wordAt (bytes : List UInt8) (offset : Nat) : Nat :=
  256 * (bytes.getD offset 0).toNat + (bytes.getD (offset + 1) 0).toNat

@[simp] theorem netWord_length (value : Nat) : (netWord value).length = 2 :=
  rfl

theorem wordAt_lt (bytes : List UInt8) (offset : Nat) : wordAt bytes offset < 65536 := by
  have high := (bytes.getD offset 0).toNat_lt
  have low := (bytes.getD (offset + 1) 0).toNat_lt
  unfold wordAt
  omega

theorem wordAt_append {front : List UInt8} (value : Nat) (rest : List UInt8) :
    wordAt (front ++ (netWord value ++ rest)) front.length = value % 65536 := by
  simp only [wordAt, netWord, List.getD_eq_getElem?_getD, List.getElem?_append_right,
    Nat.le_refl, Nat.le_add_right, Nat.sub_self, Nat.add_sub_cancel_left, List.cons_append,
    List.nil_append, List.getElem?_cons_zero, List.getElem?_cons_succ, Option.getD_some,
    UInt8.toNat_ofNat']
  omega

/-! ### Blocks -/

def block (size : Nat) (whole : List α) (index : Nat) : List α :=
  (whole.drop (index * size)).take size

/-- How many blocks there are, the short one at the end included. -/
def blockCount (size : Nat) (whole : List α) : Nat :=
  whole.length / size + 1

theorem block_length (size : Nat) (whole : List α) (index : Nat) :
    (block size whole index).length = min size (whole.length - index * size) := by
  rw [block, List.length_take, List.length_drop]

theorem block_length_le (size : Nat) (whole : List α) (index : Nat) :
    (block size whole index).length ≤ size := by
  rw [block_length]
  exact Nat.min_le_left _ _

theorem take_append_block (size : Nat) (whole : List α) (index : Nat) :
    whole.take (index * size) ++ block size whole index = whole.take ((index + 1) * size) := by
  rw [block, Nat.succ_mul, List.take_add]

theorem block_length_lt_iff {size : Nat} (positive : 0 < size) {whole : List α} {index : Nat}
    (inside : index < blockCount size whole) :
    (block size whole index).length < size ↔ index + 1 = blockCount size whole := by
  have upTo : index ≤ whole.length / size := Nat.lt_succ_iff.mp inside
  have before : index * size ≤ whole.length := (Nat.le_div_iff_mul_le positive).mp upTo
  have next : index + 1 ≤ whole.length / size ↔ (index + 1) * size ≤ whole.length :=
    Nat.le_div_iff_mul_le positive
  rw [block_length]
  unfold blockCount
  rw [Nat.succ_mul] at next
  constructor
  · intro short
    have beyond : ¬ index + 1 ≤ whole.length / size := by
      rw [next]
      omega
    omega
  · intro last
    have beyond : ¬ index * size + size ≤ whole.length := by
      rw [← next]
      omega
    omega

theorem take_blockCount {size : Nat} (positive : 0 < size) (whole : List α) :
    whole.take (blockCount size whole * size) = whole := by
  refine List.take_of_length_le ?_
  have divided := Nat.div_add_mod whole.length size
  have rest := Nat.mod_lt whole.length positive
  rw [blockCount, Nat.succ_mul, Nat.mul_comm]
  omega

theorem flatMap_block (size : Nat) (whole : List α) (count : Nat) :
    (List.range count).flatMap (block size whole) = whole.take (count * size) := by
  induction count with
  | zero => simp
  | succ count ih =>
      rw [List.range_succ, List.flatMap_append, ih, List.flatMap_cons, List.flatMap_nil,
        List.append_nil, take_append_block]

end Library
