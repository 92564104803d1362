/-
Integers as single-precision floats.

An integer stored in a `float` keeps 24 significant bits.  The stored value is
again an integer, so it is represented here by that integer.
-/

import Mathlib.Tactic.NormNum

namespace Library

/-- The `float` nearest to an `int`, ties to even. -/
def floatOfInt (value : Int) : Int :=
  let magnitude := value.natAbs
  if magnitude < 16777216 then value
  else
    let unit := 2 ^ (magnitude.log2 - 23)
    let quotient := magnitude / unit
    let remainder := magnitude % unit
    let rounded :=
      if 2 * remainder < unit ∨ 2 * remainder = unit ∧ quotient % 2 = 0 then quotient
      else quotient + 1
    value.sign * ((rounded * unit : Nat) : Int)

/-- Rounding never moves a value across a bound that is itself stored exactly. -/
theorem le_floatOfInt_iff (bound value : Int) (positive : 0 < bound)
    (exact_ : bound ≤ 8388608) : bound ≤ floatOfInt value ↔ bound ≤ value := by
  unfold floatOfInt
  by_cases small : value.natAbs < 16777216
  · simp only [small, if_true]
  · simp only [small, if_false]
    have nonzero : value.natAbs ≠ 0 := by omega
    have leading : 2 ^ value.natAbs.log2 ≤ value.natAbs := Nat.log2_self_le nonzero
    have exponent : 24 ≤ value.natAbs.log2 :=
      (Nat.le_log2 nonzero).mpr (by omega)
    have factored : 2 ^ value.natAbs.log2 = 2 ^ 23 * 2 ^ (value.natAbs.log2 - 23) := by
      rw [← Nat.pow_add]
      congr 1
      omega
    have unitPositive : 0 < 2 ^ (value.natAbs.log2 - 23) := Nat.two_pow_pos _
    have quotientBound : 2 ^ 23 ≤ value.natAbs / 2 ^ (value.natAbs.log2 - 23) := by
      rw [Nat.le_div_iff_mul_le unitPositive, ← factored]
      exact leading
    generalize 2 ^ (value.natAbs.log2 - 23) = unit at unitPositive quotientBound ⊢
    have large (quotient : Nat) (wide : 2 ^ 23 ≤ quotient) :
        8388608 ≤ quotient * unit :=
      Nat.le_trans wide (Nat.le_mul_of_pos_right quotient unitPositive)
    have product : (8388608 : Int) ≤
        (((if 2 * (value.natAbs % unit) < unit ∨
            2 * (value.natAbs % unit) = unit ∧ value.natAbs / unit % 2 = 0
          then value.natAbs / unit else value.natAbs / unit + 1) * unit : Nat) : Int) := by
      split
      · exact_mod_cast large _ quotientBound
      · exact_mod_cast large _ (by omega)
    rcases Int.lt_trichotomy value 0 with negative | zero | nonneg
    · rw [Int.sign_eq_neg_one_of_neg negative]
      omega
    · omega
    · rw [Int.sign_eq_one_of_pos nonneg]
      omega

end Library
