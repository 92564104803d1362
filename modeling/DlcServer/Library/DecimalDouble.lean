/-
Decimal numbers as double-precision floats, and these as integers.

A decimal is read to the nearest double.  The exponents are not bounded here: a
value past the largest double is infinite and one below the smallest zero, which
the conversion to a bounded integer does not tell from what they are here.
-/

import Mathlib.Data.Int.Log
import Mathlib.Data.Rat.Floor
import DlcServer.Library.Json

namespace Library

/-! ### The value of a number -/

def digitsValue (digits : CText) : Nat :=
  digits.foldl (fun value digit => 10 * value + (digit.toNat - 48)) 0

/-- An exponent with its letter, of which there may be none. -/
def exponentValue : CText → Int
  | [] => 0
  | [_] => 0
  | _ :: sign :: digits =>
      if sign = Json.minus then -(digitsValue digits : Int)
      else if sign = 43 then digitsValue digits
      else digitsValue (sign :: digits)

/-- A number without its sign: `mantissa * 10 ^ exponent`. -/
def unsignedValue (lexeme : CText) : ℚ :=
  let whole := lexeme.takeWhile Json.isDigit
  match lexeme.dropWhile Json.isDigit with
  | [] => digitsValue whole
  | first :: behind =>
      if first = Json.point then
        let fraction := behind.takeWhile Json.isDigit
        (digitsValue (whole ++ fraction) : ℚ) *
          10 ^ (exponentValue (behind.dropWhile Json.isDigit) - fraction.length)
      else (digitsValue whole : ℚ) * 10 ^ exponentValue (first :: behind)

/-- The number that is written as `lexeme`. -/
def decimalValue : CText → ℚ
  | [] => 0
  | first :: rest =>
      if first = Json.minus then -unsignedValue rest else unsignedValue (first :: rest)

/-! ### The nearest double -/

/-- The nearest integer, ties to even. -/
def roundHalfEven (value : ℚ) : Int :=
  if Int.fract value < 1 / 2 ∨ Int.fract value = 1 / 2 ∧ ⌊value⌋ % 2 = 0 then ⌊value⌋
  else ⌊value⌋ + 1

/-- The last place of the doubles of this magnitude. -/
def doubleUnit (value : ℚ) : ℚ :=
  2 ^ (Int.log 2 |value| - 52)

/-- `strtod`, for the number that is written. -/
def nearestDouble (value : ℚ) : ℚ :=
  roundHalfEven (value / doubleUnit value) * doubleUnit value

theorem roundHalfEven_intCast (whole : Int) : roundHalfEven whole = whole := by
  unfold roundHalfEven
  rw [Int.fract_intCast, Int.floor_intCast, if_pos (.inl (by norm_num))]

theorem doubleUnit_pos (value : ℚ) : 0 < doubleUnit value := by
  exact zpow_pos (by norm_num) _

/-- An integer of at most 53 bits is a double itself. -/
theorem nearestDouble_intCast {whole : Int} (short : |whole| < 2 ^ 53) :
    nearestDouble whole = whole := by
  have unit := doubleUnit_pos whole
  have exponent : Int.log 2 |(whole : ℚ)| ≤ 52 := by
    rcases eq_or_ne whole 0 with rfl | nonzero
    · simp
    · have positive : (0 : ℚ) < |(whole : ℚ)| := by
        rw [abs_pos]
        exact_mod_cast nonzero
      have bounded : |(whole : ℚ)| < ((2 : ℕ) : ℚ) ^ (53 : Int) := by
        have cast : |(whole : ℚ)| = ((|whole| : Int) : ℚ) := by push_cast; rfl
        rw [cast]
        exact_mod_cast short
      have below : Int.log 2 |(whole : ℚ)| < 53 :=
        (Int.lt_zpow_iff_log_lt (by norm_num) positive).mp bounded
      omega
  have scaled : (whole : ℚ) / doubleUnit whole =
      ((whole * 2 ^ (52 - Int.log 2 |(whole : ℚ)|).toNat : Int) : ℚ) := by
    have places : (52 - Int.log 2 |(whole : ℚ)|) = ((52 - Int.log 2 |(whole : ℚ)|).toNat : Int) := by
      omega
    unfold doubleUnit
    rw [div_eq_mul_inv, ← zpow_neg, neg_sub, places, zpow_natCast, Int.toNat_natCast]
    push_cast
    rfl
  unfold nearestDouble
  rw [scaled, roundHalfEven_intCast, ← scaled, div_mul_cancel₀ _ unit.ne']

/-! ### The integer that is kept -/

def intMax : Int := 2147483647
def intMin : Int := -2147483648

/-- A conversion to `int`, which cuts the fraction off. -/
def truncate (value : ℚ) : Int :=
  if 0 ≤ value then ⌊value⌋ else ⌈value⌉

/-- The `int` a double is kept as, with saturation. -/
def saturate (number : ℚ) : Int :=
  if (intMax : ℚ) ≤ number then intMax
  else if number ≤ intMin then intMin
  else truncate number

theorem truncate_intCast (whole : Int) : truncate whole = whole := by
  unfold truncate
  simp

theorem saturate_intCast {whole : Int} (least : intMin ≤ whole) (most : whole ≤ intMax) :
    saturate whole = whole := by
  unfold saturate
  by_cases top : (intMax : ℚ) ≤ whole
  · rw [if_pos top]
    have same : intMax ≤ whole := by exact_mod_cast top
    omega
  · rw [if_neg top]
    by_cases bottom : (whole : ℚ) ≤ intMin
    · rw [if_pos bottom]
      have same : whole ≤ intMin := by exact_mod_cast bottom
      omega
    · rw [if_neg bottom, truncate_intCast]

theorem saturate_mem (number : ℚ) : intMin ≤ saturate number ∧ saturate number ≤ intMax := by
  unfold saturate
  by_cases top : (intMax : ℚ) ≤ number
  · rw [if_pos top]
    exact ⟨by decide, le_refl _⟩
  rw [if_neg top]
  by_cases bottom : number ≤ intMin
  · rw [if_pos bottom]
    exact ⟨le_refl _, by decide⟩
  rw [if_neg bottom]
  have below : number < intMax := not_le.mp top
  have above : (intMin : ℚ) < number := not_le.mp bottom
  unfold truncate
  by_cases positive : 0 ≤ number
  · rw [if_pos positive]
    refine ⟨?_, ?_⟩
    · have least : 0 ≤ ⌊number⌋ := Int.floor_nonneg.mpr positive
      unfold intMin
      omega
    · have most : ((⌊number⌋ : Int) : ℚ) < intMax := (Int.floor_le number).trans_lt below
      have cast : ⌊number⌋ < intMax := by exact_mod_cast most
      omega
  · rw [if_neg positive]
    refine ⟨?_, ?_⟩
    · have least : (intMin : ℚ) < ((⌈number⌉ : Int) : ℚ) := above.trans_le (Int.le_ceil number)
      have cast : intMin < ⌈number⌉ := by exact_mod_cast least
      omega
    · have most : ⌈number⌉ ≤ 0 := Int.ceil_le.mpr (by push_cast; linarith)
      unfold intMax
      omega

/-- A number survives as an `int` exactly when it is one. -/
theorem saturate_nearestDouble_eq_iff (value : ℚ) :
    (saturate (nearestDouble value) : ℚ) = value ↔
      ∃ whole : Int, value = whole ∧ intMin ≤ whole ∧ whole ≤ intMax := by
  constructor
  · intro same
    exact ⟨saturate (nearestDouble value), same.symm, saturate_mem _⟩
  · rintro ⟨whole, rfl, least, most⟩
    have short : |whole| < 2 ^ 53 := by
      unfold intMin at least
      unfold intMax at most
      rw [abs_lt]
      constructor <;> omega
    rw [nearestDouble_intCast short, saturate_intCast least most]

end Library
