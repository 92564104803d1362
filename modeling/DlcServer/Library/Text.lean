/-
C strings as byte lists.

A C string is the run of bytes up to its terminating NUL.  The two searches of
this file, for the terminator and for a substring, are what programs use to
find their way in a buffer whose length they do not look at.
-/

import Mathlib.Data.List.TakeWhile

namespace Library

/-- The bytes of a C string, without the terminating NUL. -/
abbrev CText := List UInt8

/-- The bytes of a string literal over one-byte characters. -/
def text (literal : String) : CText :=
  literal.toList.map (fun letter => UInt8.ofNat letter.toNat)

namespace CText

/-- The C string that starts at the first of `bytes`. -/
def untilNul (bytes : List UInt8) : CText :=
  bytes.takeWhile (fun byte => byte != 0)

/-- `strstr(hay, needle) != NULL`. -/
def contains : CText → CText → Bool
  | [], needle => needle.isEmpty
  | byte :: rest, needle => needle.isPrefixOf (byte :: rest) || contains rest needle

theorem contains_iff (hay needle : CText) :
    contains hay needle = true ↔ needle <:+: hay := by
  induction hay with
  | nil => simp [contains]
  | cons byte rest ih =>
      rw [contains, Bool.or_eq_true, ih, List.isPrefixOf_iff_prefix,
        List.infix_cons_iff]

theorem contains_append (hay more needle : CText)
    (found : contains hay needle = true) : contains (hay ++ more) needle = true := by
  rw [contains_iff] at found ⊢
  exact found.trans (List.prefix_append hay more).isInfix

theorem contains_append_self (hay needle : CText) :
    contains (hay ++ needle) needle = true := by
  rw [contains_iff]
  exact (List.suffix_append hay needle).isInfix

theorem untilNul_append_of_mem {bytes : List UInt8} (more : List UInt8)
    (ended : 0 ∈ bytes) : untilNul (bytes ++ more) = untilNul bytes := by
  induction bytes with
  | nil => cases ended
  | cons byte rest ih =>
      by_cases isNul : byte = 0
      · simp [untilNul, isNul]
      · have inRest : 0 ∈ rest :=
          (List.mem_cons.mp ended).resolve_left (fun same => isNul same.symm)
        have tail := ih inRest
        simp only [untilNul] at tail
        simp [untilNul, isNul, tail]

theorem untilNul_of_not_mem {bytes : List UInt8} (open_ : 0 ∉ bytes) :
    untilNul bytes = bytes := by
  unfold untilNul
  rw [List.takeWhile_eq_self_iff]
  intro byte member
  simp only [bne_iff_ne, ne_eq]
  intro isNul
  exact open_ (isNul ▸ member)

theorem untilNul_append_of_not_mem {bytes : List UInt8} (more : List UInt8)
    (open_ : 0 ∉ bytes) : untilNul (bytes ++ more) = bytes ++ untilNul more := by
  have whole := untilNul_of_not_mem open_
  unfold untilNul at whole ⊢
  rw [List.takeWhile_append, whole, if_pos rfl]

theorem untilNul_eq_nil_of_head (rest : List UInt8) : untilNul (0 :: rest) = [] := by
  simp [untilNul]

/-- What `strlen` and `strcpy` take for the string at the first of `bytes`,
unless they come to the end of the memory first. -/
def read : List UInt8 → Option CText
  | [] => none
  | byte :: rest => if byte = 0 then some [] else (read rest).map (byte :: ·)

/-- Bytes are taken for a string of their own exactly when there is no NUL among
them and one behind them. -/
theorem read_append_eq_iff (bytes behind : List UInt8) :
    read (bytes ++ behind) = some bytes ↔ 0 ∉ bytes ∧ behind.head? = some 0 := by
  induction bytes with
  | nil =>
      cases behind with
      | nil => simp [read]
      | cons byte rest =>
          by_cases isNul : byte = 0
          · simp [read, isNul]
          · simp [read, isNul]
  | cons byte rest ih =>
      by_cases isNul : byte = 0
      · simp [read, isNul]
      · have other : (0 : UInt8) ≠ byte := Ne.symm isNul
        simp [read, isNul, other, ih]

end CText

end Library
