/-
What cJSON makes of JSON.

Every JSON text is a text of the dialect and stands for the same document there,
as long as nothing in it goes deeper or is longer than cJSON follows.  Where it
does, cJSON gives up, but for a number that stands alone: that is cut.
-/

import DlcServer.CJsonRefinement
import DlcServer.Library.JsonMeasure

namespace DlcServer

open Library

/-! ### Strings -/

namespace Dialect

private theorem hexDigits_split {count read unit : Nat} {digits : CText}
    (done : Json.hexDigits count read digits = some unit) :
    ∃ front tail, digits = front ++ tail ∧ front.length = count ∧
      (∀ other, Json.hexDigits count read (front ++ other) = some unit) ∧
      ∀ other inner left, literal other = some (inner, left) →
        literal (front ++ other) = some (front ++ inner, left) := by
  induction count generalizing read digits with
  | zero => exact ⟨[], digits, rfl, rfl, fun _ => done, fun _ _ _ closed => closed⟩
  | succ count ih =>
      cases digits with
      | nil => contradiction
      | cons byte rest =>
          rw [Json.hexDigits] at done
          cases isDigit : Json.hexDigit byte with
          | none =>
              rw [isDigit] at done
              contradiction
          | some digit =>
              rw [isDigit] at done
              obtain ⟨front, tail, rfl, length, reads, copies⟩ := ih done
              have notQuote : byte ≠ Json.quote := by
                rintro rfl
                contradiction
              have notBackslash : byte ≠ Json.backslash := by
                rintro rfl
                contradiction
              refine ⟨byte :: front, tail, rfl, congrArg Nat.succ length, ?_, ?_⟩
              · intro other
                rw [List.cons_append, Json.hexDigits, isDigit]
                exact reads other
              · intro other inner left closed
                rw [List.cons_append, literal_other notQuote notBackslash,
                  copies other inner left closed]
                rfl

private theorem lowSurrogate_split {tail : CText} {low : Nat} (read : Json.lowSurrogate tail = some low) :
    ∃ last end_, tail = last ++ end_ ∧ last.length = 6 ∧
      (∀ other, Json.lowSurrogate (last ++ other) = some low) ∧
      ∀ other inner left, literal other = some (inner, left) →
        literal (last ++ other) = some (last ++ inner, left) := by
  cases tail with
  | nil => contradiction
  | cons first behind =>
      cases behind with
      | nil => contradiction
      | cons second half =>
          rw [Json.lowSurrogate] at read
          by_cases isEscape : first = Json.backslash ∧ second = Json.letterU
          · obtain ⟨rfl, rfl⟩ := isEscape
            rw [if_pos ⟨rfl, rfl⟩] at read
            obtain ⟨last, end_, rfl, lastLong, reads, copies⟩ := hexDigits_split read
            refine ⟨Json.backslash :: Json.letterU :: last, end_, rfl, by simp [lastLong], ?_, ?_⟩
            · intro other
              rw [List.cons_append, List.cons_append, Json.lowSurrogate, if_pos ⟨rfl, rfl⟩]
              exact reads other
            · intro other inner left closed
              rw [List.cons_append, List.cons_append, literal_escape, copies _ _ _ closed]
              rfl
          · rw [if_neg isEscape] at read
            contradiction

private theorem escape_kept {rest value inner left : CText} {length : Nat}
    (read : Json.escape rest = some (value, length))
    (closed : literal (rest.drop length) = some (inner, left)) :
    ∃ front, front.length = length ∧ escape (front ++ inner) = some (value, length) ∧
      literal (Json.backslash :: rest) = some (Json.backslash :: (front ++ inner), left) := by
  cases rest with
  | nil => contradiction
  | cons letter more =>
      rw [Json.escape] at read
      by_cases isU : letter = Json.letterU
      · rw [if_pos isU] at read
        cases digits : Json.hexFour more with
        | none =>
            rw [digits] at read
            contradiction
        | some unit =>
            obtain ⟨four, tail, rfl, fourLong, reads, copies⟩ := hexDigits_split digits
            have behindFour : (four ++ tail).drop 4 = tail := by
              rw [← fourLong, List.drop_left]
            have enough (other : CText) : ¬(four ++ other).length < 4 := by
              rw [List.length_append]
              omega
            have unitRead (other : CText) : Json.hexFour (four ++ other) = some unit :=
              reads other
            simp only [digits] at read
            by_cases single : unit < 55296 ∨ 57344 ≤ unit
            · rw [if_pos single] at read
              cases read
              rw [List.drop_succ_cons, behindFour] at closed
              have notLow : ¬(56320 ≤ unit ∧ unit ≤ 57343) := by omega
              have notHigh : ¬(55296 ≤ unit ∧ unit ≤ 56319) := by omega
              refine ⟨letter :: four, by rw [List.length_cons, fourLong], ?_, ?_⟩
              · rw [List.cons_append, escape, if_pos isU, if_neg (enough inner), unitRead]
                simp only [Option.getD_some, if_neg notLow, if_neg notHigh]
              · rw [literal_escape, copies _ _ _ closed]
                rfl
            · rw [if_neg single, behindFour] at read
              cases low : Json.lowSurrogate tail with
              | none =>
                  rw [low] at read
                  contradiction
              | some half =>
                  obtain ⟨last, end_, rfl, lastLong, halfReads, halfCopies⟩ :=
                    lowSurrogate_split low
                  simp only [low] at read
                  by_cases pair : unit < 56320 ∧ 56320 ≤ half ∧ half < 57344
                  · rw [if_pos pair] at read
                    obtain ⟨isValue, isLength⟩ := Prod.mk.inj (Option.some.inj read)
                    subst isLength isValue
                    have behind : (letter :: (four ++ (last ++ end_))).drop 11 = end_ := by
                      rw [List.drop_succ_cons, List.drop_append, List.drop_eq_nil_of_le
                        (by omega), fourLong, List.nil_append]
                      exact List.drop_left' lastLong
                    rw [behind] at closed
                    have notLow : ¬(56320 ≤ unit ∧ unit ≤ 57343) := by omega
                    have isHigh : 55296 ≤ unit ∧ unit ≤ 56319 := by omega
                    have isLow : 56320 ≤ half ∧ half ≤ 57343 := by omega
                    refine ⟨letter :: (four ++ last), by simp [fourLong, lastLong], ?_, ?_⟩
                    · have there : (four ++ (last ++ inner)).drop 4 = last ++ inner := by
                        rw [← fourLong, List.drop_left]
                      rw [List.cons_append, List.append_assoc, escape, if_pos isU,
                        if_neg (enough _), unitRead, there, halfReads]
                      simp only [Option.getD_some, if_neg notLow, if_pos isHigh, if_pos isLow]
                    · rw [literal_escape, copies _ _ _ (halfCopies _ _ _ closed),
                        List.cons_append, List.append_assoc]
                      rfl
                  · rw [if_neg pair] at read
                    contradiction
      · rw [if_neg isU] at read
        obtain ⟨byte, short, same⟩ := Option.map_eq_some_iff.mp read
        cases same
        refine ⟨[letter], rfl, ?_, ?_⟩
        · rw [List.singleton_append, escape, if_neg isU, short]
          rfl
        · rw [List.drop_succ_cons, List.drop_zero] at closed
          rw [literal_escape, closed]
          rfl

private theorem json_scanString_skip (skip : Nat) (input : CText) :
    Json.scanString skip input = Json.scanString 0 (input.drop skip) := by
  induction skip generalizing input with
  | zero => rw [List.drop_zero]
  | succ skip ih =>
      cases input with
      | nil => rfl
      | cons byte rest => rw [Json.scanString, ih, List.drop_succ_cons]

private theorem scanString_of_json {input value left : CText}
    (scanned : Json.scanString 0 input = some (value, left)) :
    scanString input = some (value, left) := by
  suffices parts : ∃ inner, literal input = some (inner, left) ∧ decode 0 inner = some value by
    obtain ⟨inner, isLiteral, decoded⟩ := parts
    unfold scanString
    rw [isLiteral]
    dsimp only
    rw [decoded]
    rfl
  induction long : input.length using Nat.strong_induction_on generalizing input value with
  | _ size ih =>
      cases input with
      | nil => contradiction
      | cons byte rest =>
          rw [List.length_cons] at long
          rw [Json.scanString] at scanned
          by_cases isQuote : byte = Json.quote
          · rw [if_pos isQuote] at scanned
            cases scanned
            subst isQuote
            exact ⟨[], literal_quote _, rfl⟩
          rw [if_neg isQuote] at scanned
          by_cases isBackslash : byte = Json.backslash
          · rw [if_pos isBackslash] at scanned
            cases read : Json.escape rest with
            | none =>
                rw [read] at scanned
                contradiction
            | some pair =>
                obtain ⟨bytes, length⟩ := pair
                rw [read] at scanned
                obtain ⟨⟨more, behind⟩, moreScanned, same⟩ := Option.map_eq_some_iff.mp scanned
                cases same
                rw [json_scanString_skip] at moreScanned
                have shorter : (rest.drop length).length < size := by
                  rw [List.length_drop]
                  omega
                obtain ⟨inner, closed, decoded⟩ := ih _ shorter moreScanned rfl
                obtain ⟨front, frontLong, escaped, isLiteral⟩ := escape_kept read closed
                subst isBackslash
                refine ⟨_, isLiteral, ?_⟩
                rw [decode, if_pos rfl, escaped]
                dsimp only
                rw [decode_skip, ← frontLong, List.drop_left, decoded]
                rfl
          · rw [if_neg isBackslash] at scanned
            by_cases control : byte < 32
            · rw [if_pos control] at scanned
              contradiction
            rw [if_neg control] at scanned
            obtain ⟨⟨more, behind⟩, moreScanned, same⟩ := Option.map_eq_some_iff.mp scanned
            cases same
            obtain ⟨inner, closed, decoded⟩ := ih _ (by omega) moreScanned rfl
            refine ⟨byte :: inner, ?_, ?_⟩
            · rw [literal_other isQuote isBackslash, closed]
              rfl
            · rw [decode, if_neg isBackslash, decoded]
              rfl

/-! ### Numbers -/

/-- One digit at least, and nothing else. -/
def Digits (digits : CText) : Prop :=
  digits ≠ [] ∧ ∀ byte ∈ digits, Json.isDigit byte = true

def EndsDigits (rest : CText) : Prop :=
  ∀ first ∈ rest.head?, Json.isDigit first = false

private theorem scanDigits_eq_some {input digits rest : CText}
    (scanned : Json.scanDigits input = some (digits, rest)) :
    input = digits ++ rest ∧ Digits digits ∧ EndsDigits rest := by
  unfold Json.scanDigits at scanned
  by_cases none_ : input.takeWhile Json.isDigit = []
  · rw [if_pos none_] at scanned
    contradiction
  · rw [if_neg none_] at scanned
    cases scanned
    refine ⟨List.takeWhile_append_dropWhile.symm, ⟨none_, ?_⟩, ?_⟩
    · intro byte member
      exact List.mem_takeWhile_imp member
    · intro first isFirst
      have nonempty : input.dropWhile Json.isDigit ≠ [] := by
        intro nil
        rw [nil] at isFirst
        contradiction
      rw [List.head?_eq_some_head nonempty] at isFirst
      cases isFirst
      exact List.head_dropWhile_not _ nonempty

private theorem scanFraction_eq_some {input fraction rest : CText} (ends : EndsDigits input)
    (scanned : Json.scanFraction input = some (fraction, rest)) :
    input = fraction ++ rest ∧ EndsDigits rest ∧
      (fraction = [] ∧ rest.head? ≠ some Json.point ∨
        ∃ digits, fraction = Json.point :: digits ∧ Digits digits) := by
  cases input with
  | nil =>
      cases scanned
      refine ⟨rfl, ends, .inl ⟨rfl, ?_⟩⟩
      intro pointed
      cases pointed
  | cons first more =>
      rw [Json.scanFraction] at scanned
      by_cases isPoint : first = Json.point
      · rw [if_pos isPoint] at scanned
        obtain ⟨⟨digits, behind⟩, found, same⟩ := Option.map_eq_some_iff.mp scanned
        cases same
        obtain ⟨rfl, isDigits, endsBehind⟩ := scanDigits_eq_some found
        subst isPoint
        exact ⟨rfl, endsBehind, .inr ⟨digits, rfl, isDigits⟩⟩
      · rw [if_neg isPoint] at scanned
        cases scanned
        refine ⟨rfl, ends, .inl ⟨rfl, ?_⟩⟩
        intro pointed
        exact isPoint (Option.some.inj pointed)

/-- The exponents of JSON, none at all among them. -/
inductive Exponent : CText → Prop
  | nothing : Exponent []
  | plain {letter : UInt8} {digits : CText} (isLetter : letter = 101 ∨ letter = 69)
      (isDigits : Digits digits) : Exponent (letter :: digits)
  | signed {letter sign : UInt8} {digits : CText} (isLetter : letter = 101 ∨ letter = 69)
      (isSign : sign = 43 ∨ sign = Json.minus) (isDigits : Digits digits) :
      Exponent (letter :: sign :: digits)

private theorem scanExponent_eq_some {input exponent rest : CText}
    (scanned : Json.scanExponent input = some (exponent, rest)) :
    input = exponent ++ rest ∧ Exponent exponent := by
  cases input with
  | nil =>
      cases scanned
      exact ⟨rfl, .nothing⟩
  | cons first more =>
      unfold Json.scanExponent at scanned
      by_cases isLetter : first = 101 ∨ first = 69
      · simp only [if_pos isLetter] at scanned
        cases more with
        | nil => contradiction
        | cons sign digits =>
            dsimp only at scanned
            by_cases isSign : sign = 43 ∨ sign = Json.minus
            · rw [if_pos isSign] at scanned
              obtain ⟨⟨found, behind⟩, digitsFound, same⟩ := Option.map_eq_some_iff.mp scanned
              cases same
              obtain ⟨rfl, isDigits, _⟩ := scanDigits_eq_some digitsFound
              exact ⟨rfl, .signed isLetter isSign isDigits⟩
            · rw [if_neg isSign] at scanned
              obtain ⟨⟨found, behind⟩, digitsFound, same⟩ := Option.map_eq_some_iff.mp scanned
              cases same
              obtain ⟨split, isDigits, _⟩ := scanDigits_eq_some digitsFound
              exact ⟨by rw [split]; rfl, .plain isLetter isDigits⟩
      · simp only [if_neg isLetter] at scanned
        cases scanned
        exact ⟨rfl, .nothing⟩

/-- A number of JSON in its parts. -/
structure Numeral (lexeme : CText) (sign whole fraction exponent : CText) : Prop where
  split : lexeme = sign ++ (whole ++ (fraction ++ exponent))
  isSign : sign = [] ∨ sign = [Json.minus]
  isWhole : Digits whole
  isFraction : fraction = [] ∨ ∃ digits, fraction = Json.point :: digits ∧ Digits digits
  isExponent : Exponent exponent

private theorem scanUnsigned_eq_some {input lexeme rest : CText}
    (scanned : Json.scanUnsigned input = some (lexeme, rest)) :
    input = lexeme ++ rest ∧
      ∃ whole fraction exponent, Numeral lexeme [] whole fraction exponent := by
  unfold Json.scanUnsigned at scanned
  obtain ⟨⟨whole, afterWhole⟩, wholeFound, scanned⟩ := Option.bind_eq_some_iff.mp scanned
  obtain ⟨⟨fraction, afterFraction⟩, fractionFound, scanned⟩ := Option.bind_eq_some_iff.mp scanned
  obtain ⟨⟨exponent, left⟩, exponentFound, same⟩ := Option.bind_eq_some_iff.mp scanned
  cases same
  have digitsFound : Json.scanDigits input = some (whole, afterWhole) := by
    unfold Json.scanWhole at wholeFound
    obtain ⟨⟨digits, behind⟩, found, same⟩ := Option.bind_eq_some_iff.mp wholeFound
    dsimp only at same
    split at same
    · contradiction
    · cases same
      exact found
  obtain ⟨rfl, isWhole, ends⟩ := scanDigits_eq_some digitsFound
  obtain ⟨rfl, _, isFraction⟩ := scanFraction_eq_some ends fractionFound
  obtain ⟨rfl, isExponent⟩ := scanExponent_eq_some exponentFound
  refine ⟨by simp, whole, fraction, exponent, by simp, .inl rfl, isWhole, ?_, isExponent⟩
  exact isFraction.imp_left And.left

private theorem scanNumber_eq_some {input lexeme rest : CText}
    (scanned : Json.scanNumber input = some (lexeme, rest)) :
    input = lexeme ++ rest ∧
      ∃ sign whole fraction exponent, Numeral lexeme sign whole fraction exponent := by
  cases input with
  | nil => contradiction
  | cons first more =>
      rw [Json.scanNumber] at scanned
      by_cases isMinus : first = Json.minus
      · rw [if_pos isMinus] at scanned
        obtain ⟨⟨found, behind⟩, unsigned, same⟩ := Option.map_eq_some_iff.mp scanned
        cases same
        obtain ⟨rfl, whole, fraction, exponent, parts⟩ := scanUnsigned_eq_some unsigned
        subst isMinus
        refine ⟨rfl, [Json.minus], whole, fraction, exponent, ?_, .inr rfl, parts.isWhole,
          parts.isFraction, parts.isExponent⟩
        rw [parts.split]
        rfl
      · rw [if_neg isMinus] at scanned
        obtain ⟨split, whole, fraction, exponent, parts⟩ := scanUnsigned_eq_some scanned
        exact ⟨split, [], whole, fraction, exponent, parts⟩

private theorem isNumeric_of_isDigit {byte : UInt8} (isDigit : Json.isDigit byte = true) :
    isNumeric byte = true := by
  simp [isNumeric, isDigit]

private theorem Digits.numeric {digits : CText} (isDigits : Digits digits) :
    ∀ byte ∈ digits, isNumeric byte = true :=
  fun byte member => isNumeric_of_isDigit (isDigits.2 byte member)

private theorem Exponent.numeric {exponent : CText} (isExponent : Exponent exponent) :
    ∀ byte ∈ exponent, isNumeric byte = true := by
  cases isExponent with
  | nothing => exact fun _ member => absurd member List.not_mem_nil
  | plain isLetter isDigits =>
      rw [List.forall_mem_cons]
      exact ⟨by rcases isLetter with rfl | rfl <;> rfl, isDigits.numeric⟩
  | signed isLetter isSign isDigits =>
      rw [List.forall_mem_cons, List.forall_mem_cons]
      exact ⟨by rcases isLetter with rfl | rfl <;> rfl, by rcases isSign with rfl | rfl <;> rfl,
        isDigits.numeric⟩

section Numerals

variable {lexeme sign whole fraction exponent : CText}

private theorem Numeral.numeric (parts : Numeral lexeme sign whole fraction exponent) :
    ∀ byte ∈ lexeme, isNumeric byte = true := by
  rw [parts.split, List.forall_mem_append, List.forall_mem_append, List.forall_mem_append]
  refine ⟨?_, parts.isWhole.numeric, ?_, parts.isExponent.numeric⟩
  · rcases parts.isSign with rfl | rfl <;> decide +kernel
  · rcases parts.isFraction with rfl | ⟨digits, rfl, isDigits⟩
    · exact fun _ member => absurd member List.not_mem_nil
    · rw [List.forall_mem_cons]
      exact ⟨rfl, isDigits.numeric⟩

theorem Exponent.length_eq (isExponent : Exponent exponent) :
    strtodLength.exponentLength exponent = exponent.length := by
  have all {digits : CText} (isDigits : Digits digits) :
      digits.takeWhile Json.isDigit = digits :=
    List.takeWhile_eq_self_iff.mpr isDigits.2
  cases isExponent with
  | nothing => rfl
  | plain isLetter isDigits =>
      next letter digits =>
        have unsigned : ¬(digits.head? = some 43 ∨ digits.head? = some Json.minus) := by
          obtain ⟨first, more, rfl⟩ := List.exists_cons_of_ne_nil isDigits.1
          have isDigit := isDigits.2 first List.mem_cons_self
          rintro (same | same) <;>
          · cases same
            contradiction
        rw [strtodLength.exponentLength, if_pos isLetter]
        simp only [if_neg unsigned, List.drop_zero, all isDigits, if_neg isDigits.1,
          List.length_cons]
        omega
  | signed isLetter isSign isDigits =>
      next letter sign digits =>
        have signed : (sign :: digits).head? = some 43 ∨
            (sign :: digits).head? = some Json.minus :=
          isSign.imp (congrArg some) (congrArg some)
        rw [strtodLength.exponentLength, if_pos isLetter]
        simp only [if_pos signed, List.drop_succ_cons, List.drop_zero, all isDigits,
          if_neg isDigits.1, List.length_cons]
        omega

private theorem takeWhile_digits {digits rest : CText} (isDigits : Digits digits)
    (ends : EndsDigits rest) : (digits ++ rest).takeWhile Json.isDigit = digits := by
  rw [List.takeWhile_append_of_pos isDigits.2]
  cases rest with
  | nil => rw [List.takeWhile_nil, List.append_nil]
  | cons first more =>
      have stops := ends first rfl
      rw [List.takeWhile_cons_of_neg (by rw [stops]; decide), List.append_nil]

private theorem Exponent.endsDigits (isExponent : Exponent exponent) : EndsDigits exponent := by
  cases isExponent with
  | nothing =>
      intro first isFirst
      cases isFirst
  | plain isLetter isDigits =>
      intro first isFirst
      cases isFirst
      rcases isLetter with rfl | rfl <;> rfl
  | signed isLetter isSign isDigits =>
      intro first isFirst
      cases isFirst
      rcases isLetter with rfl | rfl <;> rfl

private theorem Exponent.unpointed (isExponent : Exponent exponent) :
    ¬exponent.head? = some Json.point := by
  intro pointed
  cases isExponent with
  | nothing => cases pointed
  | plain isLetter isDigits =>
      cases pointed
      rcases isLetter with other | other <;> contradiction
  | signed isLetter isSign isDigits =>
      cases pointed
      rcases isLetter with other | other <;> contradiction

private theorem unsigned_head {digits : CText} (isDigits : Digits digits) (rest : CText) :
    ¬((digits ++ rest).head? = some 43 ∨ (digits ++ rest).head? = some Json.minus) := by
  obtain ⟨first, more, rfl⟩ := List.exists_cons_of_ne_nil isDigits.1
  have isDigit := isDigits.2 first List.mem_cons_self
  rintro (same | same) <;>
  · cases same
    contradiction

private theorem endsDigits_fraction
    (isFraction : fraction = [] ∨ ∃ digits, fraction = Json.point :: digits ∧ Digits digits)
    (isExponent : Exponent exponent) : EndsDigits (fraction ++ exponent) := by
  rcases isFraction with rfl | ⟨digits, rfl, _⟩
  · exact isExponent.endsDigits
  · intro first isFirst
    cases isFirst
    rfl

private theorem Numeral.strtodLength_eq (parts : Numeral lexeme sign whole fraction exponent) :
    strtodLength lexeme = lexeme.length := by
  have signLength : (if lexeme.head? = some 43 ∨ lexeme.head? = some Json.minus then 1 else 0) =
      sign.length := by
    rw [parts.split]
    rcases parts.isSign with rfl | rfl
    · rw [List.nil_append, if_neg (unsigned_head parts.isWhole _), List.length_nil]
    · rfl
  have unsigned : lexeme.drop sign.length = whole ++ (fraction ++ exponent) := by
    rw [parts.split, List.drop_left]
  have isWhole := takeWhile_digits parts.isWhole
    (endsDigits_fraction parts.isFraction parts.isExponent)
  have someDigits (other : CText) : ¬(whole = [] ∧ other = []) :=
    fun both => parts.isWhole.1 both.1
  have total : lexeme.length =
      sign.length + (whole.length + (fraction.length + exponent.length)) := by
    rw [parts.split, List.length_append, List.length_append, List.length_append]
  unfold strtodLength
  dsimp only
  rw [signLength, unsigned, isWhole, List.drop_left, if_neg (someDigits _), total]
  rcases parts.isFraction with rfl | ⟨digits, rfl, isDigits⟩
  · rw [List.nil_append, if_neg parts.isExponent.unpointed, List.drop_zero,
      parts.isExponent.length_eq, List.length_nil]
    omega
  · have pointed : (Json.point :: digits ++ exponent).head? = some Json.point := rfl
    have isFraction := takeWhile_digits isDigits parts.isExponent.endsDigits
    rw [if_pos pointed, if_pos pointed, List.cons_append, List.drop_succ_cons, List.drop_zero,
      isFraction, List.drop_succ_cons, List.drop_left, parts.isExponent.length_eq,
      List.length_cons]
    omega

private theorem Numeral.strtodLength_take (parts : Numeral lexeme sign whole fraction exponent)
    {count : Nat} (enough : 2 ≤ count) : strtodLength (lexeme.take count) ≠ 0 := by
  obtain ⟨digit, more, rfl⟩ := List.exists_cons_of_ne_nil parts.isWhole.1
  have isDigit := parts.isWhole.2 digit List.mem_cons_self
  obtain ⟨tail, split⟩ : ∃ tail, lexeme.take count = sign ++ digit :: tail := by
    rw [parts.split]
    obtain ⟨less, rfl⟩ : ∃ less, count = less + 2 := ⟨count - 2, by omega⟩
    rcases parts.isSign with rfl | rfl
    · exact ⟨_, rfl⟩
    · exact ⟨_, rfl⟩
  have signLength : (if (lexeme.take count).head? = some 43 ∨
      (lexeme.take count).head? = some Json.minus then 1 else 0) = sign.length := by
    rw [split]
    rcases parts.isSign with rfl | rfl
    · rw [List.nil_append, if_neg, List.length_nil]
      exact unsigned_head ⟨List.cons_ne_nil digit [], by simpa using isDigit⟩ tail
    · rfl
  have nonempty : ¬(digit :: tail).takeWhile Json.isDigit = [] := by
    rw [List.takeWhile_cons_of_pos isDigit]
    exact List.cons_ne_nil _ _
  unfold strtodLength
  dsimp only
  rw [signLength, split, List.drop_left, if_neg (fun both => nonempty both.1)]
  have positive := List.length_pos_iff.mpr nonempty
  omega

end Numerals

/-- No byte that `parse_number` would copy goes on behind. -/
def EndsNumber (rest : CText) : Prop :=
  ∀ first ∈ rest.head?, isNumeric first = false

/-- Of a number the first 63 bytes are copied, and what `strtod` takes of them is
read. -/
def seenNumber (lexeme : CText) : CText :=
  lexeme.take (strtodLength (lexeme.take 63))

private theorem scanNumber_of_json {input lexeme left : CText}
    (scanned : Json.scanNumber input = some (lexeme, left)) (ends : EndsNumber left) :
    scanNumber input =
        some (seenNumber lexeme, input.drop (strtodLength (lexeme.take 63))) ∧
      (lexeme.length ≤ 63 → scanNumber input = some (lexeme, left)) ∧
      (63 < lexeme.length → ∃ behind, scanNumber input = some (seenNumber lexeme, behind) ∧
        ∃ first ∈ behind.head?, isNumeric first = true) := by
  obtain ⟨rfl, sign, whole, fraction, exponent, parts⟩ := scanNumber_eq_some scanned
  have copied : ((lexeme ++ left).take 63).takeWhile isNumeric = lexeme.take 63 := by
    rw [List.take_append, List.takeWhile_append_of_pos]
    · cases left with
      | nil => rw [List.take_nil, List.takeWhile_nil, List.append_nil]
      | cons first more =>
          have stops := ends first rfl
          generalize 63 - lexeme.length = more_
          cases more_ with
          | zero => rw [List.take_zero, List.takeWhile_nil, List.append_nil]
          | succ more_ =>
              rw [List.take_succ_cons, List.takeWhile_cons_of_neg (by rw [stops]; decide),
                List.append_nil]
    · intro byte member
      exact parts.numeric byte (List.mem_of_mem_take member)
  have taken := strtodLength_le (lexeme.take 63)
  have positive := parts.strtodLength_take (show 2 ≤ 63 by decide)
  have atMost : strtodLength (lexeme.take 63) ≤ 63 := taken.trans (List.length_take_le _ _)
  have seen : scanNumber (lexeme ++ left) =
      some (seenNumber lexeme, (lexeme ++ left).drop (strtodLength (lexeme.take 63))) := by
    unfold scanNumber seenNumber
    dsimp only
    rw [copied, if_neg positive, List.take_take, Nat.min_eq_left atMost]
  refine ⟨seen, ?_, ?_⟩
  · intro short
    rw [seen]
    unfold seenNumber
    rw [List.take_of_length_le short, parts.strtodLength_eq, List.take_length, List.drop_left]
  · intro long
    refine ⟨_, seen, ?_⟩
    have inside : strtodLength (lexeme.take 63) < lexeme.length := by omega
    rw [List.drop_append_of_le_length inside.le, List.drop_eq_getElem_cons inside]
    exact ⟨_, rfl, parts.numeric _ (List.getElem_mem _)⟩

/-! ### Blanks -/

private theorem isSpace_le {byte : UInt8} (isSpace : Json.isSpace byte = true) : byte ≤ 32 := by
  simp only [Json.isSpace, Bool.or_eq_true, beq_iff_eq] at isSpace
  rcases isSpace with ((rfl | rfl) | rfl) | rfl <;> decide

private theorem isSpace_numeric {byte : UInt8} (isSpace : Json.isSpace byte = true) :
    isNumeric byte = false := by
  simp only [Json.isSpace, Bool.or_eq_true, beq_iff_eq] at isSpace
  rcases isSpace with ((rfl | rfl) | rfl) | rfl <;> rfl

private theorem skipBlank_skipSpace (input : CText) :
    skipBlank (Json.skipSpace input) = skipBlank input := by
  induction input with
  | nil => rfl
  | cons byte rest ih =>
      unfold Json.skipSpace skipBlank at *
      by_cases isSpace : Json.isSpace byte = true
      · have blank : decide (byte ≤ 32) = true := decide_eq_true (isSpace_le isSpace)
        rw [List.dropWhile_cons_of_pos isSpace, ih]
        exact (List.dropWhile_cons_of_pos (p := fun byte : UInt8 => decide (byte ≤ 32)) blank).symm
      · rw [List.dropWhile_cons_of_neg isSpace]

private theorem skipBlank_solid {first : UInt8} (solid : 32 < first) (rest : CText) :
    skipBlank (first :: rest) = first :: rest := by
  unfold skipBlank
  rw [List.dropWhile_cons_of_neg]
  simpa using solid

private theorem skipBlank_of_skipSpace {input rest : CText} {first : UInt8} (solid : 32 < first)
    (next : Json.skipSpace input = first :: rest) : skipBlank input = first :: rest := by
  rw [← skipBlank_skipSpace, next, skipBlank_solid solid]

private theorem skipSpace_of_token {byte : UInt8} {input left : CText}
    (found : Json.token byte input = some left) : Json.skipSpace input = byte :: left := by
  unfold Json.token at found
  cases next : Json.skipSpace input with
  | nil =>
      rw [next] at found
      contradiction
  | cons first rest =>
      simp only [next] at found
      split at found
      · next same =>
          cases found
          rw [same]
      · contradiction

private theorem endsNumber_of_token {byte : UInt8} {input left : CText}
    (found : Json.token byte input = some left) (other : isNumeric byte = false) :
    EndsNumber input := by
  intro first isFirst
  cases input with
  | nil => cases isFirst
  | cons head rest =>
      cases isFirst
      by_cases isSpace : Json.isSpace first = true
      · exact isSpace_numeric isSpace
      · have next := skipSpace_of_token found
        unfold Json.skipSpace at next
        rw [List.dropWhile_cons_of_neg isSpace] at next
        cases next
        exact other

private theorem isNumeric_solid {byte : UInt8} (numeric : isNumeric byte = true) : 32 < byte := by
  simp only [isNumeric, Json.isDigit, Json.minus, Json.point, Bool.or_eq_true, Bool.and_eq_true,
    decide_eq_true_eq, beq_iff_eq] at numeric
  rcases numeric with ((((⟨least, _⟩ | rfl) | rfl) | rfl) | rfl) | rfl
  · exact UInt8.lt_of_lt_of_le (show (32 : UInt8) < 48 by decide) least
  all_goals decide

/-! ### Documents -/

/-- A scanner of the dialect reads what the one of JSON does, if that fits.  What
does not fit is not read, or not to its end, which is in the middle of a number. -/
structure Follows {α : Type} (fits : α → Prop) (strict scan : CText → Option (α × CText)) :
    Prop where
  begins : ∀ {input value left}, strict input = some (value, left) →
    ∃ first ∈ (Json.skipSpace input).head?, 32 < first ∧ first < 128
  reads : ∀ {input value left}, strict input = some (value, left) → EndsNumber left →
    fits value → scan (skipBlank input) = some (value, left)
  stops : ∀ {input value left}, strict input = some (value, left) → EndsNumber left →
    ¬fits value → ∀ found, scan (skipBlank input) = some found →
      ∃ first ∈ found.2.head?, isNumeric first = true

structure ClosesContainer (close : UInt8) : Prop where
  solid : 32 < close
  notNumeric : isNumeric close = false
  notComma : close ≠ Json.comma

private theorem closesContainer_bracket : ClosesContainer Json.closeBracket :=
  ⟨by decide, rfl, by decide⟩

private theorem closesContainer_brace : ClosesContainer Json.closeBrace :=
  ⟨by decide, rfl, by decide⟩

section Containers

variable {α : Type} {fits : α → Prop} {strict scan : CText → Option (α × CText)} {close : UInt8}

private theorem scanItems_of_json (follows : Follows fits strict scan) (closes : ClosesContainer close)
    {count : Nat} {input left : CText} {items : List α}
    (scanned : Json.scanList close strict count input = some (items, left)) :
    ((∀ item ∈ items, fits item) → scanItems close scan count input = some (items, left)) ∧
      (¬(∀ item ∈ items, fits item) → scanItems close scan count input = none) := by
  induction count generalizing input items with
  | zero => contradiction
  | succ count ih =>
      rw [Json.scanList] at scanned
      cases itemScanned : strict input with
      | none =>
          rw [itemScanned] at scanned
          contradiction
      | some pair =>
          obtain ⟨item, behind⟩ := pair
          simp only [itemScanned] at scanned
          have unfit (ends : EndsNumber behind) (notFits : ¬fits item) :
              scanItems close scan (count + 1) input = none := by
            rw [scanItems]
            cases read : scan (skipBlank input) with
            | none => rfl
            | some found =>
                obtain ⟨first, isFirst, numeric⟩ := follows.stops itemScanned ends notFits _ read
                obtain ⟨value, last⟩ := found
                cases last with
                | nil => cases isFirst
                | cons head rest =>
                    cases isFirst
                    have notComma : ¬first = Json.comma := by
                      rintro rfl
                      contradiction
                    have notClose : ¬first = close := by
                      rintro rfl
                      rw [closes.notNumeric] at numeric
                      contradiction
                    simp only [skipBlank_solid (isNumeric_solid numeric), if_neg notComma,
                      if_neg notClose]
          cases closed : Json.token close behind with
          | some last =>
              rw [closed] at scanned
              cases scanned
              have ends := endsNumber_of_token closed closes.notNumeric
              have next := skipBlank_of_skipSpace closes.solid (skipSpace_of_token closed)
              rw [List.forall_mem_singleton]
              constructor
              · intro isFit
                rw [scanItems, follows.reads itemScanned ends isFit]
                simp only [next, if_neg closes.notComma, if_true]
              · exact unfit ends
          | none =>
              simp only [closed] at scanned
              cases parted : Json.token Json.comma behind with
              | none =>
                  rw [parted] at scanned
                  contradiction
              | some more =>
                  rw [parted] at scanned
                  obtain ⟨⟨others, last⟩, othersScanned, same⟩ := Option.map_eq_some_iff.mp scanned
                  cases same
                  have ends := endsNumber_of_token parted rfl
                  have next := skipBlank_of_skipSpace (show 32 < Json.comma by decide)
                    (skipSpace_of_token parted)
                  obtain ⟨othersRead, othersStop⟩ := ih othersScanned
                  have goesOn (isFit : fits item) : scanItems close scan (count + 1) input =
                      (scanItems close scan count more).map
                        (fun found => (item :: found.1, found.2)) := by
                    rw [scanItems, follows.reads itemScanned ends isFit]
                    simp only [next, if_true]
                  rw [List.forall_mem_cons]
                  constructor
                  · rintro ⟨isFit, othersFit⟩
                    rw [goesOn isFit, othersRead othersFit]
                    rfl
                  · intro notAll
                    by_cases isFit : fits item
                    · rw [goesOn isFit, othersStop (fun all => notAll ⟨isFit, all⟩)]
                      rfl
                    · exact unfit ends isFit

/-- The containers of JSON, empty or with items. -/
def Contains (strict : CText → Option (α × CText)) (close : UInt8) (input : CText)
    (items : List α) (left : CText) : Prop :=
  Json.token close input = some left ∧ items = [] ∨
    Json.token close input = none ∧
      Json.scanList close strict input.length input = some (items, left)

private theorem scanContainer_of_json (follows : Follows fits strict scan) (closes : ClosesContainer close)
    {input left : CText} {items : List α} (contains : Contains strict close input items left) :
    ((∀ item ∈ items, fits item) → scanContainer close scan input = some (items, left)) ∧
      (¬(∀ item ∈ items, fits item) → scanContainer close scan input = none) := by
  rcases contains with ⟨closed, rfl⟩ | ⟨goesOn, scanned⟩
  · have next := skipBlank_of_skipSpace closes.solid (skipSpace_of_token closed)
    constructor
    · intro _
      unfold scanContainer
      simp only [next, if_true]
    · intro notAll
      exact absurd (fun _ member => absurd member List.not_mem_nil) notAll
  · obtain ⟨first, rest, begins, solid, notClose⟩ :
        ∃ first rest, Json.skipSpace input = first :: rest ∧ 32 < first ∧ ¬first = close := by
      obtain ⟨item, behind, itemScanned⟩ : ∃ item behind, strict input = some (item, behind) := by
        cases long : input.length with
        | zero =>
            rw [long] at scanned
            contradiction
        | succ count =>
            rw [long, Json.scanList] at scanned
            cases itemScanned : strict input with
            | none =>
                rw [itemScanned] at scanned
                contradiction
            | some pair => exact ⟨pair.1, pair.2, rfl⟩
      obtain ⟨first, isFirst, solid, _⟩ := follows.begins itemScanned
      obtain ⟨rest, begins⟩ := List.head?_eq_some_iff.mp isFirst
      refine ⟨first, rest, begins, solid, ?_⟩
      rintro rfl
      unfold Json.token at goesOn
      simp only [begins, if_true] at goesOn
      contradiction
    have next := skipBlank_of_skipSpace solid begins
    have opened : scanContainer close scan input = scanItems close scan input.length input := by
      unfold scanContainer
      simp only [next, if_neg notClose]
    rw [opened]
    exact scanItems_of_json follows closes scanned

end Containers

private theorem follows_member {fits : Json → Prop} {strict scan : CText → Option (Json × CText)}
    (follows : Follows fits strict scan) :
    Follows (fun member : CText × Json => fits member.2) (Json.scanMember strict)
      (scanMember scan) := by
  have parts {input left : CText} {member : CText × Json}
      (scanned : Json.scanMember strict input = some (member, left)) :
      ∃ opened assigned, Json.skipSpace input = Json.quote :: opened ∧
        strict assigned = some (member.2, left) ∧
        scanMember scan (skipBlank input) = (scan (skipBlank assigned)).map
          (fun found => ((member.1, found.1), found.2)) := by
    unfold Json.scanMember at scanned
    obtain ⟨opened, quoted, scanned⟩ := Option.bind_eq_some_iff.mp scanned
    obtain ⟨⟨name, named⟩, nameScanned, scanned⟩ := Option.bind_eq_some_iff.mp scanned
    obtain ⟨assigned, colon, scanned⟩ := Option.bind_eq_some_iff.mp scanned
    obtain ⟨⟨value, behind⟩, valueScanned, same⟩ := Option.bind_eq_some_iff.mp scanned
    cases same
    refine ⟨opened, assigned, skipSpace_of_token quoted, valueScanned, ?_⟩
    rw [skipBlank_of_skipSpace (show 32 < Json.quote by decide) (skipSpace_of_token quoted),
      scanMember, if_pos rfl, scanString_of_json nameScanned]
    simp only [skipBlank_of_skipSpace (show 32 < Json.colon by decide) (skipSpace_of_token colon),
      if_true]
  constructor
  · intro input member left scanned
    obtain ⟨opened, _, begins, _⟩ := parts scanned
    rw [begins]
    exact ⟨Json.quote, rfl, by decide, by decide⟩
  · intro input member left scanned ends isFit
    obtain ⟨_, assigned, _, valueScanned, read⟩ := parts scanned
    rw [read, follows.reads valueScanned ends isFit]
    rfl
  · intro input member left scanned ends notFits found isFound
    obtain ⟨_, assigned, _, valueScanned, read⟩ := parts scanned
    rw [read] at isFound
    obtain ⟨⟨value, behind⟩, valueFound, same⟩ := Option.map_eq_some_iff.mp isFound
    cases same
    exact follows.stops valueScanned ends notFits _ valueFound

/-- What cJSON follows: not too many containers around each other, and no number
longer than it copies. -/
def Fits (limit : Nat) (document : Json) : Prop :=
  document.nesting ≤ limit ∧ document.longestNumber ≤ 63

instance (limit : Nat) (document : Json) : Decidable (Fits limit document) :=
  inferInstanceAs (Decidable (_ ∧ _))

private theorem fits_array {limit : Nat} {items : List Json} :
    Fits (limit + 1) (.array items) ↔ ∀ item ∈ items, Fits limit item := by
  unfold Fits
  rw [Json.nesting, Json.longestNumber, Nat.succ_le_succ_iff, Json.nestingItems_le,
    Json.longestNumberItems_le]
  exact ⟨fun both item member => ⟨both.1 item member, both.2 item member⟩,
    fun each => ⟨fun item member => (each item member).1, fun item member => (each item member).2⟩⟩

private theorem fits_object {limit : Nat} {members : List (CText × Json)} :
    Fits (limit + 1) (.object members) ↔ ∀ member ∈ members, Fits limit member.2 := by
  unfold Fits
  rw [Json.nesting, Json.longestNumber, Nat.succ_le_succ_iff, Json.nestingMembers_le,
    Json.longestNumberMembers_le]
  exact ⟨fun both item member => ⟨both.1 item member, both.2 item member⟩,
    fun each => ⟨fun item member => (each item member).1, fun item member => (each item member).2⟩⟩

private theorem not_fits_open (items : List Json) (members : List (CText × Json)) :
    ¬Fits 0 (.array items) ∧ ¬Fits 0 (.object members) :=
  ⟨fun isFit => absurd isFit.1 (Nat.not_succ_le_zero _),
    fun isFit => absurd isFit.1 (Nat.not_succ_le_zero _)⟩

private theorem fits_flat {limit : Nat} {document : Json} (flat : document.nesting = 0)
    (numberless : document.longestNumber = 0) : Fits limit document :=
  ⟨flat ▸ Nat.zero_le limit, numberless ▸ Nat.zero_le 63⟩

private theorem scanValue_flat (limit : Nat) {first : UInt8} {rest : CText}
    (notBracket : first ≠ Json.openBracket) (notBrace : first ≠ Json.openBrace) :
    scanValue limit (first :: rest) = scanScalar (first :: rest) := by
  cases limit with
  | zero => rfl
  | succ limit =>
      rw [scanValue, scanNested, if_neg notBracket, if_neg notBrace, Option.none_or]

private theorem scanValue_open (limit : Nat) {first : UInt8} (rest : CText)
    (opens : first = Json.openBracket ∨ first = Json.openBrace) :
    scanValue 0 (first :: rest) = none ∧
      scanValue (limit + 1) (first :: rest) = scanNested (scanValue limit) (first :: rest) := by
  rw [scanValue, scanValue, scanScalar_open rest opens, Option.or_none]
  exact ⟨rfl, rfl⟩

private theorem scanValue_string (limit : Nat) (rest : CText) :
    scanValue limit (Json.quote :: rest) =
      (scanString rest).map (fun found => (.string found.1, found.2)) := by
  rw [scanValue_flat limit (by decide) (by decide)]
  rfl

theorem scanValue_array (limit : Nat) (rest : CText) :
    scanValue (limit + 1) (Json.openBracket :: rest) =
      (scanContainer Json.closeBracket (scanValue limit) rest).map
        (fun found => (.array found.1, found.2)) := by
  rw [(scanValue_open limit rest (.inl rfl)).2, scanNested, if_pos rfl]

theorem scanValue_object (limit : Nat) (rest : CText) :
    scanValue (limit + 1) (Json.openBrace :: rest) =
      (scanContainer Json.closeBrace (scanMember (scanValue limit)) rest).map
        (fun found => (.object found.1, found.2)) := by
  have notBracket : ¬Json.openBrace = Json.openBracket := by decide
  rw [(scanValue_open limit rest (.inr rfl)).2, scanNested, if_neg notBracket, if_pos rfl]

private theorem scanValue_word (limit : Nat) (rest : CText) :
    scanValue limit (text "null" ++ rest) = some (.null, rest) ∧
      scanValue limit (text "true" ++ rest) = some (.bool true, rest) ∧
      scanValue limit (text "false" ++ rest) = some (.bool false, rest) := by
  refine ⟨?_, ?_, ?_⟩
  · exact @scanValue_flat limit 110 (text "ull" ++ rest) (by decide) (by decide)
  · exact @scanValue_flat limit 116 (text "rue" ++ rest) (by decide) (by decide)
  · exact @scanValue_flat limit 102 (text "alse" ++ rest) (by decide) (by decide)

private theorem numeral_head {first : UInt8} {rest lexeme left : CText}
    (scanned : Json.scanNumber (first :: rest) = some (lexeme, left)) :
    first = Json.minus ∨ Json.isDigit first = true := by
  obtain ⟨split, sign, whole, fraction, exponent, parts⟩ := scanNumber_eq_some scanned
  obtain ⟨digit, more, rfl⟩ := List.exists_cons_of_ne_nil parts.isWhole.1
  rw [parts.split] at split
  rcases parts.isSign with rfl | rfl
  · cases split
    exact .inr (parts.isWhole.2 _ List.mem_cons_self)
  · cases split
    exact .inl rfl

private theorem scanValue_number (limit : Nat) {first : UInt8} {rest : CText}
    (begins : first = Json.minus ∨ Json.isDigit first = true) :
    scanValue limit (first :: rest) =
      (scanNumber (first :: rest)).map (fun found => (.number found.1, found.2)) := by
  have other : ∀ byte, byte ≠ Json.minus → Json.isDigit byte = false → first ≠ byte := by
    rintro byte notMinus notDigit rfl
    rcases begins with same | isDigit
    · exact notMinus same
    · rw [notDigit] at isDigit
      contradiction
  have noWord (byte : UInt8) (more : CText) (differs : first ≠ byte) :
      ¬(byte :: more).isPrefixOf (first :: rest) = true := by
    rw [List.isPrefixOf, Bool.and_eq_true, beq_iff_eq]
    exact fun both => differs both.1.symm
  have noNull : ¬(text "null").isPrefixOf (first :: rest) = true :=
    noWord 110 (text "ull") (other _ (by decide) rfl)
  have noFalse : ¬(text "false").isPrefixOf (first :: rest) = true :=
    noWord 102 (text "alse") (other _ (by decide) rfl)
  have noTrue : ¬(text "true").isPrefixOf (first :: rest) = true :=
    noWord 116 (text "rue") (other _ (by decide) rfl)
  rw [scanValue_flat limit (other _ (by decide) rfl) (other _ (by decide) rfl), scanScalar,
    if_neg noNull, if_neg noFalse, if_neg noTrue]
  simp only [if_neg (other Json.quote (by decide) rfl), if_pos begins]

/-- What may stand at the start of a value of JSON, and what is there then. -/
inductive Begins (fuel : Nat) : CText → Json → CText → Prop
  | string {rest value left : CText} (scanned : Json.scanString 0 rest = some (value, left)) :
      Begins fuel (Json.quote :: rest) (.string value) left
  | array {rest left : CText} {items : List Json}
      (contains : Contains (Json.scanValue fuel) Json.closeBracket rest items left) :
      Begins fuel (Json.openBracket :: rest) (.array items) left
  | object {rest left : CText} {members : List (CText × Json)}
      (contains : Contains (Json.scanMember (Json.scanValue fuel)) Json.closeBrace rest members
        left) :
      Begins fuel (Json.openBrace :: rest) (.object members) left
  | null (left : CText) : Begins fuel (text "null" ++ left) .null left
  | wordTrue (left : CText) : Begins fuel (text "true" ++ left) (.bool true) left
  | wordFalse (left : CText) : Begins fuel (text "false" ++ left) (.bool false) left
  | number {first : UInt8} {rest lexeme left : CText}
      (scanned : Json.scanNumber (first :: rest) = some (lexeme, left)) :
      Begins fuel (first :: rest) (.number lexeme) left

private theorem begins_of_scanValue {fuel : Nat} {input left : CText} {document : Json}
    (scanned : Json.scanValue fuel input = some (document, left)) :
    ∃ less, fuel = less + 1 ∧ Begins less (Json.skipSpace input) document left := by
  cases fuel with
  | zero => contradiction
  | succ less =>
      refine ⟨less, rfl, ?_⟩
      rw [Json.scanValue] at scanned
      cases next : Json.skipSpace input with
      | nil =>
          rw [next] at scanned
          contradiction
      | cons first rest =>
          simp only [next] at scanned
          have word {name : CText} (starts : name.isPrefixOf (first :: rest) = true) :
              ∃ behind, first :: rest = name ++ behind :=
            (List.isPrefixOf_iff_prefix.mp starts).imp fun _ => Eq.symm
          by_cases isQuote : first = Json.quote
          · rw [if_pos isQuote] at scanned
            obtain ⟨⟨value, behind⟩, found, same⟩ := Option.map_eq_some_iff.mp scanned
            cases same
            subst isQuote
            exact .string found
          rw [if_neg isQuote] at scanned
          by_cases isBracket : first = Json.openBracket
          · rw [if_pos isBracket] at scanned
            subst isBracket
            cases closed : Json.token Json.closeBracket rest with
            | some behind =>
                rw [closed] at scanned
                cases scanned
                exact .array (.inl ⟨closed, rfl⟩)
            | none =>
                rw [closed] at scanned
                obtain ⟨⟨items, behind⟩, found, same⟩ := Option.map_eq_some_iff.mp scanned
                cases same
                exact .array (.inr ⟨closed, found⟩)
          rw [if_neg isBracket] at scanned
          by_cases isBrace : first = Json.openBrace
          · rw [if_pos isBrace] at scanned
            subst isBrace
            cases closed : Json.token Json.closeBrace rest with
            | some behind =>
                rw [closed] at scanned
                cases scanned
                exact .object (.inl ⟨closed, rfl⟩)
            | none =>
                rw [closed] at scanned
                obtain ⟨⟨members, behind⟩, found, same⟩ := Option.map_eq_some_iff.mp scanned
                cases same
                exact .object (.inr ⟨closed, found⟩)
          rw [if_neg isBrace] at scanned
          by_cases isNull : (text "null").isPrefixOf (first :: rest) = true
          · rw [if_pos isNull] at scanned
            obtain ⟨behind, split⟩ := word isNull
            cases split
            cases scanned
            exact .null behind
          rw [if_neg isNull] at scanned
          by_cases isTrue : (text "true").isPrefixOf (first :: rest) = true
          · rw [if_pos isTrue] at scanned
            obtain ⟨behind, split⟩ := word isTrue
            cases split
            cases scanned
            exact .wordTrue behind
          rw [if_neg isTrue] at scanned
          by_cases isFalse : (text "false").isPrefixOf (first :: rest) = true
          · rw [if_pos isFalse] at scanned
            obtain ⟨behind, split⟩ := word isFalse
            cases split
            cases scanned
            exact .wordFalse behind
          rw [if_neg isFalse] at scanned
          obtain ⟨⟨lexeme, behind⟩, found, same⟩ := Option.map_eq_some_iff.mp scanned
          cases same
          exact .number found

theorem Begins.head {fuel : Nat} {input left : CText} {document : Json}
    (begins : Begins fuel input document left) :
    ∃ first rest, input = first :: rest ∧ 32 < first ∧ first < 128 := by
  cases begins with
  | string => exact ⟨_, _, rfl, by decide, by decide⟩
  | array => exact ⟨_, _, rfl, by decide, by decide⟩
  | object => exact ⟨_, _, rfl, by decide, by decide⟩
  | null => exact ⟨110, text "ull" ++ left, rfl, by decide, by decide⟩
  | wordTrue => exact ⟨116, text "rue" ++ left, rfl, by decide, by decide⟩
  | wordFalse => exact ⟨102, text "alse" ++ left, rfl, by decide, by decide⟩
  | number scanned =>
      refine ⟨_, _, rfl, ?_⟩
      rcases numeral_head scanned with rfl | isDigit
      · decide
      · rw [Json.isDigit, Bool.and_eq_true, decide_eq_true_eq, decide_eq_true_eq] at isDigit
        exact ⟨UInt8.lt_of_lt_of_le (show (32 : UInt8) < 48 by decide) isDigit.1,
          UInt8.lt_of_le_of_lt isDigit.2 (by decide)⟩

/-- What stands at the start of a value is read, if it fits. -/
theorem Begins.scan {fuel limit : Nat} {input left : CText} {document : Json}
    (begins : Begins fuel input document left) (ends : EndsNumber left)
    (follows : ∀ less, limit = less + 1 →
      Follows (Fits less) (Json.scanValue fuel) (scanValue less)) :
    (Fits limit document → scanValue limit input = some (document, left)) ∧
      (¬Fits limit document → scanValue limit input = none ∨
        ∃ lexeme behind, document = .number lexeme ∧
          scanValue limit input = some (.number (seenNumber lexeme), behind) ∧
          ∃ first ∈ behind.head?, isNumeric first = true) := by
  cases begins with
  | string scanned =>
      constructor
      · intro _
        rw [scanValue_string, scanString_of_json scanned]
        rfl
      · intro notFits
        exact absurd (fits_flat rfl rfl) notFits
  | @array rest left items contains =>
      cases limit with
      | zero =>
          exact ⟨fun isFit => absurd isFit (not_fits_open items []).1,
            fun _ => .inl (scanValue_open 0 rest (.inl rfl)).1⟩
      | succ limit =>
          have container := scanContainer_of_json (follows limit rfl) closesContainer_bracket
            contains
          rw [fits_array, scanValue_array]
          constructor
          · intro all
            rw [container.1 all]
            rfl
          · intro notAll
            rw [container.2 notAll]
            exact .inl rfl
  | @object rest left members contains =>
      cases limit with
      | zero =>
          exact ⟨fun isFit => absurd isFit (not_fits_open [] members).2,
            fun _ => .inl (scanValue_open 0 rest (.inr rfl)).1⟩
      | succ limit =>
          have container := scanContainer_of_json (follows_member (follows limit rfl))
            closesContainer_brace contains
          rw [fits_object, scanValue_object]
          constructor
          · intro all
            rw [container.1 all]
            rfl
          · intro notAll
            rw [container.2 notAll]
            exact .inl rfl
  | null => exact ⟨fun _ => (scanValue_word limit left).1,
      fun notFits => absurd (fits_flat rfl rfl) notFits⟩
  | wordTrue => exact ⟨fun _ => (scanValue_word limit left).2.1,
      fun notFits => absurd (fits_flat rfl rfl) notFits⟩
  | wordFalse => exact ⟨fun _ => (scanValue_word limit left).2.2,
      fun notFits => absurd (fits_flat rfl rfl) notFits⟩
  | number scanned =>
      obtain ⟨_, short, long⟩ := scanNumber_of_json scanned ends
      rw [scanValue_number limit (numeral_head scanned)]
      constructor
      · intro isFit
        rw [short isFit.2]
        rfl
      · intro notFits
        have tooLong : 63 < _ := Nat.lt_of_not_le fun short => notFits ⟨Nat.zero_le limit, short⟩
        obtain ⟨behind, read, goesOn⟩ := long tooLong
        rw [read]
        exact .inr ⟨_, behind, rfl, rfl, goesOn⟩

private theorem follows_value (fuel limit : Nat) :
    Follows (Fits limit) (Json.scanValue fuel) (scanValue limit) := by
  induction fuel generalizing limit with
  | zero =>
      constructor <;>
      · intro input document left scanned
        contradiction
  | succ fuel ih =>
      have starts {input left : CText} {document : Json}
          (scanned : Json.scanValue (fuel + 1) input = some (document, left)) :
          Begins fuel (Json.skipSpace input) document left ∧
            skipBlank input = Json.skipSpace input := by
        obtain ⟨less, same, begins⟩ := begins_of_scanValue scanned
        cases same
        obtain ⟨first, rest, next, solid, _⟩ := begins.head
        exact ⟨begins, next ▸ skipBlank_of_skipSpace solid next⟩
      constructor
      · intro input document left scanned
        obtain ⟨first, rest, next, solid, ascii⟩ := (starts scanned).1.head
        exact ⟨first, by rw [next]; rfl, solid, ascii⟩
      · intro input document left scanned ends
        obtain ⟨begins, blank⟩ := starts scanned
        rw [blank]
        exact (begins.scan ends fun less _ => ih less).1
      · intro input document left scanned ends notFits found isFound
        obtain ⟨begins, blank⟩ := starts scanned
        rw [blank] at isFound
        rcases (begins.scan ends fun less _ => ih less).2 notFits with none_ | cut
        · rw [none_] at isFound
          contradiction
        · obtain ⟨lexeme, behind, _, read, goesOn⟩ := cut
          rw [read] at isFound
          cases isFound
          exact goesOn

/-- What is seen of a document of JSON.  A number on its own may be longer than
what is copied of it: nothing is asked of what follows. -/
def seen : Json → Option Json
  | .number lexeme => some (.number (seenNumber lexeme))
  | document => if Fits nestingLimit document then some document else none

private theorem endsNumber_of_skipSpace {rest : CText} (ended : Json.skipSpace rest = []) :
    EndsNumber rest := by
  intro first isFirst
  cases rest with
  | nil => cases isFirst
  | cons head more =>
      cases isFirst
      unfold Json.skipSpace at ended
      rw [List.dropWhile_eq_nil_iff] at ended
      exact isSpace_numeric (ended first List.mem_cons_self)

private theorem skipBom_mark {value rest mark : CText} {first : UInt8}
    (next : Json.skipSpace value = first :: rest) (solid : 32 < first) (ascii : first < 128)
    (isMark : mark = [] ∨ mark = [239, 187, 191]) : skipBom (mark ++ value) = value := by
  unfold skipBom
  rcases isMark with rfl | rfl
  · rw [List.nil_append, if_neg]
    rintro ⟨_, marked⟩
    cases value with
    | nil => contradiction
    | cons head more =>
        rw [List.isPrefixOf, Bool.and_eq_true, beq_iff_eq] at marked
        have same := marked.1
        subst same
        cases next
        contradiction
  · have some_ : value ≠ [] := by
      rintro rfl
      cases next
    have positive := List.length_pos_iff.mpr some_
    have long : 4 ≤ ([239, 187, 191] ++ value : CText).length := by
      rw [List.length_append]
      simp only [List.length_cons, List.length_nil]
      omega
    rw [if_pos ⟨long, rfl⟩]
    rfl

private theorem parse_json {value : CText} {document : Json} (isJson : Json.parse value = some document)
    {mark : CText} (isMark : mark = [] ∨ mark = [239, 187, 191]) :
    parse (mark ++ value) = seen document := by
  unfold Json.parse at isJson
  cases scanned : Json.scanValue value.length value with
  | none =>
      rw [scanned] at isJson
      contradiction
  | some pair =>
      obtain ⟨found, rest⟩ := pair
      simp only [scanned] at isJson
      by_cases ended : Json.skipSpace rest = []
      · rw [if_pos ended] at isJson
        cases isJson
        obtain ⟨less, _, begins⟩ := begins_of_scanValue scanned
        obtain ⟨first, behind, next, solid, ascii⟩ := begins.head
        have blank := skipBlank_of_skipSpace solid next
        have ends := endsNumber_of_skipSpace ended
        have read := @begins.scan less nestingLimit _ _ _ ends
          fun limit _ => follows_value less limit
        have there : scan (mark ++ value) = scanValue nestingLimit (Json.skipSpace value) := by
          unfold scan
          rw [skipBom_mark next solid ascii isMark, blank, next]
        unfold parse
        rw [there]
        by_cases number : ∃ lexeme, document = .number lexeme
        · obtain ⟨lexeme, rfl⟩ := number
          generalize Json.skipSpace value = start at begins
          cases begins with
          | number numberScanned =>
              rw [scanValue_number nestingLimit (numeral_head numberScanned),
                (scanNumber_of_json numberScanned ends).1]
              rfl
        · have isSeen : seen document =
              if Fits nestingLimit document then some document else none := by
            unfold seen
            split
            · exact absurd ⟨_, rfl⟩ number
            · rfl
          rw [isSeen]
          by_cases isFit : Fits nestingLimit document
          · rw [if_pos isFit, read.1 isFit]
            rfl
          · rcases read.2 isFit with none_ | ⟨lexeme, _, same, _⟩
            · rw [if_neg isFit, none_]
              rfl
            · exact absurd ⟨lexeme, same⟩ number
      · rw [if_neg ended] at isJson
        contradiction

end Dialect

/-- A JSON text, behind a byte order mark or not, gives the tree of its document,
or nothing where cJSON does not follow. -/
theorem cJsonParse_json {value : CText} {document : Json}
    (isJson : Json.parse value = some document) {mark : CText}
    (isMark : mark = [] ∨ mark = [239, 187, 191]) :
    cJsonParse (mark ++ value) =
      .ok ((Dialect.seen document).map (CJson.ofJson numberInt none)) := by
  rw [cJsonParse_eq, CJson.parse, Dialect.parse_json isJson isMark]

theorem cJsonParse_json_marked :
    Json.parse (text "[\x7b\"a\":[]\x7d]") =
        some (.array [.object [(text "a", .array [])]]) ∧
      cJsonParse ([239, 187, 191] ++ text "[\x7b\"a\":[]\x7d]") =
        .ok ((Dialect.seen (.array [.object [(text "a", .array [])]])).map
          (CJson.ofJson numberInt none)) := by
  have isJson : Json.parse (text "[\x7b\"a\":[]\x7d]") =
      some (.array [.object [(text "a", .array [])]]) := by rfl
  exact ⟨isJson, cJsonParse_json isJson (.inr rfl)⟩

end DlcServer
