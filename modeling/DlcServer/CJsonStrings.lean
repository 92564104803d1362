/-
The strings cJSON reads.

The output array of `parse_string` is sized by a first pass over the literal,
which counts escapes as pairs of bytes.  The second pass may see other escapes,
since what is taken for the digits of a `\u` may end in a backslash.  It still
writes no more than the array holds: of any two neighbouring bytes one at least
was counted in full.
-/

import DlcServer.CJsonDialect
import DlcServer.Library.JsonSplice

namespace DlcServer

open Library

/-! ### UTF-8 -/

set_option maxRecDepth 8192 in
private theorem continuation_byte (codepoint : Nat) :
    (codepoint ||| 0x80) &&& 0xBF = 128 + codepoint % 64 := by
  have small : ∀ rest < 256, (rest ||| 0x80) &&& 0xBF = 128 + rest % 64 := by decide
  have narrowed : (codepoint ||| 0x80) &&& 0xBF = ((codepoint % 256) ||| 0x80) &&& 0xBF := by
    have masked (wide : Nat) : wide &&& 0xBF = (wide % 256) &&& 0xBF := by
      have byte := Nat.and_two_pow_sub_one_eq_mod wide 8
      calc
        wide &&& 0xBF = wide &&& (0xFF &&& 0xBF) := rfl
        _ = (wide &&& 0xFF) &&& 0xBF := (Nat.and_assoc _ _ _).symm
        _ = (wide % 256) &&& 0xBF := congrArg (· &&& 0xBF) byte
    rw [masked (codepoint ||| 0x80), masked ((codepoint % 256) ||| 0x80)]
    congr 1
    have left := @Nat.or_mod_two_pow codepoint 0x80 8
    have right := @Nat.or_mod_two_pow (codepoint % 256) 0x80 8
    simp only [Nat.reducePow, Nat.mod_mod] at left right
    rw [left, right]
  rw [narrowed, small _ (Nat.mod_lt _ (by decide))]
  omega

private theorem lead_byte : (∀ lead < 32, (lead ||| 0xC0) &&& 0xFF = 192 + lead) ∧
    (∀ lead < 16, (lead ||| 0xE0) &&& 0xFF = 224 + lead) ∧
    ∀ lead < 8, (lead ||| 0xF0) &&& 0xFF = 240 + lead := by
  decide

private theorem encodeUtf8_eq {codepoint : Nat} (valid : codepoint ≤ 0x10FFFF) :
    encodeUtf8 codepoint = some (Json.utf8 codepoint) := by
  obtain ⟨two, three, four⟩ := lead_byte
  unfold encodeUtf8 Json.utf8
  by_cases one : codepoint < 0x80
  · have same : codepoint &&& 0x7F = codepoint := by
      have kept := Nat.and_two_pow_sub_one_eq_mod codepoint 7
      simp only [Nat.reducePow, Nat.reduceSub] at kept
      rw [kept]
      omega
    rw [if_pos one, if_pos one, same]
  · rw [if_neg one, if_neg one]
    by_cases isTwo : codepoint < 0x800
    · rw [if_pos isTwo, if_pos isTwo]
      simp only [encodeUtf8.marked, utf8Continuation, continuation_byte, Nat.shiftRight_eq_div_pow]
      rw [two _ (by omega)]
    · rw [if_neg isTwo, if_neg isTwo]
      by_cases isThree : codepoint < 0x10000
      · rw [if_pos isThree, if_pos isThree]
        simp only [encodeUtf8.marked, utf8Continuation, continuation_byte,
          Nat.shiftRight_eq_div_pow, Nat.div_div_eq_div_mul]
        rw [three _ (by omega)]
      · rw [if_neg isThree, if_neg isThree, if_pos valid]
        simp only [encodeUtf8.marked, utf8Continuation, continuation_byte,
          Nat.shiftRight_eq_div_pow, Nat.div_div_eq_div_mul]
        rw [four _ (by omega)]

private theorem surrogate_codepoint {first second : Nat} (high : 0xD800 ≤ first ∧ first ≤ 0xDBFF)
    (low : 0xDC00 ≤ second ∧ second ≤ 0xDFFF) :
    0x10000 + (((first &&& 0x3FF) <<< 10) ||| (second &&& 0x3FF)) =
      65536 + (first - 55296) * 1024 + (second - 56320) := by
  have ten (wide : Nat) : wide &&& 0x3FF = wide % 1024 :=
    Nat.and_two_pow_sub_one_eq_mod wide 10
  have joined := Nat.two_pow_add_eq_or_of_lt (i := 10) (b := second % 1024)
    (Nat.mod_lt _ (by decide)) (first % 1024)
  rw [ten, ten, Nat.shiftLeft_eq, Nat.mul_comm, ← joined]
  omega

/-! ### Hexadecimal digits -/

private theorem hexDigits_append {count read : Nat} {digits : CText} (more : CText)
    (enough : count ≤ digits.length) :
    Json.hexDigits count read (digits ++ more) = Json.hexDigits count read digits := by
  induction count generalizing read digits with
  | zero => rfl
  | succ count ih =>
      cases digits with
      | nil => contradiction
      | cons byte rest =>
          rw [List.cons_append, Json.hexDigits, Json.hexDigits]
          cases Json.hexDigit byte with
          | none => rfl
          | some digit => exact ih (Nat.le_of_succ_le_succ enough)

private theorem parseHex4Loop_eq {content digits : List UInt8} {left position read : Nat}
    (here : content.drop position = digits) (enough : left ≤ digits.length) :
    parseHex4Loop content left position (if left = 0 then read else 16 * read) =
      .ok ((Json.hexDigits left read digits).getD 0) := by
  induction left generalizing position read digits with
  | zero => rfl
  | succ left ih =>
      cases digits with
      | nil => contradiction
      | cons byte rest =>
          rw [parseHex4Loop, peek_of_drop here, overstep_bind_ok, Json.hexDigits]
          cases Json.hexDigit byte with
          | none => rfl
          | some digit =>
              have next := @ih rest (position + 1) (16 * read + digit) (drop_next here)
                (Nat.le_of_succ_le_succ enough)
              simp only [Nat.succ_ne_zero, if_false, Nat.shiftLeft_eq]
              rw [Nat.mul_comm (16 * read + digit)]
              exact next

private theorem parseHex4_eq {content digits more : List UInt8} {position : Nat}
    (here : content.drop position = digits ++ more) (enough : 4 ≤ digits.length) :
    parseHex4 content position = .ok ((Json.hexFour digits).getD 0) := by
  have loop := @parseHex4Loop_eq content (digits ++ more) 4 position 0 here
    (by rw [List.length_append]; omega)
  unfold Json.hexFour
  rw [← hexDigits_append more enough]
  exact loop

private theorem hexDigits_lt {count read unit : Nat} {digits : CText}
    (done : Json.hexDigits count read digits = some unit) : unit < (read + 1) * 16 ^ count := by
  induction count generalizing read digits with
  | zero =>
      cases done
      omega
  | succ count ih =>
      cases digits with
      | nil => contradiction
      | cons byte rest =>
          rw [Json.hexDigits] at done
          cases isDigit : Json.hexDigit byte with
          | none =>
              rw [isDigit] at done
              contradiction
          | some digit =>
              rw [isDigit] at done
              have below : digit < 16 := by
                unfold Json.hexDigit at isDigit
                have inByte := byte.toNat_lt
                split at isDigit
                · next range =>
                    cases isDigit
                    have top := UInt8.le_iff_toNat_le.mp range.2
                    simp only [UInt8.reduceToNat] at top
                    omega
                · split at isDigit
                  · next range =>
                      cases isDigit
                      have top := UInt8.le_iff_toNat_le.mp range.2
                      simp only [UInt8.reduceToNat] at top
                      omega
                  · split at isDigit
                    · next range =>
                        cases isDigit
                        have top := UInt8.le_iff_toNat_le.mp range.2
                        simp only [UInt8.reduceToNat] at top
                        omega
                    · contradiction
              calc
                unit < (16 * read + digit + 1) * 16 ^ count := ih done
                _ ≤ ((read + 1) * 16) * 16 ^ count := Nat.mul_le_mul_right _ (by omega)
                _ = (read + 1) * 16 ^ (count + 1) := by rw [Nat.mul_assoc, Nat.pow_succ, Nat.mul_comm 16]

private theorem hexFour_lt (digits : CText) : (Json.hexFour digits).getD 0 < 65536 := by
  cases read : Json.hexFour digits with
  | none => decide
  | some unit =>
      have below := hexDigits_lt read
      simpa using below

/-! ### Escapes -/

private theorem hexDigits_short {count read : Nat} {digits : CText} (short : digits.length < count) :
    Json.hexDigits count read digits = none := by
  induction count generalizing read digits with
  | zero => contradiction
  | succ count ih =>
      cases digits with
      | nil => rfl
      | cons byte rest =>
          rw [Json.hexDigits]
          cases Json.hexDigit byte with
          | none => rfl
          | some digit => exact ih (by simpa using short)

private theorem secondHalf_eq {content half behind : List UInt8} {position : Nat}
    (here : content.drop position = half ++ behind) :
    secondHalf content position (position + half.length) =
      .ok (match Json.lowSurrogate half with
        | none => none
        | some low => if 56320 ≤ low ∧ low ≤ 57343 then some low else none) := by
  unfold secondHalf
  match half with
  | [] => rw [if_pos (by simp)]; rfl
  | [_] => rw [if_pos (by simp)]; rfl
  | first :: second :: digits =>
      have next := drop_next here
      have last := drop_next next
      rw [Json.lowSurrogate]
      by_cases short : digits.length < 4
      · rw [if_pos (by simp only [List.length_cons]; omega)]
        unfold Json.hexFour
        rw [hexDigits_short short, ite_self]
      rw [if_neg (by simp only [List.length_cons]; omega), peek_of_drop here, overstep_bind_ok,
        peek_of_drop next, overstep_bind_ok]
      by_cases isEscape : first = Json.backslash ∧ second = Json.letterU
      · have passes : ¬(first ≠ Json.backslash ∨ second ≠ Json.letterU) := by
          rintro (other | other)
          · exact other isEscape.1
          · exact other isEscape.2
        rw [if_neg passes, if_pos isEscape, parseHex4_eq last (by omega), overstep_bind_ok]
        cases Json.hexFour digits with
        | none => rfl
        | some low =>
            simp only [Option.getD_some]
            by_cases inRange : 56320 ≤ low ∧ low ≤ 57343
            · rw [if_neg (by omega), if_pos inRange]
              rfl
            · rw [if_pos (by omega), if_neg inRange]
              rfl
      · rw [if_pos (not_and_or.mp isEscape), if_neg isEscape]
        rfl

private theorem utf16LiteralToUtf8_eq {content more behind : List UInt8} {position : Nat}
    (here : content.drop position = Json.backslash :: Json.letterU :: (more ++ behind)) :
    utf16LiteralToUtf8 content position (position + 2 + more.length) =
      .ok ((Dialect.escape (Json.letterU :: more)).map (fun found => (found.1, found.2 + 1))) := by
  have digits := drop_next (drop_next here)
  unfold utf16LiteralToUtf8
  rw [Dialect.escape, if_pos rfl]
  by_cases short : more.length < 4
  · rw [if_pos short, if_pos (by omega)]
    rfl
  rw [if_neg short, if_neg (by omega), parseHex4_eq digits (by omega), overstep_bind_ok]
  have below := hexFour_lt more
  generalize (Json.hexFour more).getD 0 = unit at below ⊢
  by_cases isLow : 56320 ≤ unit ∧ unit ≤ 57343
  · rw [if_pos isLow, if_pos isLow]
    rfl
  rw [if_neg isLow, if_neg isLow]
  by_cases isHigh : 55296 ≤ unit ∧ unit ≤ 56319
  · rw [if_pos isHigh, if_pos isHigh]
    have half : content.drop (position + 6) = more.drop 4 ++ behind := by
      rw [← List.drop_append_of_le_length (by omega), ← digits, List.drop_drop]
    have second := secondHalf_eq half
    have end_ : position + 6 + (more.drop 4).length = position + 2 + more.length := by
      rw [List.length_drop]
      omega
    rw [end_] at second
    rw [second, overstep_bind_ok]
    cases Json.lowSurrogate (more.drop 4) with
    | none => rfl
    | some low =>
        by_cases inRange : 56320 ≤ low ∧ low ≤ 57343
        · simp only [if_pos inRange]
          rw [surrogate_codepoint isHigh inRange, encodeUtf8_eq (by omega)]
          generalize Json.utf8 _ = bytes
          rfl
        · simp only [if_neg inRange]
          rfl
  · rw [if_neg isHigh, if_neg isHigh, encodeUtf8_eq (by omega)]
    rfl

/-! ### The room of the output -/

/-- The bytes of a literal that the first pass counts in full, from a place where
it is in the middle of an escape or not. -/
def counted : Bool → CText → Nat
  | _, [] => 0
  | true, _ :: rest => counted false rest + 1
  | false, byte :: rest =>
      if byte = Json.backslash then counted true rest else counted false rest + 1

private theorem counted_cons_other {byte : UInt8} (other : byte ≠ Json.backslash) (mid : Bool)
    (rest : CText) : counted mid (byte :: rest) = counted false rest + 1 := by
  cases mid with
  | true => rfl
  | false => rw [counted, if_neg other]

private theorem counted_tail (mid : Bool) (byte : UInt8) (rest : CText) :
    ∃ later, counted later rest ≤ counted mid (byte :: rest) := by
  cases mid with
  | true => exact ⟨false, Nat.le_succ _⟩
  | false =>
      by_cases isBackslash : byte = Json.backslash
      · exact ⟨true, by rw [counted, if_pos isBackslash]⟩
      · exact ⟨false, by rw [counted, if_neg isBackslash]; exact Nat.le_succ _⟩

private theorem counted_drop (mid : Bool) (count : Nat) (rest : CText) :
    ∃ later, counted later (rest.drop count) ≤ counted mid rest := by
  induction count generalizing mid rest with
  | zero => exact ⟨mid, le_refl _⟩
  | succ count ih =>
      cases rest with
      | nil => exact ⟨mid, le_refl _⟩
      | cons byte more =>
          obtain ⟨next, less⟩ := counted_tail mid byte more
          obtain ⟨later, lessYet⟩ := ih next more
          exact ⟨later, lessYet.trans less⟩

private theorem counted_pair (mid : Bool) (first second : UInt8) (rest : CText) :
    ∃ later, 1 + counted later rest ≤ counted mid (first :: second :: rest) := by
  cases mid with
  | true =>
      obtain ⟨later, less⟩ := counted_tail false second rest
      exact ⟨later, by rw [counted]; omega⟩
  | false =>
      by_cases isBackslash : first = Json.backslash
      · exact ⟨false, by rw [counted, if_pos isBackslash, counted]; omega⟩
      · obtain ⟨later, less⟩ := counted_tail false second rest
        exact ⟨later, by rw [counted, if_neg isBackslash]; omega⟩

private theorem counted_hexDigits {count read unit : Nat} {digits : CText}
    (done : Json.hexDigits count read digits = some unit) :
    counted false digits = count + counted false (digits.drop count) := by
  induction count generalizing read digits with
  | zero => rw [Nat.zero_add, List.drop_zero]
  | succ count ih =>
      cases digits with
      | nil => contradiction
      | cons byte rest =>
          rw [Json.hexDigits] at done
          by_cases isBackslash : byte = Json.backslash
          · subst isBackslash
            contradiction
          · cases digit : Json.hexDigit byte with
            | none =>
                rw [digit] at done
                contradiction
            | some value =>
                rw [digit] at done
                rw [counted, if_neg isBackslash, ih done, List.drop_succ_cons]
                omega

private theorem counted_unicode {unit : Nat} {more : CText} (mid : Bool)
    (read : Json.hexFour more = some unit) :
    5 + counted false (more.drop 4) ≤
      counted mid (Json.backslash :: Json.letterU :: more) := by
  have digits := counted_hexDigits read
  cases mid with
  | true =>
      rw [counted, counted_cons_other (by decide)]
      omega
  | false =>
      rw [counted, if_pos rfl, counted]
      omega

private theorem lowSurrogate_length {half : CText} {low : Nat}
    (read : Json.lowSurrogate half = some low) : 6 ≤ half.length := by
  match half with
  | [] => contradiction
  | [_] => contradiction
  | first :: second :: digits =>
      by_contra short
      have few : digits.length < 4 := by
        simp only [List.length_cons] at short
        omega
      rw [Json.lowSurrogate] at read
      unfold Json.hexFour at read
      rw [hexDigits_short few, ite_self] at read
      contradiction

/-- What an escape stands for is no longer than what the first pass counts of its
bytes, from wherever it started to count. -/
theorem escape_counted {letter : UInt8} {more bytes : CText} {length : Nat}
    (read : Dialect.escape (letter :: more) = some (bytes, length)) (mid : Bool) :
    1 ≤ length ∧ length ≤ more.length + 1 ∧
      ∃ later, bytes.length + counted later ((letter :: more).drop length) ≤
        counted mid (Json.backslash :: letter :: more) := by
  rw [Dialect.escape] at read
  by_cases isU : letter = Json.letterU
  · subst isU
    rw [if_pos rfl] at read
    by_cases short : more.length < 4
    · rw [if_pos short] at read
      contradiction
    rw [if_neg short] at read
    cases digits : Json.hexFour more with
    | none =>
        rw [digits] at read
        cases read
        obtain ⟨next, pair⟩ := counted_pair mid Json.backslash Json.letterU more
        obtain ⟨later, less⟩ := counted_drop next 4 more
        refine ⟨by omega, by omega, later, ?_⟩
        rw [List.drop_succ_cons]
        exact (Nat.add_le_add_left less 1).trans pair
    | some unit =>
        have five := counted_unicode mid digits
        simp only [digits, Option.getD_some] at read
        by_cases isLow : 56320 ≤ unit ∧ unit ≤ 57343
        · rw [if_pos isLow] at read
          contradiction
        rw [if_neg isLow] at read
        by_cases isHigh : 55296 ≤ unit ∧ unit ≤ 56319
        · rw [if_pos isHigh] at read
          cases half : Json.lowSurrogate (more.drop 4) with
          | none =>
              rw [half] at read
              contradiction
          | some low =>
              have six := lowSurrogate_length half
              rw [List.length_drop] at six
              simp only [half] at read
              by_cases inRange : 56320 ≤ low ∧ low ≤ 57343
              · rw [if_pos inRange] at read
                obtain ⟨isBytes, isLength⟩ := Prod.mk.inj (Option.some.inj read)
                have four := Json.utf8_length_le (65536 + (unit - 55296) * 1024 + (low - 56320))
                rw [isBytes] at four
                obtain ⟨later, less⟩ := counted_drop false 6 (more.drop 4)
                simp only [List.drop_drop, Nat.reduceAdd] at less
                subst isLength
                refine ⟨by omega, by omega, later, ?_⟩
                rw [List.drop_succ_cons]
                omega
              · rw [if_neg inRange] at read
                contradiction
        · rw [if_neg isHigh] at read
          obtain ⟨isBytes, isLength⟩ := Prod.mk.inj (Option.some.inj read)
          have four := Json.utf8_length_le unit
          rw [isBytes] at four
          subst isLength
          refine ⟨by omega, by omega, false, ?_⟩
          rw [List.drop_succ_cons]
          omega
  · rw [if_neg isU] at read
    cases short : Json.shortEscape letter with
    | none =>
        rw [short] at read
        contradiction
    | some value =>
        rw [short] at read
        cases read
        obtain ⟨later, pair⟩ := counted_pair mid Json.backslash letter more
        exact ⟨le_refl 1, by omega, later, pair⟩

theorem decode_skip (skip : Nat) (rest : CText) :
    Dialect.decode skip rest = Dialect.decode 0 (rest.drop skip) := by
  induction skip generalizing rest with
  | zero => rfl
  | succ skip ih =>
      cases rest with
      | nil => rfl
      | cons byte more => exact ih more

/-! ### The literal -/

@[simp] theorem literal_quote (rest : CText) :
    Dialect.literal (Json.quote :: rest) = some ([], rest) := by
  cases rest <;> rfl

@[simp] theorem literal_escape (escaped : UInt8) (more : CText) :
    Dialect.literal (Json.backslash :: escaped :: more) = (Dialect.literal more).map
      (fun found => (Json.backslash :: escaped :: found.1, found.2)) :=
  rfl

theorem literal_other {byte : UInt8} (notQuote : byte ≠ Json.quote)
    (notBackslash : byte ≠ Json.backslash) (rest : CText) :
    Dialect.literal (byte :: rest) =
      (Dialect.literal rest).map (fun found => (byte :: found.1, found.2)) := by
  rw [Dialect.literal.eq_def]
  simp only [if_neg notQuote, if_neg notBackslash]

theorem literal_eq_some {input inner behind : CText}
    (found : Dialect.literal input = some (inner, behind)) :
    input = inner ++ Json.quote :: behind := by
  induction input using Dialect.literal.induct generalizing inner with
  | case1 => contradiction
  | case2 rest =>
      rw [literal_quote] at found
      cases found
      rfl
  | case3 => contradiction
  | case4 escaped more _ ih =>
      obtain ⟨⟨tail, left⟩, tailFound, pair⟩ := Option.map_eq_some_iff.mp found
      cases pair
      rw [ih tailFound]
      rfl
  | case5 byte rest notQuote notBackslash ih =>
      rw [literal_other notQuote notBackslash] at found
      obtain ⟨⟨tail, left⟩, tailFound, pair⟩ := Option.map_eq_some_iff.mp found
      cases pair
      rw [ih tailFound]
      rfl

private theorem counted_le_length (mid : Bool) (rest : CText) : counted mid rest ≤ rest.length := by
  induction rest generalizing mid with
  | nil => exact Nat.le_refl 0
  | cons byte more ih =>
      have less := ih false
      cases mid with
      | true => exact Nat.succ_le_succ less
      | false =>
          rw [counted, List.length_cons]
          by_cases isBackslash : byte = Json.backslash
          · rw [if_pos isBackslash]
            exact (ih true).trans (Nat.le_succ _)
          · rw [if_neg isBackslash]
            exact Nat.succ_le_succ less

private theorem closingQuote_eq (input : CText) :
    closingQuote (input ++ [0]) = (Dialect.literal input).map
      (fun found => (found.1.length, found.1.length - counted false found.1)) := by
  induction input using Dialect.literal.induct with
  | case1 => rfl
  | case2 rest =>
      rw [literal_quote, List.cons_append, closingQuote.eq_def]
      rfl
  | case3 => rfl
  | case4 escaped more _ ih =>
      rw [literal_escape, List.cons_append, List.cons_append, closingQuote.eq_def]
      simp only [ih, Option.map_map, if_neg (show Json.backslash ≠ Json.quote by decide), if_true]
      congr 1
      funext found
      have within := counted_le_length false found.1
      have inside : counted false (Json.backslash :: escaped :: found.1) =
          counted false found.1 + 1 := rfl
      simp only [Function.comp_apply, List.length_cons, inside, Prod.mk.injEq, true_and]
      omega
  | case5 byte rest notQuote notBackslash ih =>
      rw [literal_other notQuote notBackslash, List.cons_append, closingQuote.eq_def]
      simp only [ih, Option.map_map, if_neg notQuote, if_neg notBackslash]
      congr 1
      funext found
      have within := counted_le_length false found.1
      simp only [Function.comp_apply, List.length_cons, counted_cons_other notBackslash,
        Prod.mk.injEq, true_and]
      omega

/-! ### The second pass -/

private theorem push_eq {capacity : Nat} {output bytes : CText}
    (room : output.length + bytes.length ≤ capacity) :
    push capacity output bytes = .ok (output ++ bytes) := by
  unfold push
  rw [if_pos room]

private theorem unescape_eq {content behind : List UInt8} {space fuel position : Nat} {rest output : CText}
    (here : content.drop position = rest ++ Json.quote :: behind) (enough : rest.length < fuel)
    (mid : Bool) (room : output.length + counted mid rest ≤ space) :
    ∃ last, unescape content (position + rest.length) (space + 2) fuel position output =
        .ok ((Dialect.decode 0 rest).map (output ++ ·), last) ∧
      ∀ value, Dialect.decode 0 rest = some value → (output ++ value).length ≤ space + 1 := by
  induction fuel generalizing position rest output mid with
  | zero => contradiction
  | succ fuel ih =>
      rw [unescape]
      cases rest with
      | nil =>
          rw [List.length_nil, Nat.add_zero, if_neg (Nat.lt_irrefl _)]
          refine ⟨position, by simp [Dialect.decode], ?_⟩
          intro value isValue
          cases isValue
          rw [List.append_nil]
          omega
      | cons byte more =>
          have next := drop_next here
          rw [if_pos (by simp), peek_of_drop here, overstep_bind_ok]
          have oneMore : position + (byte :: more).length = position + 1 + more.length := by
            simp only [List.length_cons]
            omega
          simp only [List.length_cons] at enough
          by_cases isBackslash : byte = Json.backslash
          · subst isBackslash
            rw [if_neg (fun other => other rfl)]
            cases more with
            | nil =>
                have pushed : push (space + 2) output [Json.quote] = .ok (output ++ [Json.quote]) := by
                  apply push_eq
                  simp only [List.length_cons, List.length_nil]
                  omega
                obtain ⟨fuel, rfl⟩ : ∃ less, fuel = less + 1 := ⟨fuel - 1, by
                  simp only [List.length_nil] at enough
                  omega⟩
                refine ⟨position + 2, ?_, ?_⟩
                · rw [peek_of_drop next, overstep_bind_ok, if_neg (by decide)]
                  have quoted : Json.shortEscape Json.quote = some Json.quote := by decide
                  simp only [quoted, pushed, overstep_bind_ok]
                  rw [unescape, if_neg (by simp)]
                  rfl
                · intro value isValue
                  cases isValue
                  simp only [List.length_append, List.length_cons, List.length_nil]
                  omega
            | cons letter tail =>
                have afterLetter := drop_next next
                rw [peek_of_drop next, overstep_bind_ok, Dialect.decode, if_pos rfl]
                cases escaped : Dialect.escape (letter :: tail) with
                | none =>
                    refine ⟨position, ?_, nofun⟩
                    by_cases isU : letter = Json.letterU
                    · subst isU
                      have literal := utf16LiteralToUtf8_eq here
                      have end_ : position + (Json.backslash :: Json.letterU :: tail).length =
                          position + 2 + tail.length := by
                        simp only [List.length_cons]
                        omega
                      rw [if_pos rfl, end_, literal, escaped]
                      rfl
                    · rw [Dialect.escape, if_neg isU] at escaped
                      rw [if_neg isU, Option.map_eq_none_iff.mp escaped]
                      rfl
                | some found =>
                    obtain ⟨bytes, length⟩ := found
                    obtain ⟨atLeast, within, later, less⟩ := escape_counted escaped mid
                    have pushed : push (space + 2) output bytes = .ok (output ++ bytes) := by
                      apply push_eq
                      omega
                    have atRest : content.drop (position + (length + 1)) =
                        (letter :: tail).drop length ++ Json.quote :: behind := by
                      rw [← List.drop_append_of_le_length (by simpa using within),
                        Nat.add_comm length 1, ← Nat.add_assoc, ← List.drop_drop, next]
                      rfl
                    have left : ((letter :: tail).drop length).length = tail.length + 1 - length := by
                      rw [List.length_drop, List.length_cons]
                    simp only [List.length_cons] at enough
                    obtain ⟨last, done, bounded⟩ := ih atRest (by omega) later
                      (show (output ++ bytes).length + _ ≤ space by
                        rw [List.length_append]
                        omega)
                    have end_ : position + (length + 1) + ((letter :: tail).drop length).length =
                        position + (Json.backslash :: letter :: tail).length := by
                      rw [left]
                      simp only [List.length_cons]
                      omega
                    rw [end_] at done
                    simp only [decode_skip length]
                    refine ⟨last, ?_, ?_⟩
                    · have together : (Dialect.decode 0 ((letter :: tail).drop length)).map
                          (output ++ bytes ++ ·) =
                          ((Dialect.decode 0 ((letter :: tail).drop length)).map (bytes ++ ·)).map
                            (output ++ ·) := by
                        rw [Option.map_map]
                        congr 1
                        funext value
                        exact List.append_assoc output bytes value
                      rw [together] at done
                      by_cases isU : letter = Json.letterU
                      · subst isU
                        have literal := utf16LiteralToUtf8_eq here
                        have litEnd : position + (Json.backslash :: Json.letterU :: tail).length =
                            position + 2 + tail.length := by
                          simp only [List.length_cons]
                          omega
                        rw [litEnd] at done ⊢
                        rw [if_pos rfl, literal, escaped, Option.map_some, overstep_bind_ok]
                        simp only [pushed, overstep_bind_ok]
                        exact done
                      · rw [Dialect.escape, if_neg isU] at escaped
                        obtain ⟨decoded, short, pair⟩ := Option.map_eq_some_iff.mp escaped
                        cases pair
                        rw [if_neg isU]
                        simp only [short, pushed, overstep_bind_ok]
                        exact done
                    · intro value isValue
                      obtain ⟨tailValue, tailDecoded, rfl⟩ := Option.map_eq_some_iff.mp isValue
                      rw [← List.append_assoc]
                      exact bounded tailValue tailDecoded
          · have pushed : push (space + 2) output [byte] = .ok (output ++ [byte]) := by
              rw [counted_cons_other isBackslash] at room
              apply push_eq
              simp only [List.length_cons, List.length_nil]
              omega
            rw [counted_cons_other isBackslash] at room
            obtain ⟨last, done, bounded⟩ := ih next (by omega) false
              (show (output ++ [byte]).length + _ ≤ space by
                simp only [List.length_append, List.length_cons, List.length_nil]
                omega)
            refine ⟨last, ?_, ?_⟩
            · rw [if_pos isBackslash, pushed, overstep_bind_ok, oneMore, done, Dialect.decode,
                if_neg isBackslash, Option.map_map]
              congr 3
              funext value
              simp
            · intro value isValue
              rw [Dialect.decode, if_neg isBackslash] at isValue
              obtain ⟨tailValue, tailDecoded, rfl⟩ := Option.map_eq_some_iff.mp isValue
              have short := bounded tailValue tailDecoded
              simpa using short

/-- `parse_string` at an opening quote reads what the literal stands for. -/
theorem parseString_eq {buffer : ParseBuffer} {input : CText}
    (here : buffer.content.drop buffer.offset = Json.quote :: (input ++ [0])) :
    match Dialect.scanString input with
    | none => ∃ failed, parseString buffer = .ok (none, failed)
    | some (value, behind) =>
        ∃ offset, parseString buffer = .ok (some value, { buffer with offset := offset }) ∧
          buffer.content.drop offset = behind ++ [0] := by
  have next := drop_next here
  unfold parseString Dialect.scanString
  rw [peek_of_drop here, overstep_bind_ok, if_neg (fun other => other rfl), next, closingQuote_eq]
  cases found : Dialect.literal input with
  | none => exact ⟨_, rfl⟩
  | some pair =>
      obtain ⟨inner, behind⟩ := pair
      have split := literal_eq_some found
      have within := counted_le_length false inner
      have atInner : buffer.content.drop (buffer.offset + 1) =
          inner ++ Json.quote :: (behind ++ [0]) := by
        rw [next, split, List.append_assoc]
        rfl
      have capacity : buffer.offset + 1 + inner.length - buffer.offset -
          (inner.length - counted false inner) + 1 = counted false inner + 2 := by
        omega
      obtain ⟨last, done, bounded⟩ := @unescape_eq _ _ (counted false inner) _ _ _ []
        atInner (Nat.lt_succ_self _) false (by simp)
      simp only [Option.map_some, capacity, done, overstep_bind_ok]
      cases decoded : Dialect.decode 0 inner with
      | none => exact ⟨_, rfl⟩
      | some value =>
          have short := bounded value decoded
          rw [List.nil_append] at short
          have pushed : push (counted false inner + 2) value [0] = .ok (value ++ [0]) := by
            apply push_eq
            simp only [List.length_cons, List.length_nil]
            omega
          refine ⟨buffer.offset + 1 + inner.length + 1, ?_, ?_⟩
          · simp only [Option.map_some, List.nil_append, pushed, overstep_bind_ok]
            rfl
          · exact drop_next (drop_append atInner)

end DlcServer
