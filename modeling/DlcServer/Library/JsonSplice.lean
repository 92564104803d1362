/-
JSON texts put together with `printf`.

`splice` writes a document with its strings between quotes as they are.  What it
wrote is read back exactly when none of its strings needs an escape.  The reason
is in the lengths: an escape stands for fewer bytes than it is written with, and
a string that runs over its closing quote ends in a byte its value does not end in.
-/

import DlcServer.Library.Json

namespace Library

namespace Json

/-! ### Plain strings -/

/-- No byte that a JSON string must escape. -/
def Plain (value : CText) : Prop :=
  ∀ byte ∈ value, byte ≠ quote ∧ byte ≠ backslash ∧ ¬byte < 32

instance (value : CText) : Decidable (Plain value) :=
  -- along the list, and not over all the bytes there are
  List.decidableBAll _ value

theorem plain_append {first second : CText} :
    Plain (first ++ second) ↔ Plain first ∧ Plain second :=
  List.forall_mem_append

theorem plain_cons {byte : UInt8} {rest : CText} :
    Plain (byte :: rest) ↔ (byte ≠ quote ∧ byte ≠ backslash ∧ ¬byte < 32) ∧ Plain rest :=
  List.forall_mem_cons

theorem scanString_plain {value : CText} (plain : Plain value) (rest : CText) :
    scanString 0 (value ++ quote :: rest) = some (value, rest) := by
  induction value with
  | nil => rfl
  | cons byte more ih =>
      obtain ⟨⟨notQuote, notBackslash, printable⟩, morePlain⟩ := plain_cons.mp plain
      rw [List.cons_append, scanString, if_neg notQuote, if_neg notBackslash,
        if_neg printable, ih morePlain]
      rfl

/-- Text that cannot be taken into the string it follows: it has no escape
before its next quote, and something plain before it, unless there is no quote
at all. -/
def Separates (rest : CText) : Prop :=
  ∃ plain more, rest = plain ++ more ∧ Plain plain ∧
    (more = [] ∨ plain ≠ [] ∧ ∃ behind, more = quote :: behind)

theorem scanString_plain_end {value : CText} (plain : Plain value) :
    scanString 0 value = none := by
  induction value with
  | nil => rfl
  | cons byte more ih =>
      obtain ⟨⟨notQuote, notBackslash, printable⟩, morePlain⟩ := plain_cons.mp plain
      rw [scanString, if_neg notQuote, if_neg notBackslash, if_neg printable, ih morePlain]
      rfl

/-- A string read from text that separates ends in a byte that is no backslash. -/
theorem scanString_separates {rest value left : CText} (separates : Separates rest)
    (scanned : scanString 0 rest = some (value, left)) :
    ∃ last ∈ value.getLast?, last ≠ backslash := by
  obtain ⟨plain, more, split, isPlain, ended | ⟨nonempty, behind, quoted⟩⟩ := separates
  · rw [split, ended, List.append_nil, scanString_plain_end isPlain] at scanned
    contradiction
  · rw [split, quoted, scanString_plain isPlain] at scanned
    have same := (Prod.mk.inj (Option.some.inj scanned)).1
    subst same
    exact ⟨plain.getLast nonempty, List.getLast?_eq_some_getLast nonempty,
      (isPlain _ (List.getLast_mem nonempty)).2.1⟩

theorem hexDigits_before_quote {count read unit : Nat} {value rest : CText}
    (done : hexDigits count read (value ++ quote :: rest) = some unit) :
    count ≤ value.length := by
  induction value generalizing count read with
  | nil =>
      cases count with
      | zero => exact le_refl 0
      | succ count => contradiction
  | cons byte more ih =>
      cases count with
      | zero => exact Nat.zero_le _
      | succ count =>
          rw [List.cons_append, hexDigits] at done
          cases digit : hexDigit byte with
          | none =>
              rw [digit] at done
              contradiction
          | some value =>
              rw [digit] at done
              exact Nat.succ_le_succ (ih done)

theorem utf8_length_le (point : Nat) : (utf8 point).length ≤ 4 := by
  unfold utf8
  split
  · simp
  split
  · simp
  split <;> simp

theorem lowSurrogate_before_quote {value rest : CText} {unit : Nat}
    (read : lowSurrogate (value ++ quote :: rest) = some unit) : 6 ≤ value.length := by
  match value with
  | [] =>
      cases rest <;> contradiction
  | [byte] =>
      have notU : ¬(byte = backslash ∧ quote = letterU) := by
        intro both
        exact absurd both.2 (by decide)
      simp only [List.cons_append, List.nil_append, lowSurrogate, if_neg notU] at read
      contradiction
  | byte :: next :: more =>
      by_cases isEscape : byte = backslash ∧ next = letterU
      · simp only [List.cons_append, lowSurrogate, if_pos isEscape] at read
        have four : 4 ≤ more.length := hexDigits_before_quote read
        simp only [List.length_cons]
        omega
      · simp only [List.cons_append, lowSurrogate, if_neg isEscape] at read
        contradiction

/-- An escape stands for no more bytes than it takes, and takes the quote behind
a string only when that string ends in its backslash. -/
theorem escape_before_quote {value rest decoded : CText} {length : Nat}
    (read : escape (value ++ quote :: rest) = some (decoded, length)) :
    decoded.length ≤ length ∧ (length ≤ value.length ∨ value = [] ∧ length = 1) := by
  cases value with
  | nil =>
      have short : escape ([] ++ quote :: rest) = some ([quote], 1) := rfl
      rw [short] at read
      have pair := Prod.mk.inj (Option.some.inj read)
      rw [← pair.1, ← pair.2]
      exact ⟨le_refl 1, .inr ⟨rfl, rfl⟩⟩
  | cons byte more =>
      rw [List.cons_append, escape] at read
      by_cases isU : byte = letterU
      · rw [if_pos isU] at read
        cases unitRead : hexFour (more ++ quote :: rest) with
        | none =>
            rw [unitRead] at read
            contradiction
        | some unit =>
            have four : 4 ≤ more.length := hexDigits_before_quote unitRead
            rw [unitRead] at read
            by_cases single : unit < 55296 ∨ 57344 ≤ unit
            · simp only [if_pos single, Option.some.injEq, Prod.mk.injEq] at read
              have short := utf8_length_le unit
              rw [← read.1, ← read.2, List.length_cons]
              omega
            · simp only [if_neg single] at read
              rw [List.drop_append_of_le_length four] at read
              cases lowRead : lowSurrogate (more.drop 4 ++ quote :: rest) with
              | none =>
                  rw [lowRead] at read
                  contradiction
              | some low =>
                  rw [lowRead] at read
                  have six := lowSurrogate_before_quote lowRead
                  rw [List.length_drop] at six
                  by_cases pair : unit < 56320 ∧ 56320 ≤ low ∧ low < 57344
                  · simp only [if_pos pair, Option.some.injEq, Prod.mk.injEq] at read
                    have short := utf8_length_le (65536 + (unit - 55296) * 1024 + (low - 56320))
                    rw [← read.1, ← read.2, List.length_cons]
                    omega
                  · simp only [if_neg pair] at read
                    contradiction
      · rw [if_neg isU] at read
        cases short : shortEscape byte with
        | none =>
            rw [short] at read
            contradiction
        | some letter =>
            rw [short] at read
            have pair := Prod.mk.inj (Option.some.inj read)
            rw [← pair.1, ← pair.2, List.length_cons]
            simp only [List.length_cons, List.length_nil]
            omega

theorem getLast?_cons_of_mem {byte last : UInt8} {more : CText}
    (ends : last ∈ more.getLast?) : last ∈ (byte :: more).getLast? := by
  rw [Option.mem_def] at ends ⊢
  rw [List.getLast?_cons, ends]
  rfl

theorem getLast?_append_of_mem {last : UInt8} {first more : CText}
    (ends : last ∈ more.getLast?) : last ∈ (first ++ more).getLast? := by
  rw [Option.mem_def] at ends ⊢
  rw [List.getLast?_append, ends]
  rfl

/-- What a scan of `value` from behind its first `skip` bytes comes to: the
whole of it, when it is plain; less than that; or, over the closing quote, a
string that ends otherwise than `value` does. -/
theorem scanString_cases {value rest read left : CText} {skip : Nat}
    (separates : Separates rest) (within : skip ≤ value.length + 1)
    (scanned : scanString skip (value ++ quote :: rest) = some (read, left)) :
    (skip ≤ value.length ∧ Plain (value.drop skip) ∧ read = value.drop skip ∧ left = rest) ∨
      read.length + skip < value.length ∨
      (∃ last ∈ read.getLast?, last ≠ backslash) ∧
        (backslash ∈ value.getLast? ∨ skip = value.length + 1) := by
  induction value generalizing skip read with
  | nil =>
      cases skip with
      | zero =>
          have none_ : scanString 0 ([] ++ quote :: rest) = some ([], rest) := rfl
          rw [none_] at scanned
          have pair := Prod.mk.inj (Option.some.inj scanned)
          exact .inl ⟨le_refl 0, by simp [Plain], pair.1.symm, pair.2.symm⟩
      | succ skip =>
          have isOne : skip = 0 := by
            simp only [List.length_nil] at within
            omega
          subst isOne
          exact .inr (.inr ⟨scanString_separates separates scanned, .inr rfl⟩)
  | cons byte more ih =>
      cases skip with
      | succ skip =>
          simp only [List.length_cons] at within ⊢
          rcases ih (by omega) scanned with ⟨inside, plain, isRead, isLeft⟩ | shorter |
            ⟨ends, behind⟩
          · exact .inl ⟨by omega, plain, isRead, isLeft⟩
          · exact .inr (.inl (by omega))
          · exact .inr (.inr ⟨ends, behind.imp getLast?_cons_of_mem (by omega)⟩)
      | zero =>
          rw [List.cons_append, scanString] at scanned
          simp only [List.length_cons]
          by_cases isQuote : byte = quote
          · rw [if_pos isQuote] at scanned
            have isRead := (Prod.mk.inj (Option.some.inj scanned)).1
            subst isRead
            exact .inr (.inl (by simp))
          rw [if_neg isQuote] at scanned
          by_cases isBackslash : byte = backslash
          · rw [if_pos isBackslash] at scanned
            cases escaped : escape (more ++ quote :: rest) with
            | none =>
                rw [escaped] at scanned
                contradiction
            | some found =>
                obtain ⟨decoded, length⟩ := found
                rw [escaped] at scanned
                obtain ⟨⟨tail, behind⟩, tailRead, pair⟩ := Option.map_eq_some_iff.mp scanned
                cases pair
                obtain ⟨short, reach⟩ := escape_before_quote escaped
                have lengthLe : length ≤ more.length + 1 := by
                  rcases reach with inside | ⟨_, isOne⟩ <;> omega
                simp only [List.length_append]
                rcases ih lengthLe tailRead with ⟨inside, _, isTail, _⟩ | shorter | ⟨ends, over_⟩
                · have tailLength := congrArg List.length isTail
                  rw [List.length_drop] at tailLength
                  exact .inr (.inl (by omega))
                · exact .inr (.inl (by omega))
                · obtain ⟨last, isLast, notBackslash⟩ := ends
                  refine .inr (.inr ⟨⟨last, getLast?_append_of_mem isLast, notBackslash⟩, .inl ?_⟩)
                  rcases over_ with inside | isOver
                  · exact getLast?_cons_of_mem inside
                  · have isNil : more = [] := by
                      rcases reach with inside | ⟨empty, _⟩
                      · omega
                      · exact empty
                    subst isNil
                    rw [isBackslash]
                    rfl
          rw [if_neg isBackslash] at scanned
          by_cases isControl : byte < 32
          · rw [if_pos isControl] at scanned
            contradiction
          rw [if_neg isControl] at scanned
          obtain ⟨⟨tail, behind⟩, tailRead, pair⟩ := Option.map_eq_some_iff.mp scanned
          cases pair
          rcases ih (Nat.zero_le _) tailRead with ⟨_, plain, isTail, atRest⟩ | shorter | ⟨ends, over_⟩
          · have tailIs : tail = more := isTail
            refine .inl ⟨by omega, plain_cons.mpr ⟨⟨isQuote, isBackslash, isControl⟩, plain⟩, ?_, ?_⟩
            · rw [tailIs]
              rfl
            · exact atRest
          · simp only [List.length_cons]
            exact .inr (.inl (by omega))
          · obtain ⟨last, isLast, notBackslash⟩ := ends
            exact .inr (.inr ⟨⟨last, getLast?_cons_of_mem isLast, notBackslash⟩,
              .inl (getLast?_cons_of_mem (over_.resolve_right (by omega)))⟩)

/-- A string between quotes is read back as it is exactly when it is plain. -/
theorem scanString_eq_self_iff {value rest left : CText} (separates : Separates rest) :
    scanString 0 (value ++ quote :: rest) = some (value, left) ↔ Plain value ∧ left = rest := by
  constructor
  · intro scanned
    rcases scanString_cases separates (by omega) scanned with ⟨_, plain, _, isLeft⟩ | shorter |
      ⟨⟨last, isLast, notBackslash⟩, ends | over_⟩
    · exact ⟨plain, isLeft⟩
    · omega
    · exact absurd (Option.mem_unique isLast ends) notBackslash
    · omega
  · rintro ⟨plain, rfl⟩
    exact scanString_plain plain left

/-! ### Decimal numbers -/

/-- The lexeme of an integer, as `%d` prints it. -/
def decimal (value : Int) : CText :=
  text (toString value)

def digitByte (digit : Nat) : UInt8 :=
  UInt8.ofNat (Nat.digitChar digit).toNat

theorem isDigit_digitByte : ∀ digit < 10, isDigit (digitByte digit) = true := by
  decide

theorem digitByte_eq_zero : ∀ digit < 10, digitByte digit = 48 → digit = 0 := by
  decide

theorem text_natural (value : Nat) :
    text (toString value) = (Nat.toDigits 10 value).map (fun digit => UInt8.ofNat digit.toNat) := by
  unfold text
  rw [Nat.toString_eq_ofList_toDigits, String.toList_ofList]

theorem text_natural_small {value : Nat} (small : value < 10) :
    text (toString value) = [digitByte value] := by
  rw [text_natural, Nat.toDigits_of_lt_base small]
  rfl

theorem text_natural_large {value : Nat} (large : 10 ≤ value) :
    text (toString value) = text (toString (value / 10)) ++ [digitByte (value % 10)] := by
  rw [text_natural, text_natural, Nat.toDigits_of_base_le (by omega) large, List.map_append]
  rfl

/-- Digits, without a leading zero unless it is the only one. -/
structure Whole (digits : CText) : Prop where
  nonempty : digits ≠ []
  all : ∀ byte ∈ digits, isDigit byte = true
  noLeadingZero : digits.head? = some 48 → digits = [48]

theorem text_natural_ne_nil (value : Nat) : text (toString value) ≠ [] := by
  rw [text_natural]
  simp

theorem text_natural_digits (value : Nat) :
    ∀ byte ∈ text (toString value), isDigit byte = true := by
  induction value using Nat.strong_induction_on with
  | _ value ih =>
      intro byte member
      by_cases small : value < 10
      · rw [text_natural_small small, List.mem_singleton] at member
        rw [member]
        exact isDigit_digitByte value small
      · rw [text_natural_large (by omega), List.mem_append, List.mem_singleton] at member
        rcases member with front | last
        · exact ih (value / 10) (by omega) byte front
        · rw [last]
          exact isDigit_digitByte (value % 10) (by omega)

theorem text_natural_head (value : Nat) (zero : (text (toString value)).head? = some 48) :
    value = 0 := by
  induction value using Nat.strong_induction_on with
  | _ value ih =>
      by_cases small : value < 10
      · rw [text_natural_small small, List.head?_cons, Option.some.injEq] at zero
        exact digitByte_eq_zero value small zero
      · rw [text_natural_large (by omega),
          List.head?_append, List.head?_eq_some_head (text_natural_ne_nil _)] at zero
        have front := ih (value / 10) (by omega)
          (List.head?_eq_some_head (text_natural_ne_nil _) ▸ zero)
        omega

theorem whole_natural (value : Nat) : Whole (text (toString value)) where
  nonempty := text_natural_ne_nil value
  all := text_natural_digits value
  noLeadingZero := by
    intro zero
    rw [text_natural_head value zero]
    rfl

theorem decimal_cases (value : Int) :
    ∃ digits, Whole digits ∧ (decimal value = digits ∨ decimal value = minus :: digits) := by
  unfold decimal
  rw [Int.toString_eq_repr, Int.repr_eq_if]
  by_cases natural : 0 ≤ value
  · rw [if_pos natural]
    exact ⟨_, whole_natural value.toNat, .inl rfl⟩
  · rw [if_neg natural]
    refine ⟨_, whole_natural (-value).toNat, .inr ?_⟩
    unfold text
    rw [String.toList_append, List.map_append]
    rfl

def EndsNumber (rest : CText) : Prop :=
  ∀ first ∈ rest.head?, first = comma ∨ first = closeBracket ∨ first = closeBrace

theorem scanDigits_append {digits rest : CText} (nonempty : digits ≠ [])
    (all : ∀ byte ∈ digits, isDigit byte = true)
    (ends : ∀ first ∈ rest.head?, isDigit first = false) :
    scanDigits (digits ++ rest) = some (digits, rest) := by
  have none_ : rest.takeWhile isDigit = [] ∧ rest.dropWhile isDigit = rest := by
    cases rest with
    | nil => exact ⟨rfl, rfl⟩
    | cons first more =>
        have notDigit := ends first rfl
        simp [notDigit]
  have front : (digits ++ rest).takeWhile isDigit = digits := by
    rw [List.takeWhile_append_of_pos all, none_.1, List.append_nil]
  have back : (digits ++ rest).dropWhile isDigit = rest := by
    rw [List.dropWhile_append_of_pos all, none_.2]
  unfold scanDigits
  rw [front, back, if_neg nonempty]

theorem scanUnsigned_whole {digits rest : CText} (whole : Whole digits)
    (ends : EndsNumber rest) : scanUnsigned (digits ++ rest) = some (digits, rest) := by
  have notDigit : ∀ first ∈ rest.head?, isDigit first = false := by
    intro first isFirst
    rcases ends first isFirst with rfl | rfl | rfl <;> rfl
  have wholeRead : scanWhole (digits ++ rest) = some (digits, rest) := by
    unfold scanWhole
    rw [scanDigits_append whole.nonempty whole.all notDigit]
    have proper : ¬(digits.head? = some 48 ∧ digits ≠ [48]) := by
      intro leading
      exact leading.2 (whole.noLeadingZero leading.1)
    simp [proper]
  have noFraction : scanFraction rest = some ([], rest) ∧ scanExponent rest = some ([], rest) := by
    cases rest with
    | nil => exact ⟨rfl, rfl⟩
    | cons first more =>
        rcases ends first rfl with rfl | rfl | rfl <;> exact ⟨rfl, rfl⟩
  unfold scanUnsigned
  rw [wholeRead]
  simp [noFraction]

theorem isDigit_head {digits : CText} (whole : Whole digits) :
    ∃ first more, digits = first :: more ∧ isDigit first = true := by
  obtain ⟨first, more, split⟩ := List.exists_cons_of_ne_nil whole.nonempty
  exact ⟨first, more, split, whole.all first (by rw [split]; exact List.mem_cons_self)⟩

theorem scanNumber_decimal (value : Int) {rest : CText} (ends : EndsNumber rest) :
    scanNumber (decimal value ++ rest) = some (decimal value, rest) := by
  obtain ⟨digits, whole, positive | negative⟩ := decimal_cases value
  · obtain ⟨first, more, split, firstDigit⟩ := isDigit_head whole
    have notMinus : first ≠ minus := by
      rintro rfl
      contradiction
    have read := scanUnsigned_whole whole ends
    rw [split, List.cons_append] at read
    rw [positive, split, List.cons_append, scanNumber, if_neg notMinus, read]
  · rw [negative, List.cons_append, scanNumber, if_pos rfl, scanUnsigned_whole whole ends]
    rfl

theorem decimal_head (value : Int) :
    ∃ first more, decimal value = first :: more ∧ (isDigit first = true ∨ first = minus) := by
  obtain ⟨digits, whole, positive | negative⟩ := decimal_cases value
  · obtain ⟨first, more, split, firstDigit⟩ := isDigit_head whole
    exact ⟨first, more, positive.trans split, .inl firstDigit⟩
  · exact ⟨minus, digits, negative, .inr rfl⟩

theorem plain_digit {byte : UInt8} (digit : isDigit byte = true) :
    byte ≠ quote ∧ byte ≠ backslash ∧ ¬byte < 32 := by
  unfold isDigit at digit
  simp only [Bool.and_eq_true, decide_eq_true_eq] at digit
  refine ⟨?_, ?_, ?_⟩
  · rintro rfl
    exact absurd digit.1 (by decide)
  · rintro rfl
    exact absurd digit.2 (by decide)
  · intro control
    exact absurd (UInt8.lt_of_le_of_lt digit.1 control) (by decide)

theorem plain_decimal (value : Int) : Plain (decimal value) := by
  obtain ⟨digits, whole, positive | negative⟩ := decimal_cases value
  · rw [positive]
    exact fun byte member => plain_digit (whole.all byte member)
  · rw [negative, plain_cons]
    exact ⟨by decide, fun byte member => plain_digit (whole.all byte member)⟩

/-! ### Spliced documents -/

/-- Texts set apart by commas. -/
def separated : List CText → CText
  | [] => []
  | [item] => item
  | item :: next :: more => item ++ comma :: separated (next :: more)

def spliceMember (name value : CText) : CText :=
  quote :: (name ++ quote :: colon :: value)

mutual

/-- The text of a document, its strings between quotes as they are. -/
def splice : Json → CText
  | .null => text "null"
  | .bool true => text "true"
  | .bool false => text "false"
  | .number lexeme => lexeme
  | .string value => quote :: (value ++ [quote])
  | .array items => openBracket :: (separated (spliceItems items) ++ [closeBracket])
  | .object members => openBrace :: (separated (spliceMembers members) ++ [closeBrace])

def spliceItems : List Json → List CText
  | [] => []
  | item :: more => splice item :: spliceItems more

def spliceMembers : List (CText × Json) → List CText
  | [] => []
  | (name, value) :: more => spliceMember name (splice value) :: spliceMembers more

end

theorem spliceItems_eq (items : List Json) : spliceItems items = items.map splice := by
  induction items with
  | nil => rfl
  | cons item more ih => rw [spliceItems, ih, List.map_cons]

def printMember (member : CText × Json) : CText :=
  spliceMember member.1 (splice member.2)

theorem length_printMember (member : CText × Json) :
    (printMember member).length = member.1.length + (splice member.2).length + 3 := by
  simp only [printMember, spliceMember, List.length_cons, List.length_append]
  omega

theorem spliceMembers_eq (members : List (CText × Json)) :
    spliceMembers members = members.map printMember := by
  induction members with
  | nil => rfl
  | cons member more ih =>
      obtain ⟨name, value⟩ := member
      rw [spliceMembers, ih]
      rfl

mutual

/-- Every number is an integer. -/
def Integral : Json → Prop
  | .number lexeme => ∃ value, lexeme = decimal value
  | .array items => IntegralItems items
  | .object members => IntegralMembers members
  | _ => True

def IntegralItems : List Json → Prop
  | [] => True
  | item :: more => Integral item ∧ IntegralItems more

def IntegralMembers : List (CText × Json) → Prop
  | [] => True
  | (_, value) :: more => Integral value ∧ IntegralMembers more

end

mutual

/-- Every string and every name is plain. -/
def AllPlain : Json → Prop
  | .string value => Plain value
  | .array items => AllPlainItems items
  | .object members => AllPlainMembers members
  | _ => True

def AllPlainItems : List Json → Prop
  | [] => True
  | item :: more => AllPlain item ∧ AllPlainItems more

def AllPlainMembers : List (CText × Json) → Prop
  | [] => True
  | (name, value) :: more => Plain name ∧ AllPlain value ∧ AllPlainMembers more

end

mutual

def decideAllPlain : (document : Json) → Decidable (AllPlain document)
  | .null => .isTrue trivial
  | .bool _ => .isTrue trivial
  | .number _ => .isTrue trivial
  | .string value => inferInstanceAs (Decidable (Plain value))
  | .array items => decideAllPlainItems items
  | .object members => decideAllPlainMembers members

def decideAllPlainItems : (items : List Json) → Decidable (AllPlainItems items)
  | [] => .isTrue trivial
  | item :: more =>
      @instDecidableAnd _ _ (decideAllPlain item) (decideAllPlainItems more)

def decideAllPlainMembers : (members : List (CText × Json)) → Decidable (AllPlainMembers members)
  | [] => .isTrue trivial
  | (name, value) :: more =>
      @instDecidableAnd (Plain name) _ _
        (@instDecidableAnd _ _ (decideAllPlain value) (decideAllPlainMembers more))

end

instance (document : Json) : Decidable (AllPlain document) :=
  decideAllPlain document

instance (members : List (CText × Json)) : Decidable (AllPlainMembers members) :=
  decideAllPlainMembers members

/-! ### Reading a spliced document back -/

/-- Plain bytes up to the next quote. -/
def Opens (rest : CText) : Prop :=
  ∃ plain more, rest = plain ++ more ∧ Plain plain ∧
    (more = [] ∨ ∃ behind, more = quote :: behind)

theorem opens_quote (behind : CText) : Opens (quote :: behind) :=
  ⟨[], quote :: behind, rfl, by decide, .inr ⟨behind, rfl⟩⟩

theorem opens_append {first rest : CText} (plain : Plain first) (opens : Opens rest) :
    Opens (first ++ rest) := by
  obtain ⟨front, more, split, frontPlain, behind⟩ := opens
  refine ⟨first ++ front, more, ?_, plain_append.mpr ⟨plain, frontPlain⟩, behind⟩
  rw [split, List.append_assoc]

theorem opens_cons {byte : UInt8} {rest : CText} (plain : Plain [byte]) (opens : Opens rest) :
    Opens (byte :: rest) :=
  opens_append plain opens

theorem separates_cons {byte : UInt8} {rest : CText} (plain : Plain [byte])
    (opens : Opens rest) : Separates (byte :: rest) := by
  obtain ⟨front, more, split, frontPlain, behind⟩ := opens
  refine ⟨byte :: front, more, ?_, ?_, ?_⟩
  · rw [split]
    rfl
  · exact plain_append.mpr ⟨plain, frontPlain⟩
  · exact behind.imp_right (fun quoted => ⟨List.cons_ne_nil _ _, quoted⟩)

theorem separates_nil : Separates [] :=
  ⟨[], [], rfl, by decide, .inl rfl⟩

/-- What may stand behind a value. -/
structure Follows (rest : CText) : Prop where
  ends : EndsNumber rest
  separates : Separates rest

theorem follows_nil : Follows [] :=
  ⟨by simp [EndsNumber], separates_nil⟩

theorem follows_cons {byte : UInt8} {rest : CText}
    (ends : byte = comma ∨ byte = closeBracket ∨ byte = closeBrace) (opens : Opens rest) :
    Follows (byte :: rest) := by
  constructor
  · intro first isFirst
    rw [List.head?_cons, Option.mem_def, Option.some.injEq] at isFirst
    rw [← isFirst]
    exact ends
  · refine separates_cons ?_ opens
    rcases ends with rfl | rfl | rfl <;> decide

theorem opens_separated {items : List CText} {rest : CText} (opens : Opens rest)
    (each : ∀ item ∈ items, ∀ behind, Opens behind → Opens (item ++ behind)) :
    Opens (separated items ++ rest) := by
  induction items with
  | nil => exact opens
  | cons item more ih =>
      have first := each item List.mem_cons_self
      have others := ih (fun other member => each other (List.mem_cons_of_mem item member))
      cases more with
      | nil => exact first rest opens
      | cons next tail =>
          rw [separated, List.append_assoc]
          exact first _ (opens_cons (by decide) others)

mutual

theorem opens_splice (document : Json) (integral : Integral document) (rest : CText)
    (opens : Opens rest) : Opens (splice document ++ rest) := by
  cases document with
  | null => exact opens_append (by decide) opens
  | bool value =>
      cases value
      · exact opens_append (by decide) opens
      · exact opens_append (by decide) opens
  | number lexeme =>
      obtain ⟨value, rfl⟩ := integral
      exact opens_append (plain_decimal value) opens
  | string value => exact opens_quote _
  | array items =>
      rw [splice, List.cons_append, List.append_assoc]
      exact opens_cons (by decide)
        (opens_separated (opens_cons (by decide) opens) (opens_spliceItems items integral))
  | object members =>
      rw [splice, List.cons_append, List.append_assoc]
      refine opens_cons (by decide) ?_
      refine opens_separated (opens_cons (by decide) opens) ?_
      intro item member behind _
      rw [spliceMembers_eq] at member
      obtain ⟨pair, _, rfl⟩ := List.mem_map.mp member
      exact opens_quote _

theorem opens_spliceItems (items : List Json) (integral : IntegralItems items) :
    ∀ item ∈ spliceItems items, ∀ behind, Opens behind → Opens (item ++ behind) := by
  cases items with
  | nil => simp [spliceItems]
  | cons item more =>
      rw [spliceItems, List.forall_mem_cons]
      exact ⟨opens_splice item integral.1, opens_spliceItems more integral.2⟩

end

theorem token_self {byte : UInt8} (solid : isSpace byte = false) (rest : CText) :
    token byte (byte :: rest) = some rest := by
  simp [token, skipSpace, solid]

theorem token_other {byte first : UInt8} (solid : isSpace first = false)
    (other : first ≠ byte) (rest : CText) : token byte (first :: rest) = none := by
  simp [token, skipSpace, solid, other]

structure Closes (close : UInt8) : Prop where
  solid : isSpace close = false
  notComma : comma ≠ close
  ends : close = comma ∨ close = closeBracket ∨ close = closeBrace
  plain : Plain [close]

theorem closes_bracket : Closes closeBracket :=
  ⟨rfl, by decide, by decide, by decide⟩

theorem closes_brace : Closes closeBrace :=
  ⟨rfl, by decide, by decide, by decide⟩

section ScanList

variable {α : Type} {close : UInt8} {scan : CText → Option (α × CText)}

theorem scanList_last {item : α} {input rest : CText} {count : Nat} (closes : Closes close)
    (scanned : scan input = some (item, close :: rest)) :
    scanList close scan (count + 1) input = some ([item], rest) := by
  rw [scanList, scanned]
  simp only [token_self closes.solid]

theorem scanList_next {item : α} {input more : CText} {count : Nat} (closes : Closes close)
    (scanned : scan input = some (item, comma :: more)) :
    scanList close scan (count + 1) input =
      (scanList close scan count more).map (fun found => (item :: found.1, found.2)) := by
  have isComma : token comma (comma :: more) = some more := token_self rfl more
  have notClose : token close (comma :: more) = none := token_other rfl closes.notComma more
  rw [scanList, scanned]
  simp only [notClose, isComma]

theorem scanList_head {item : α} {items : List α} {input left : CText} {count : Nat}
    (scanned : scanList close scan (count + 1) input = some (item :: items, left)) :
    ∃ behind, scan input = some (item, behind) := by
  rw [scanList] at scanned
  cases first : scan input with
  | none =>
      rw [first] at scanned
      contradiction
  | some found =>
      obtain ⟨value, behind⟩ := found
      rw [first] at scanned
      have same : value = item := by
        cases closed : token close behind with
        | some rest =>
            simp only [closed, Option.some.injEq, Prod.mk.injEq, List.cons.injEq] at scanned
            exact scanned.1.1
        | none =>
            cases next : token comma behind with
            | none => simp [closed, next] at scanned
            | some more =>
                simp only [closed, next] at scanned
                obtain ⟨rest, _, pair⟩ := Option.map_eq_some_iff.mp scanned
                exact (List.cons.inj (Prod.mk.inj pair).1).1
      exact ⟨behind, same ▸ rfl⟩

theorem map_cons_eq_some_iff {item : α} {items : List α} {left : CText}
    {found : Option (List α × CText)} :
    found.map (fun pair => (item :: pair.1, pair.2)) = some (item :: items, left) ↔
      found = some (items, left) := by
  cases found with
  | none => simp
  | some pair =>
      obtain ⟨more, behind⟩ := pair
      simp

theorem scanList_separated_iff {print : α → CText} {Good : α → Prop} {items : List α}
    {rest left : CText} {count : Nat} (closes : Closes close) (opens : Opens rest)
    (nonempty : items ≠ []) (enough : items.length ≤ count)
    (printed : ∀ item ∈ items, ∀ behind, Opens behind → Opens (print item ++ behind))
    (reads : ∀ item ∈ items, ∀ behind left, Follows behind →
      (scan (print item ++ behind) = some (item, left) ↔ Good item ∧ left = behind)) :
    scanList close scan count (separated (items.map print) ++ close :: rest) =
        some (items, left) ↔ (∀ item ∈ items, Good item) ∧ left = rest := by
  induction items generalizing count with
  | nil => contradiction
  | cons item more ih =>
      obtain ⟨count, rfl⟩ : ∃ less, count = less + 1 := ⟨count - 1, by
        simp only [List.length_cons] at enough
        omega⟩
      have readsItem := reads item List.mem_cons_self
      have closing : Follows (close :: rest) := follows_cons closes.ends opens
      cases more with
      | nil =>
          constructor
          · intro scanned
            obtain ⟨behind, first⟩ := scanList_head scanned
            have good := ((readsItem _ _ closing).mp first).1
            have last := (readsItem _ _ closing).mpr ⟨good, rfl⟩
            rw [List.map_cons, List.map_nil, separated, scanList_last closes last] at scanned
            exact ⟨by simp [good], (Prod.mk.inj (Option.some.inj scanned)).2.symm⟩
          · rintro ⟨good, rfl⟩
            have last := (readsItem _ _ closing).mpr ⟨good item List.mem_cons_self, rfl⟩
            exact scanList_last closes last
      | cons next tail =>
          have othersPrinted : ∀ other ∈ next :: tail, ∀ behind, Opens behind →
              Opens (print other ++ behind) :=
            fun other member => printed other (List.mem_cons_of_mem item member)
          have fewer : (next :: tail).length ≤ count := by
            simp only [List.length_cons] at enough ⊢
            omega
          have others := ih (List.cons_ne_nil next tail) fewer othersPrinted
            (fun other member => reads other (List.mem_cons_of_mem item member))
          have opensOthers : Opens (separated ((next :: tail).map print) ++ close :: rest) := by
            refine opens_separated (opens_cons closes.plain opens) ?_
            intro text_ member
            obtain ⟨other, inOthers, rfl⟩ := List.mem_map.mp member
            exact othersPrinted other inOthers
          have comma_ := follows_cons (.inl rfl) opensOthers
          have shape : separated ((item :: next :: tail).map print) ++ close :: rest =
              print item ++ comma :: (separated ((next :: tail).map print) ++ close :: rest) := by
            simp only [List.map_cons, separated, List.append_assoc, List.cons_append]
          rw [shape, List.forall_mem_cons]
          constructor
          · intro scanned
            obtain ⟨behind, first⟩ := scanList_head scanned
            have good := ((readsItem _ _ comma_).mp first).1
            rw [scanList_next closes ((readsItem _ _ comma_).mpr ⟨good, rfl⟩),
              map_cons_eq_some_iff, others] at scanned
            exact ⟨⟨good, scanned.1⟩, scanned.2⟩
          · rintro ⟨⟨good, goods⟩, atRest⟩
            rw [scanList_next closes ((readsItem _ _ comma_).mpr ⟨good, rfl⟩),
              map_cons_eq_some_iff, others]
            exact ⟨goods, atRest⟩

end ScanList

theorem ne_of_digit {byte other : UInt8} (digit : isDigit byte = true)
    (notDigit : isDigit other = false) : byte ≠ other := by
  rintro rfl
  rw [digit] at notDigit
  contradiction

theorem digit_solid {byte : UInt8} (digit : isDigit byte = true) : isSpace byte = false := by
  simp only [isSpace, Bool.or_eq_false_iff, beq_eq_false_iff_ne]
  exact ⟨⟨⟨ne_of_digit digit rfl, ne_of_digit digit rfl⟩, ne_of_digit digit rfl⟩,
    ne_of_digit digit rfl⟩

theorem splice_head (document : Json) (integral : Integral document) :
    ∃ first more, splice document = first :: more ∧ isSpace first = false ∧
      first ≠ closeBracket := by
  cases document with
  | null => exact ⟨110, text "ull", rfl, rfl, by decide⟩
  | bool value =>
      cases value
      · exact ⟨102, text "alse", rfl, rfl, by decide⟩
      · exact ⟨116, text "rue", rfl, rfl, by decide⟩
  | number lexeme =>
      obtain ⟨value, rfl⟩ := integral
      obtain ⟨first, more, split, digit | rfl⟩ := decimal_head value
      · exact ⟨first, more, split, digit_solid digit, ne_of_digit digit rfl⟩
      · exact ⟨minus, more, split, rfl, by decide⟩
  | string value => exact ⟨quote, _, rfl, rfl, by decide⟩
  | array items => exact ⟨openBracket, _, rfl, rfl, by decide⟩
  | object members => exact ⟨openBrace, _, rfl, rfl, by decide⟩

theorem scanValue_decimal (value : Int) {fuel : Nat} {rest : CText} (ends : EndsNumber rest) :
    scanValue (fuel + 1) (decimal value ++ rest) = some (.number (decimal value), rest) := by
  have read := scanNumber_decimal value ends
  obtain ⟨first, more, split, starts⟩ := decimal_head value
  have other : ∀ byte, isDigit byte = false → byte ≠ minus → first ≠ byte := by
    intro byte notDigit notMinus same
    rcases starts with digit | rfl
    · exact ne_of_digit digit notDigit same
    · exact notMinus same.symm
  have solid : isSpace first = false := by
    rcases starts with digit | rfl
    · exact digit_solid digit
    · rfl
  have noWord : ∀ head tail, first ≠ head →
      ¬(head :: tail).isPrefixOf (first :: (more ++ rest)) = true := by
    intro head tail differs
    simp [List.isPrefixOf, Ne.symm differs]
  have notNull : ¬(text "null").isPrefixOf (first :: (more ++ rest)) = true :=
    noWord 110 (text "ull") (other 110 rfl (by decide))
  have notTrue : ¬(text "true").isPrefixOf (first :: (more ++ rest)) = true :=
    noWord 116 (text "rue") (other 116 rfl (by decide))
  have notFalse : ¬(text "false").isPrefixOf (first :: (more ++ rest)) = true :=
    noWord 102 (text "alse") (other 102 rfl (by decide))
  have begins : skipSpace (first :: (more ++ rest)) = first :: (more ++ rest) := by
    simp [skipSpace, solid]
  rw [split, List.cons_append] at read ⊢
  rw [scanValue, begins]
  simp only [if_neg (other quote rfl (by decide)), if_neg (other openBracket rfl (by decide)),
    if_neg (other openBrace rfl (by decide)), if_neg notNull, if_neg notTrue, if_neg notFalse,
    read, Option.map_some]

theorem allPlainItems_iff (items : List Json) :
    AllPlainItems items ↔ ∀ item ∈ items, AllPlain item := by
  induction items with
  | nil => simp [AllPlainItems]
  | cons item more ih => rw [AllPlainItems, ih, List.forall_mem_cons]

theorem allPlainMembers_iff (members : List (CText × Json)) :
    AllPlainMembers members ↔ ∀ member ∈ members, Plain member.1 ∧ AllPlain member.2 := by
  induction members with
  | nil => simp [AllPlainMembers]
  | cons member more ih =>
      obtain ⟨name, value⟩ := member
      rw [AllPlainMembers, ih, List.forall_mem_cons, and_assoc]

theorem length_le_separated {α : Type} (print : α → CText) {items : List α} {item : α}
    (member : item ∈ items) : (print item).length ≤ (separated (items.map print)).length := by
  induction items with
  | nil => contradiction
  | cons first more ih =>
      cases more with
      | nil =>
          rw [List.mem_singleton] at member
          rw [member, List.map_cons, List.map_nil, separated]
      | cons next tail =>
          rw [List.map_cons, List.map_cons, separated, List.length_append, List.length_cons]
          rcases List.mem_cons.mp member with rfl | inMore
          · omega
          · have inRest := ih inMore
            rw [List.map_cons] at inRest
            omega

/-- The text of a document is read back from any place it may stand in. -/
def ReadsBack (document : Json) : Prop :=
  ∀ fuel rest left, (splice document).length ≤ fuel → Follows rest →
    (scanValue fuel (splice document ++ rest) = some (document, left) ↔
      AllPlain document ∧ left = rest)

theorem map_wrap_iff {α : Type} {wrap : α → Json} (injective : Function.Injective wrap)
    {found : Option (α × CText)} {value : α} {left : CText} :
    found.map (fun pair => (wrap pair.1, pair.2)) = some (wrap value, left) ↔
      found = some (value, left) := by
  cases found with
  | none => simp
  | some pair =>
      obtain ⟨other, behind⟩ := pair
      simp [injective.eq_iff]

theorem readsBack_string (value : CText) : ReadsBack (.string value) := by
  intro fuel rest left enough follows
  cases fuel with
  | zero => simp [splice] at enough
  | succ fuel =>
      have scanned : scanValue (fuel + 1) (splice (.string value) ++ rest) =
          (scanString 0 (value ++ quote :: rest)).map
            (fun found => (.string found.1, found.2)) := by
        rw [splice, List.cons_append, List.append_assoc]
        rfl
      rw [scanned, AllPlain, ← scanString_eq_self_iff follows.separates]
      exact map_wrap_iff (fun _ _ same => Json.string.inj same)

theorem opens_of_separates {rest : CText} (separates : Separates rest) : Opens rest := by
  obtain ⟨front, more, split, plain, behind⟩ := separates
  exact ⟨front, more, split, plain, behind.imp_right And.right⟩

theorem length_le_separated_length (items : List CText) :
    items.length ≤ (separated items).length + 1 := by
  induction items with
  | nil => exact Nat.zero_le _
  | cons first more ih =>
      cases more with
      | nil => simp
      | cons next tail =>
          have whole : (separated (first :: next :: tail)).length =
              first.length + ((separated (next :: tail)).length + 1) := by
            rw [separated, List.length_append, List.length_cons]
          rw [whole, List.length_cons]
          omega

theorem readsBack_number (value : Int) : ReadsBack (.number (decimal value)) := by
  intro fuel rest left enough follows
  obtain ⟨first, more, split, _⟩ := decimal_head value
  cases fuel with
  | zero => simp [splice, split] at enough
  | succ fuel =>
      rw [splice, scanValue_decimal value follows.ends]
      simp [AllPlain, eq_comm]

theorem scanValue_array {fuel : Nat} {input : CText} (goesOn : token closeBracket input = none) :
    scanValue (fuel + 1) (openBracket :: input) =
      (scanList closeBracket (scanValue fuel) input.length input).map
        (fun found => (.array found.1, found.2)) := by
  have begins : skipSpace (openBracket :: input) = openBracket :: input := rfl
  have notQuote : ¬openBracket = quote := by decide
  rw [scanValue, begins]
  simp only [if_neg notQuote, if_true, goesOn]

theorem scanValue_object {fuel : Nat} {input : CText} (goesOn : token closeBrace input = none) :
    scanValue (fuel + 1) (openBrace :: input) =
      (scanList closeBrace (scanMember (scanValue fuel)) input.length input).map
        (fun found => (.object found.1, found.2)) := by
  have begins : skipSpace (openBrace :: input) = openBrace :: input := rfl
  have notQuote : ¬openBrace = quote := by decide
  have notBracket : ¬openBrace = openBracket := by decide
  rw [scanValue, begins]
  simp only [if_neg notQuote, if_neg notBracket, if_true, goesOn]

theorem separated_head (first : UInt8) (tail : CText) (more : List CText) :
    ∃ others, separated ((first :: tail) :: more) = first :: others := by
  cases more with
  | nil => exact ⟨tail, rfl⟩
  | cons next others => exact ⟨_, rfl⟩

theorem integralItems_mem {items : List Json} (integral : IntegralItems items) :
    ∀ item ∈ items, Integral item := by
  induction items with
  | nil => simp
  | cons item more ih =>
      rw [List.forall_mem_cons]
      exact ⟨integral.1, ih integral.2⟩

theorem integralMembers_mem {members : List (CText × Json)}
    (integral : IntegralMembers members) : ∀ member ∈ members, Integral member.2 := by
  induction members with
  | nil => simp
  | cons member more ih =>
      rw [List.forall_mem_cons]
      exact ⟨integral.1, ih integral.2⟩

theorem readsBack_array {items : List Json} (integral : IntegralItems items)
    (each : ∀ item ∈ items, ReadsBack item) : ReadsBack (.array items) := by
  intro fuel rest left enough follows
  have opens := opens_of_separates follows.separates
  cases fuel with
  | zero => simp [splice] at enough
  | succ fuel =>
      rw [splice, List.length_cons, List.length_append, spliceItems_eq] at enough
      rw [splice, List.cons_append, List.append_assoc, AllPlain, allPlainItems_iff,
        spliceItems_eq]
      cases items with
      | nil =>
          have empty : scanValue (fuel + 1) (openBracket :: closeBracket :: rest) =
              some (.array [], rest) := rfl
          simp [separated, empty, eq_comm]
      | cons item more =>
          have goesOn : token closeBracket
              (separated ((item :: more).map splice) ++ ([closeBracket] ++ rest)) = none := by
            obtain ⟨first, tail, split, solid, notClose⟩ := splice_head item integral.1
            obtain ⟨others, headed⟩ := separated_head first tail (more.map splice)
            rw [List.map_cons, split, headed, List.cons_append]
            exact token_other solid notClose _
          have count : (item :: more).length ≤
              (separated ((item :: more).map splice) ++ ([closeBracket] ++ rest)).length := by
            have items_ := length_le_separated_length ((item :: more).map splice)
            rw [List.length_map] at items_
            rw [List.length_append, List.length_append, List.length_singleton]
            omega
          have scanned := @scanList_separated_iff _ _ (scanValue fuel) splice AllPlain
            (item :: more) rest left _ closes_bracket opens (List.cons_ne_nil _ _) count
            (fun other member => opens_splice other (integralItems_mem integral other member))
            (by
              intro other member behind left follows
              have short := length_le_separated splice member
              exact each other member fuel behind left (by omega) follows)
          rw [scanValue_array goesOn, ← scanned]
          exact map_wrap_iff (fun _ _ same => Json.array.inj same)

theorem scanMember_splice_iff {name left behind : CText} {value : Json} {fuel : Nat}
    (integral : Integral value) (readsBack : ReadsBack value)
    (enough : (splice value).length ≤ fuel) (follows : Follows behind) :
    scanMember (scanValue fuel) (spliceMember name (splice value) ++ behind) =
        some ((name, value), left) ↔ (Plain name ∧ AllPlain value) ∧ left = behind := by
  have separates : Separates (colon :: (splice value ++ behind)) :=
    separates_cons (by decide) (opens_splice value integral behind
      (opens_of_separates follows.separates))
  have opened : token quote (spliceMember name (splice value) ++ behind) =
      some (name ++ quote :: colon :: (splice value ++ behind)) := by
    unfold spliceMember
    rw [List.cons_append, List.append_assoc]
    exact token_self rfl _
  have assigned : token colon (colon :: (splice value ++ behind)) =
      some (splice value ++ behind) := token_self rfl _
  unfold scanMember
  rw [opened]
  simp only [Option.bind_eq_bind, Option.bind_some]
  constructor
  · intro scanned
    obtain ⟨⟨found, named⟩, nameRead, scanned⟩ := Option.bind_eq_some_iff.mp scanned
    obtain ⟨text_, colonRead, scanned⟩ := Option.bind_eq_some_iff.mp scanned
    obtain ⟨⟨other, rest⟩, valueRead, pair⟩ := Option.bind_eq_some_iff.mp scanned
    cases pair
    obtain ⟨plain, rfl⟩ := (scanString_eq_self_iff separates).mp nameRead
    rw [assigned] at colonRead
    cases colonRead
    have valueBack := (readsBack fuel behind _ enough follows).mp valueRead
    exact ⟨⟨plain, valueBack.1⟩, valueBack.2⟩
  · rintro ⟨⟨plain, allPlain⟩, atBehind⟩
    have nameRead := (scanString_eq_self_iff separates).mpr ⟨plain, rfl⟩
    have valueRead := (readsBack fuel behind left enough follows).mpr ⟨allPlain, atBehind⟩
    rw [nameRead]
    simp only [Option.bind_some, assigned, valueRead]

theorem readsBack_object {members : List (CText × Json)} (integral : IntegralMembers members)
    (each : ∀ member ∈ members, ReadsBack member.2) : ReadsBack (.object members) := by
  intro fuel rest left enough follows
  have opens := opens_of_separates follows.separates
  cases fuel with
  | zero => simp [splice] at enough
  | succ fuel =>
      rw [splice, List.length_cons, List.length_append, spliceMembers_eq] at enough
      rw [splice, List.cons_append, List.append_assoc, AllPlain, allPlainMembers_iff,
        spliceMembers_eq]
      cases members with
      | nil =>
          have empty : scanValue (fuel + 1) (openBrace :: closeBrace :: rest) =
              some (.object [], rest) := rfl
          simp [separated, empty, eq_comm]
      | cons member more =>
          have goesOn : token closeBrace
              (separated ((member :: more).map printMember) ++ ([closeBrace] ++ rest)) = none := by
            obtain ⟨others, headed⟩ := separated_head quote _ (more.map printMember)
            rw [List.map_cons, printMember, spliceMember, headed, List.cons_append]
            exact token_other rfl (by decide) _
          have count : (member :: more).length ≤
              (separated ((member :: more).map printMember) ++ ([closeBrace] ++ rest)).length := by
            have items_ := length_le_separated_length ((member :: more).map printMember)
            rw [List.length_map] at items_
            rw [List.length_append, List.length_append, List.length_singleton]
            omega
          have scanned := @scanList_separated_iff _ _ (scanMember (scanValue fuel)) printMember
            (fun each => Plain each.1 ∧ AllPlain each.2)
            (member :: more) rest left _ closes_brace opens (List.cons_ne_nil _ _) count
            (fun _ _ _ _ => opens_quote _)
            (by
              intro other inMembers behind left follows
              have short := length_le_separated printMember inMembers
              rw [length_printMember] at short
              have inner : (splice other.2).length ≤ fuel := by omega
              exact scanMember_splice_iff (integralMembers_mem integral other inMembers)
                (each other inMembers) inner follows)
          rw [scanValue_object goesOn, ← scanned]
          exact map_wrap_iff (fun _ _ same => Json.object.inj same)

mutual

theorem readsBack (document : Json) (integral : Integral document) : ReadsBack document := by
  cases document with
  | null =>
      intro fuel rest left enough follows
      cases fuel with
      | zero => simp [splice, text] at enough
      | succ fuel =>
          have read : scanValue (fuel + 1) (splice .null ++ rest) = some (.null, rest) := rfl
          simp [read, AllPlain, eq_comm]
  | bool value =>
      intro fuel rest left enough follows
      cases fuel with
      | zero => cases value <;> simp [splice, text] at enough
      | succ fuel =>
          have read : scanValue (fuel + 1) (splice (.bool value) ++ rest) =
              some (.bool value, rest) := by
            cases value <;> rfl
          simp [read, AllPlain, eq_comm]
  | number lexeme =>
      obtain ⟨value, rfl⟩ := integral
      exact readsBack_number value
  | string value => exact readsBack_string value
  | array items => exact readsBack_array integral (readsBack_items items integral)
  | object members => exact readsBack_object integral (readsBack_members members integral)

theorem readsBack_items (items : List Json) (integral : IntegralItems items) :
    ∀ item ∈ items, ReadsBack item := by
  cases items with
  | nil => simp
  | cons item more =>
      rw [List.forall_mem_cons]
      exact ⟨readsBack item integral.1, readsBack_items more integral.2⟩

theorem readsBack_members (members : List (CText × Json)) (integral : IntegralMembers members) :
    ∀ member ∈ members, ReadsBack member.2 := by
  cases members with
  | nil => simp
  | cons member more =>
      obtain ⟨name, value⟩ := member
      rw [List.forall_mem_cons]
      exact ⟨readsBack value integral.1, readsBack_members more integral.2⟩

end

/-- A spliced document is a text of that document exactly when none of its
strings and names holds a byte that has to be escaped. -/
theorem parse_splice_iff (document : Json) (integral : Integral document) :
    parse (splice document) = some document ↔ AllPlain document := by
  have whole := readsBack document integral (splice document).length []
  unfold parse
  constructor
  · intro parsed
    cases scanned : scanValue (splice document).length (splice document) with
    | none =>
        rw [scanned] at parsed
        contradiction
    | some found =>
        obtain ⟨value, rest⟩ := found
        rw [scanned] at parsed
        by_cases ended : skipSpace rest = []
        · simp only [if_pos ended, Option.some.injEq] at parsed
          subst parsed
          refine ((whole rest (le_refl _) follows_nil).mp ?_).1
          rw [List.append_nil]
          exact scanned
        · simp only [if_neg ended] at parsed
          contradiction
  · intro plain
    have scanned := (whole [] (le_refl _) follows_nil).mpr ⟨plain, rfl⟩
    rw [List.append_nil] at scanned
    rw [scanned]
    rfl

end Json

end Library
