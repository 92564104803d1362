/-
What cJSON makes of a text.

The parser with its buffer reads exactly the documents of its dialect and builds
their trees, and it stays inside the buffer and its arrays on the way: no text
makes it read or write anything else.
-/

import Mathlib.Data.List.DropRight
import DlcServer.CJsonStrings

namespace DlcServer

open Library

/-! ### The dialect goes forward -/

namespace Dialect

/-- Whatever is read, less is left. -/
def Advances {α : Type} (scan : CText → Option (α × CText)) : Prop :=
  ∀ input value left, scan input = some (value, left) → left.length < input.length

theorem skipBlank_length (input : CText) : (skipBlank input).length ≤ input.length := by
  unfold skipBlank
  exact (List.dropWhile_suffix _).length_le

private theorem skipBlank_skipBlank (input : CText) : skipBlank (skipBlank input) = skipBlank input := by
  unfold skipBlank
  exact List.dropWhile_idempotent ..

private theorem advances_scanString : Advances scanString := by
  intro input value left found
  unfold scanString at found
  cases isLiteral : literal input with
  | none =>
      rw [isLiteral] at found
      contradiction
  | some pair =>
      obtain ⟨inner, behind⟩ := pair
      rw [isLiteral] at found
      obtain ⟨decoded, _, same⟩ := Option.map_eq_some_iff.mp found
      cases same
      rw [literal_eq_some isLiteral, List.length_append, List.length_cons]
      omega

private theorem exponentLength_le (input : CText) : strtodLength.exponentLength input ≤ input.length := by
  cases input with
  | nil => exact le_refl 0
  | cons letter rest =>
      unfold strtodLength.exponentLength
      dsimp only
      by_cases isLetter : letter = 101 ∨ letter = 69
      · rw [if_pos isLetter]
        by_cases signed : rest.head? = some 43 ∨ rest.head? = some Json.minus
        · rw [if_pos signed]
          have nonempty : rest ≠ [] := by
            rintro rfl
            rcases signed with other | other <;> contradiction
          have digits := (List.takeWhile_prefix (l := rest.drop 1) Json.isDigit).length_le
          have one := List.length_pos_iff.mpr nonempty
          rw [List.length_drop] at digits
          split
          · omega
          · rw [List.length_cons]
            omega
        · rw [if_neg signed]
          have digits := (List.takeWhile_prefix (l := rest) Json.isDigit).length_le
          rw [List.drop_zero]
          split
          · omega
          · rw [List.length_cons]
            omega
      · rw [if_neg isLetter]
        omega

theorem strtodLength_le (input : CText) : strtodLength input ≤ input.length := by
  unfold strtodLength
  dsimp only
  generalize isSign : (if input.head? = some 43 ∨ input.head? = some Json.minus then 1 else 0) = sign
  have signLe : sign ≤ input.length := by
    cases input with
    | nil =>
        rw [← isSign]
        decide
    | cons first rest =>
        rw [← isSign, List.length_cons]
        split <;> omega
  generalize isUnsigned : input.drop sign = unsigned
  have unsignedLength : unsigned.length = input.length - sign := by
    rw [← isUnsigned, List.length_drop]
  have wholeLe := (List.takeWhile_prefix (l := unsigned) Json.isDigit).length_le
  generalize unsigned.takeWhile Json.isDigit = whole at wholeLe ⊢
  generalize isBehind : unsigned.drop whole.length = behind
  have behindLength : behind.length = unsigned.length - whole.length := by
    rw [← isBehind, List.length_drop]
  by_cases pointed : behind.head? = some Json.point
  · simp only [if_pos pointed]
    have nonempty : behind ≠ [] := by
      rintro rfl
      contradiction
    have one := List.length_pos_iff.mpr nonempty
    have fractionLe := (List.takeWhile_prefix (l := behind.drop 1) Json.isDigit).length_le
    rw [List.length_drop] at fractionLe
    generalize (behind.drop 1).takeWhile Json.isDigit = fraction at fractionLe ⊢
    have exponentLe := exponentLength_le (behind.drop (fraction.length + 1))
    rw [List.length_drop] at exponentLe
    split <;> omega
  · simp only [if_neg pointed]
    have exponentLe := exponentLength_le (behind.drop 0)
    rw [List.drop_zero] at exponentLe
    rw [List.drop_zero]
    split <;> omega

private theorem advances_scanNumber : Advances scanNumber := by
  intro input value left found
  unfold scanNumber at found
  have bound := strtodLength_le ((input.take 63).takeWhile isNumeric)
  have copied := (List.takeWhile_prefix (l := input.take 63) isNumeric).length_le
  rw [List.length_take] at copied
  dsimp only at found
  split at found
  · contradiction
  · next positive =>
      cases found
      rw [List.length_drop]
      omega

private theorem advances_scanItems {α : Type} {close : UInt8} {scan : CText → Option (α × CText)}
    (advances : Advances scan) (count : Nat) : Advances (scanItems close scan count) := by
  induction count with
  | zero =>
      intro input value left found
      contradiction
  | succ count ih =>
      intro input value left found
      rw [scanItems] at found
      cases scanned : scan (skipBlank input) with
      | none =>
          rw [scanned] at found
          contradiction
      | some pair =>
          obtain ⟨item, behind⟩ := pair
          have itemLess := advances _ _ _ scanned
          have blank := skipBlank_length input
          have behindBlank := skipBlank_length behind
          simp only [scanned] at found
          cases next : skipBlank behind with
          | nil =>
              rw [next] at found
              contradiction
          | cons first rest =>
              simp only [next] at found
              rw [next, List.length_cons] at behindBlank
              by_cases isComma : first = Json.comma
              · rw [if_pos isComma] at found
                obtain ⟨⟨items, behindItems⟩, more, same⟩ := Option.map_eq_some_iff.mp found
                cases same
                have moreLess := ih rest items behindItems more
                dsimp only
                omega
              · rw [if_neg isComma] at found
                split at found
                · cases found
                  omega
                · contradiction

private theorem advances_scanContainer {α : Type} {close : UInt8} {scan : CText → Option (α × CText)}
    (advances : Advances scan) : Advances (scanContainer close scan) := by
  intro input value left found
  unfold scanContainer at found
  have blank := skipBlank_length input
  cases next : skipBlank input with
  | nil =>
      rw [next] at found
      contradiction
  | cons first rest =>
      simp only [next] at found
      rw [next, List.length_cons] at blank
      split at found
      · cases found
        omega
      · exact advances_scanItems advances _ _ _ _ found

private theorem advances_scanMember {scan : CText → Option (Json × CText)} (advances : Advances scan) :
    Advances (scanMember scan) := by
  intro input value left found
  cases input with
  | nil => contradiction
  | cons first rest =>
      rw [scanMember] at found
      split at found
      · cases named : scanString rest with
        | none =>
            rw [named] at found
            contradiction
        | some pair =>
            obtain ⟨name, behind⟩ := pair
            have nameLess := advances_scanString _ _ _ named
            have behindBlank := skipBlank_length behind
            simp only [named] at found
            cases next : skipBlank behind with
            | nil =>
                rw [next] at found
                contradiction
            | cons sign assigned =>
                simp only [next] at found
                rw [next, List.length_cons] at behindBlank
                split at found
                · obtain ⟨⟨item, after⟩, scanned, same⟩ := Option.map_eq_some_iff.mp found
                  cases same
                  have itemLess := advances _ _ _ scanned
                  have assignedBlank := skipBlank_length assigned
                  rw [List.length_cons]
                  dsimp only
                  omega
                · contradiction
      · contradiction

private theorem isPrefixOf_drop_length {literal input : CText} (nonempty : literal ≠ [])
    (starts : literal.isPrefixOf input = true) :
    (input.drop literal.length).length < input.length := by
  obtain ⟨rest, rfl⟩ := List.isPrefixOf_iff_prefix.mp starts
  have positive := List.length_pos_iff.mpr nonempty
  rw [List.drop_left, List.length_append]
  omega

theorem advances_scanScalar : Advances scanScalar := by
  intro input value left found
  unfold scanScalar at found
  split at found
  · next isNull =>
      cases found
      exact @isPrefixOf_drop_length (text "null") _ (by decide) isNull
  split at found
  · next isFalse =>
      cases found
      exact @isPrefixOf_drop_length (text "false") _ (by decide) isFalse
  split at found
  · next isTrue =>
      cases found
      exact @isPrefixOf_drop_length (text "true") _ (by decide) isTrue
  cases input with
  | nil => contradiction
  | cons first rest =>
      dsimp only at found
      split at found
      · obtain ⟨⟨decoded, behind⟩, scanned, same⟩ := Option.map_eq_some_iff.mp found
        cases same
        have less := advances_scanString _ _ _ scanned
        rw [List.length_cons]
        dsimp only
        omega
      · split at found
        · obtain ⟨⟨lexeme, behind⟩, scanned, same⟩ := Option.map_eq_some_iff.mp found
          cases same
          exact advances_scanNumber _ _ _ scanned
        · contradiction

private theorem advances_scanNested {scan : CText → Option (Json × CText)} (advances : Advances scan) :
    Advances (scanNested scan) := by
  intro input value left found
  cases input with
  | nil => contradiction
  | cons first rest =>
      rw [scanNested] at found
      rw [List.length_cons]
      split at found
      · obtain ⟨⟨items, behind⟩, scanned, same⟩ := Option.map_eq_some_iff.mp found
        cases same
        have less := advances_scanContainer advances _ _ _ scanned
        dsimp only
        omega
      · split at found
        · obtain ⟨⟨members, behind⟩, scanned, same⟩ := Option.map_eq_some_iff.mp found
          cases same
          have less := advances_scanContainer (advances_scanMember advances) _ _ _ scanned
          dsimp only
          omega
        · contradiction

private theorem advances_scanValue (limit : Nat) : Advances (scanValue limit) := by
  induction limit with
  | zero => exact advances_scanScalar
  | succ limit ih =>
      intro input value left found
      rw [scanValue] at found
      rcases Option.or_eq_some_iff.mp found with nested | ⟨_, scalar⟩
      · exact advances_scanNested ih _ _ _ nested
      · exact advances_scanScalar _ _ _ scalar

end Dialect

/-! ### The buffer at a text -/

/-- What is left of the buffer is this text and the NUL. -/
def ParseBuffer.At (buffer : ParseBuffer) (input : CText) : Prop :=
  buffer.content.drop buffer.offset = input ++ [0]

/-- The buffer at another offset. -/
def ParseBuffer.moved (buffer : ParseBuffer) (offset : Nat) : ParseBuffer :=
  { buffer with offset := offset }

/-- The outcome of a parse function is that of a scan: it has moved on over what
the scan has read, or it has failed. -/
def Reads {α β : Type} (buffer : ParseBuffer) (node : α → β)
    (scanned : Option (α × CText)) (outcome : Except Overstep (Taken β)) : Prop :=
  match scanned with
  | none => ∃ failed, outcome = .ok (none, failed)
  | some (value, left) =>
      ∃ offset, outcome = .ok (some (node value), buffer.moved offset) ∧
        (buffer.moved offset).At left

namespace ParseBuffer

variable {buffer : ParseBuffer} {input rest : CText} {first byte : UInt8}

theorem At.head? (here : buffer.At input) :
    buffer.content[buffer.offset]? = (input ++ [0]).head? := by
  rw [← List.head?_drop, here]

private theorem At.sees_cons (here : buffer.At (first :: rest)) :
    buffer.sees byte = true ↔ first = byte := by
  unfold sees
  rw [here.head?]
  simp

private theorem At.sees_nil (here : buffer.At []) (nonzero : byte ≠ 0) : buffer.sees byte = false := by
  unfold sees
  rw [here.head?]
  simpa using nonzero.symm

private theorem At.sees_false (here : buffer.At (first :: rest)) (other : first ≠ byte) :
    buffer.sees byte = false := by
  rw [Bool.eq_false_iff]
  exact fun seen => other (here.sees_cons.mp seen)

theorem At.next (here : buffer.At (first :: rest)) : (buffer.skip 1).At rest :=
  drop_next here

theorem At.inside (here : buffer.At input) : buffer.offset < buffer.content.length := by
  by_contra outside
  have none_ : buffer.content.drop buffer.offset = [] := List.drop_eq_nil_of_le (by omega)
  rw [here] at none_
  simp at none_

theorem At.length (here : buffer.At input) :
    buffer.content.length = buffer.offset + input.length + 1 := by
  have inside := here.inside
  have same := congrArg List.length here
  rw [List.length_drop, List.length_append, List.length_singleton] at same
  omega

theorem At.skip (here : buffer.At input) {count : Nat} (within : count ≤ input.length) :
    (buffer.skip count).At (input.drop count) := by
  unfold At ParseBuffer.skip
  rw [← List.drop_drop, here, List.drop_append_of_le_length within]

/-- Blanks are skipped up to the NUL, which is a blank itself but not left. -/
theorem At.bufferSkipWhitespace (here : buffer.At input) :
    buffer.bufferSkipWhitespace.At (Dialect.skipBlank input) ∧
      buffer.offset ≤ buffer.bufferSkipWhitespace.offset := by
  have length := here.length
  unfold ParseBuffer.bufferSkipWhitespace Dialect.skipBlank
  dsimp only
  rw [here]
  by_cases allBlank : ∀ byte ∈ input, byte ≤ 32
  · have whole : (input ++ [0]).takeWhile (fun byte => decide (byte ≤ 32)) = input ++ [0] := by
      rw [List.takeWhile_eq_self_iff]
      intro byte member
      rcases List.mem_append.mp member with inside | isNul
      · exact decide_eq_true (allBlank byte inside)
      · rw [List.mem_singleton.mp isNul]
        decide
    have none_ : input.dropWhile (fun byte => decide (byte ≤ 32)) = [] := by
      rw [List.dropWhile_eq_nil_iff]
      exact fun byte member => decide_eq_true (allBlank byte member)
    rw [whole, none_]
    have atEnd : (buffer.skip (input ++ [0]).length).offset =
        (buffer.skip (input ++ [0]).length).content.length := by
      simp only [ParseBuffer.skip, List.length_append, List.length_singleton]
      omega
    rw [if_pos atEnd]
    have offset : (buffer.skip (input ++ [0]).length).back.offset = buffer.offset + input.length := by
      simp only [ParseBuffer.skip, back, List.length_append, List.length_singleton]
      omega
    refine ⟨?_, by omega⟩
    unfold At
    rw [offset]
    exact drop_append here
  · obtain ⟨byte, member, notBlank⟩ : ∃ byte ∈ input, ¬byte ≤ 32 := by
      by_contra none_
      exact allBlank (fun byte member => by
        by_contra notBlank
        exact none_ ⟨byte, member, notBlank⟩)
    have front : (input ++ [0]).takeWhile (fun byte => decide (byte ≤ 32)) =
        input.takeWhile (fun byte => decide (byte ≤ 32)) := by
      rw [List.takeWhile_append, if_neg]
      intro whole
      have all := List.takeWhile_eq_self_iff.mp
        ((List.takeWhile_prefix _).eq_of_length whole) byte member
      exact notBlank (of_decide_eq_true all)
    have split := List.takeWhile_append_dropWhile (p := fun byte => decide (byte ≤ 32)) (l := input)
    have less : (input.takeWhile (fun byte => decide (byte ≤ 32))).length ≤ input.length :=
      (List.takeWhile_prefix _).length_le
    rw [front, if_neg]
    · refine ⟨?_, Nat.le_add_right _ _⟩
      have moved := here.skip less
      have left := @List.drop_left _ (input.takeWhile (fun byte => decide (byte ≤ 32)))
        (input.dropWhile (fun byte => decide (byte ≤ 32)))
      rw [split] at left
      rw [left] at moved
      exact moved
    · simp only [ParseBuffer.skip]
      omega

private theorem isPrefixOf_nul {literal : CText} (plain : 0 ∉ literal) (input : CText) :
    literal.isPrefixOf (input ++ [0]) = literal.isPrefixOf input := by
  induction literal generalizing input with
  | nil => simp
  | cons byte more ih =>
      obtain ⟨other, morePlain⟩ := not_or.mp (fun either => plain (List.mem_cons.mpr either))
      cases input with
      | nil =>
          have differs : (byte == 0) = false := by simpa using Ne.symm other
          simp [List.isPrefixOf, differs]
      | cons first rest =>
          simp only [List.cons_append, List.isPrefixOf, ih morePlain]

theorem At.startsWith (here : buffer.At input) {literal : CText} (plain : 0 ∉ literal) :
    buffer.startsWith literal = literal.isPrefixOf input := by
  unfold ParseBuffer.startsWith
  rw [here, isPrefixOf_nul plain]

private theorem bufferSkipWhitespace_eq (buffer : ParseBuffer) :
    buffer.bufferSkipWhitespace = buffer.moved buffer.bufferSkipWhitespace.offset := by
  unfold ParseBuffer.bufferSkipWhitespace
  dsimp only
  split <;> rfl

@[simp] theorem bufferSkipWhitespace_moved (offset : Nat) :
    buffer.bufferSkipWhitespace.moved offset = buffer.moved offset := by
  rw [bufferSkipWhitespace_eq]
  rfl

@[simp] theorem bufferSkipWhitespace_depth : buffer.bufferSkipWhitespace.depth = buffer.depth := by
  rw [bufferSkipWhitespace_eq]
  rfl

@[simp] theorem bufferSkipWhitespace_content :
    buffer.bufferSkipWhitespace.content = buffer.content := by
  rw [bufferSkipWhitespace_eq]
  rfl

@[simp] theorem skip_moved (count offset : Nat) :
    (buffer.skip count).moved offset = buffer.moved offset :=
  rfl

@[simp] theorem moved_moved (first offset : Nat) :
    (buffer.moved first).moved offset = buffer.moved offset :=
  rfl

end ParseBuffer

/-! ### Values that hold no others -/

section Values

variable {buffer : ParseBuffer} {input : CText}

private theorem reads_parseString (here : buffer.At (Json.quote :: input)) :
    Reads buffer id (Dialect.scanString input) (parseString buffer) := by
  have cases_ := parseString_eq here
  unfold Reads
  cases scanned : Dialect.scanString input with
  | none =>
      rw [scanned] at cases_
      exact cases_
  | some pair =>
      obtain ⟨value, behind⟩ := pair
      rw [scanned] at cases_
      obtain ⟨offset, done, left⟩ := cases_
      exact ⟨offset, done, left⟩

private theorem parseString_none (here : buffer.At input) (other : buffer.sees Json.quote = false) :
    ∃ failed, parseString buffer = .ok (none, failed) := by
  unfold parseString
  cases input with
  | nil =>
      rw [@peek_of_drop _ [] _ 0 here, overstep_bind_ok, if_pos (by decide)]
      exact ⟨_, rfl⟩
  | cons first rest =>
      have differs : first ≠ Json.quote := by
        intro same
        rw [here.sees_cons.mpr same] at other
        contradiction
      rw [peek_of_drop here, overstep_bind_ok, if_pos differs]
      exact ⟨_, rfl⟩

private theorem take_nul_takeWhile (input : CText) (count : Nat) :
    ((input ++ [0]).take count).takeWhile isNumeric = (input.take count).takeWhile isNumeric := by
  induction count generalizing input with
  | zero => rfl
  | succ count ih =>
      cases input with
      | nil =>
          rw [List.nil_append, List.take_succ_cons, List.take_nil, List.takeWhile_cons]
          rfl
      | cons first rest =>
          rw [List.cons_append, List.take_succ_cons, List.take_succ_cons, List.takeWhile_cons,
            List.takeWhile_cons, ih]

private theorem reads_parseNumber (here : buffer.At input) :
    Reads buffer id (Dialect.scanNumber input) buffer.parseNumber := by
  have content : buffer.content.drop buffer.offset = input ++ [0] := here
  unfold ParseBuffer.parseNumber Dialect.scanNumber
  rw [content, take_nul_takeWhile]
  have bound := Dialect.strtodLength_le ((input.take 63).takeWhile isNumeric)
  have copied := (List.takeWhile_prefix (l := input.take 63) isNumeric).length_le
  rw [List.length_take] at copied
  dsimp only
  generalize (input.take 63).takeWhile isNumeric = copy at bound copied ⊢
  by_cases none_ : strtodLength copy = 0
  · rw [if_pos none_, if_pos none_]
    exact ⟨buffer, rfl⟩
  · rw [if_neg none_, if_neg none_]
    exact ⟨buffer.offset + strtodLength copy, rfl, here.skip (by omega)⟩

/-- A node built of what has been read. -/
theorem Reads.build {α β γ : Type} {scanned : Option (α × CText)}
    {outcome : Except Overstep (Taken α)} (reads : Reads buffer id scanned outcome)
    (wrap : α → γ) (node : γ → β) :
    Reads buffer node (scanned.map (fun found => (wrap found.1, found.2)))
      (outcome >>= fun read => pure (read.1.map (fun value => node (wrap value)), read.2)) := by
  cases scanned with
  | none =>
      obtain ⟨failed, rfl⟩ := reads
      exact ⟨failed, rfl⟩
  | some pair =>
      obtain ⟨offset, rfl, left⟩ := reads
      exact ⟨offset, rfl, left⟩

private theorem reads_scalar (fuel : Nat) (name : Option CText) (here : buffer.At input)
    (flat : ∀ first ∈ input.head?, first ≠ Json.openBracket ∧ first ≠ Json.openBrace) :
    Reads buffer (CJson.ofJson numberInt name) (Dialect.scanScalar input)
      (parseValue (fuel + 1) name buffer) := by
  unfold parseValue Dialect.scanScalar
  rw [here.startsWith (by decide), here.startsWith (by decide), here.startsWith (by decide)]
  by_cases isNull : (text "null").isPrefixOf input = true
  · rw [if_pos isNull, if_pos isNull]
    exact ⟨buffer.offset + 4, rfl, here.skip (List.isPrefixOf_iff_prefix.mp isNull).length_le⟩
  rw [if_neg isNull, if_neg isNull]
  by_cases isFalse : (text "false").isPrefixOf input = true
  · rw [if_pos isFalse, if_pos isFalse]
    exact ⟨buffer.offset + 5, rfl, here.skip (List.isPrefixOf_iff_prefix.mp isFalse).length_le⟩
  rw [if_neg isFalse, if_neg isFalse]
  by_cases isTrue : (text "true").isPrefixOf input = true
  · rw [if_pos isTrue, if_pos isTrue]
    exact ⟨buffer.offset + 4, rfl, here.skip (List.isPrefixOf_iff_prefix.mp isTrue).length_le⟩
  rw [if_neg isTrue, if_neg isTrue]
  cases input with
  | nil =>
      have found : buffer.content[buffer.offset]? = some 0 := here.head?
      rw [here.sees_nil (by decide), here.sees_nil (by decide), here.sees_nil (by decide),
        here.sees_nil (by decide), found]
      exact ⟨buffer, rfl⟩
  | cons first rest =>
      have found : buffer.content[buffer.offset]? = some first := here.head?
      obtain ⟨notBracket, notBrace⟩ := flat first rfl
      dsimp only
      by_cases isQuote : first = Json.quote
      · subst isQuote
        rw [if_pos (here.sees_cons.mpr rfl), if_pos rfl]
        exact (reads_parseString here).build Json.string (CJson.ofJson numberInt name)
      rw [if_neg (fun seen => isQuote (here.sees_cons.mp seen)), if_neg isQuote]
      by_cases isNumber : first = Json.minus ∨ Json.isDigit first = true
      · have dispatches : buffer.sees Json.minus = true ∨
            (buffer.content[buffer.offset]?).any Json.isDigit = true := by
          rw [found]
          exact isNumber.imp here.sees_cons.mpr id
        rw [if_pos dispatches, if_pos isNumber]
        exact (reads_parseNumber here).build Json.number (CJson.ofJson numberInt name)
      · have passes : ¬(buffer.sees Json.minus = true ∨
            (buffer.content[buffer.offset]?).any Json.isDigit = true) := by
          rw [found]
          exact fun either => isNumber (either.imp here.sees_cons.mp id)
        rw [if_neg passes, if_neg isNumber, here.sees_false notBracket, here.sees_false notBrace]
        exact ⟨buffer, rfl⟩

end Values

/-! ### Arrays and objects -/

section Containers

variable {α : Type} {close : UInt8} {scan : CText → Option (α × CText)} {node : α → CJson}
  {parseItem : Parser CJson} {depth size : Nat}

/-- The items of texts up to a size are parsed as they are scanned. -/
def ReadsItems (depth size : Nat) (node : α → CJson) (scan : CText → Option (α × CText))
    (parseItem : Parser CJson) : Prop :=
  ∀ (buffer : ParseBuffer) (input : CText), buffer.At input → buffer.depth = depth →
    input.length ≤ size → Reads buffer node (scan input) (parseItem buffer)

/-- The loop over the items comes to the closing byte exactly when the scan does. -/
def ReadsList (close : UInt8) (buffer : ParseBuffer) (node : α → CJson)
    (scanned : Option (List α × CText)) (outcome : Except Overstep (Taken (List CJson))) : Prop :=
  match scanned with
  | none => ∃ read last, outcome = .ok (read, last) ∧ (read = none ∨ last.sees close = false)
  | some (items, left) =>
      ∃ offset, outcome = .ok (some (items.map node), buffer.moved offset) ∧
        (buffer.moved offset).At (close :: left)

private theorem reads_parseItems (advances : Dialect.Advances scan)
    (reads : ReadsItems depth size node scan parseItem) (solid : close ≠ 0) {count fuel : Nat}
    {buffer : ParseBuffer} {input : CText} (here : (buffer.skip 1).At input)
    (nested : buffer.depth = depth) (inSize : input.length ≤ size)
    (inCount : input.length ≤ count) (inFuel : input.length < fuel) :
    ReadsList close buffer node (Dialect.scanItems close scan count input)
      (parseItems parseItem fuel buffer) := by
  induction count generalizing fuel buffer input with
  | zero =>
      have isNil : input = [] := List.length_eq_zero_iff.mp (Nat.le_zero.mp inCount)
      subst isNil
      obtain ⟨fuel, rfl⟩ : ∃ less, fuel = less + 1 := ⟨fuel - 1, by omega⟩
      obtain ⟨blank, _⟩ := here.bufferSkipWhitespace
      have item := reads _ _ blank (by rw [ParseBuffer.bufferSkipWhitespace_depth]; exact nested)
        (by simp [Dialect.skipBlank])
      have nothing : scan (Dialect.skipBlank []) = none := by
        cases scanned : scan (Dialect.skipBlank []) with
        | none => rfl
        | some pair =>
            have less := advances _ pair.1 pair.2 scanned
            contradiction
      rw [nothing] at item
      obtain ⟨failed, done⟩ := item
      rw [Dialect.scanItems, parseItems, done]
      exact ⟨none, failed, rfl, .inl rfl⟩
  | succ count ih =>
      obtain ⟨fuel, rfl⟩ : ∃ less, fuel = less + 1 := ⟨fuel - 1, by omega⟩
      obtain ⟨blank, _⟩ := here.bufferSkipWhitespace
      have blankLe := Dialect.skipBlank_length input
      have item := reads _ _ blank (by rw [ParseBuffer.bufferSkipWhitespace_depth]; exact nested)
        (by omega)
      rw [Dialect.scanItems, parseItems]
      cases scanned : scan (Dialect.skipBlank input) with
      | none =>
          rw [scanned] at item
          obtain ⟨failed, done⟩ := item
          rw [done]
          exact ⟨none, failed, rfl, .inl rfl⟩
      | some pair =>
          obtain ⟨value, behind⟩ := pair
          have less := advances _ _ _ scanned
          rw [scanned] at item
          obtain ⟨offset, done, left⟩ := item
          simp only [ParseBuffer.bufferSkipWhitespace_moved, ParseBuffer.skip_moved] at done left
          obtain ⟨next, _⟩ := left.bufferSkipWhitespace
          have nextLe := Dialect.skipBlank_length behind
          simp only [done, overstep_bind_ok]
          cases following : Dialect.skipBlank behind with
          | nil =>
              rw [following] at next
              rw [next.sees_nil (by decide), if_neg (by decide)]
              exact ⟨_, _, rfl, .inr (next.sees_nil solid)⟩
          | cons first rest =>
              rw [following] at next nextLe
              rw [List.length_cons] at nextLe
              dsimp only
              by_cases isComma : first = Json.comma
              · rw [if_pos isComma, if_pos (next.sees_cons.mpr isComma)]
                have more := ih next.next (by rw [ParseBuffer.bufferSkipWhitespace_depth]; exact nested)
                  (by omega) (by omega)
                  (show rest.length < fuel by omega)
                unfold ReadsList at more
                cases scannedMore : Dialect.scanItems close scan count rest with
                | none =>
                    rw [scannedMore] at more
                    obtain ⟨read, last, doneMore, failed⟩ := more
                    rw [doneMore]
                    refine ⟨_, last, rfl, failed.imp_left ?_⟩
                    rintro rfl
                    rfl
                | some pair =>
                    obtain ⟨items, after⟩ := pair
                    rw [scannedMore] at more
                    obtain ⟨offset, doneMore, atClose⟩ := more
                    simp only [ParseBuffer.bufferSkipWhitespace_moved,
                      ParseBuffer.moved_moved] at doneMore atClose
                    rw [doneMore]
                    exact ⟨offset, rfl, atClose⟩
              · rw [if_neg isComma, if_neg (fun seen => isComma (next.sees_cons.mp seen))]
                by_cases isClose : first = close
                · subst isClose
                  rw [if_pos rfl]
                  rw [ParseBuffer.bufferSkipWhitespace_eq] at next
                  refine ⟨_, ?_, next⟩
                  rw [ParseBuffer.bufferSkipWhitespace_eq]
                  rfl
                · rw [if_neg isClose]
                  exact ⟨_, _, rfl, .inr (next.sees_false isClose)⟩

/-- The buffer behind a container has left its depth. -/
def ReadsContainer (buffer : ParseBuffer) (node : α → CJson)
    (scanned : Option (List α × CText)) (outcome : Except Overstep (Taken (List CJson))) : Prop :=
  match scanned with
  | none => ∃ failed, outcome = .ok (none, failed)
  | some (items, left) =>
      ∃ offset, outcome = .ok (some (items.map node),
          { buffer.moved offset with depth := buffer.depth - 1 }) ∧
        (buffer.moved offset).At left

private theorem reads_closeItems {buffer : ParseBuffer} {scanned : Option (List α × CText)}
    {outcome : Except Overstep (Taken (List CJson))}
    (list : ReadsList close buffer node scanned outcome) :
    ReadsContainer buffer node scanned (outcome >>= fun read => pure (closeItems close read)) := by
  cases scanned with
  | none =>
      obtain ⟨read, last, rfl, failed⟩ := list
      refine ⟨last, ?_⟩
      rw [overstep_bind_ok]
      cases read with
      | none => rfl
      | some items =>
          have unseen := failed.resolve_left (Option.some_ne_none items)
          rw [closeItems, if_neg (by rw [unseen]; decide)]
          rfl
  | some pair =>
      obtain ⟨items, left⟩ := pair
      obtain ⟨offset, rfl, atClose⟩ := list
      refine ⟨offset + 1, ?_, atClose.next⟩
      rw [overstep_bind_ok, closeItems, if_pos (atClose.sees_cons.mpr rfl)]
      rfl

private theorem back_skip {buffer : ParseBuffer} (positive : 1 ≤ buffer.offset) :
    buffer.back.skip 1 = buffer := by
  obtain ⟨content, offset, depth⟩ := buffer
  have same : offset - 1 + 1 = offset := Nat.sub_add_cancel positive
  simp [ParseBuffer.back, ParseBuffer.skip, same]

private theorem scanItems_skipBlank (count : Nat) (input : CText) :
    Dialect.scanItems close scan count (Dialect.skipBlank input) =
      Dialect.scanItems close scan count input := by
  cases count with
  | zero => rfl
  | succ count => rw [Dialect.scanItems, Dialect.scanItems, Dialect.skipBlank_skipBlank]

private theorem reads_parseContainer (advances : Dialect.Advances scan)
    (reads : ReadsItems depth size node scan parseItem) (solid : close ≠ 0)
    {buffer : ParseBuffer} {opening : UInt8} {input : CText} (here : buffer.At (opening :: input))
    (nested : buffer.depth = depth) (inSize : input.length ≤ size) :
    ReadsContainer buffer node (Dialect.scanContainer close scan input)
      (parseContainer close parseItem buffer) := by
  obtain ⟨opened, forward⟩ := here.next.bufferSkipWhitespace
  have blankLe := Dialect.skipBlank_length input
  have length := here.length
  rw [List.length_cons] at length
  have sameBuffer (offset : Nat) : (buffer.skip 1).bufferSkipWhitespace.back.moved offset =
      buffer.moved offset := by
    rw [ParseBuffer.bufferSkipWhitespace_eq]
    rfl
  have visible : (buffer.skip 1).bufferSkipWhitespace.canAccessAtIndex 0 = true := by
    unfold ParseBuffer.canAccessAtIndex
    exact decide_eq_true opened.inside
  have list : ReadsList close buffer node (Dialect.scanItems close scan input.length input)
      (parseItems parseItem buffer.content.length
        (buffer.skip 1).bufferSkipWhitespace.back) := by
    have entered : ((buffer.skip 1).bufferSkipWhitespace.back.skip 1).At
        (Dialect.skipBlank input) := by
      rw [back_skip ((Nat.le_add_left 1 buffer.offset).trans forward)]
      exact opened
    have depthSame : (buffer.skip 1).bufferSkipWhitespace.back.depth = depth := by
      rw [ParseBuffer.bufferSkipWhitespace_eq]
      exact nested
    have items := reads_parseItems advances reads solid entered depthSame (by omega) blankLe
      (show (Dialect.skipBlank input).length < buffer.content.length by omega)
    rw [scanItems_skipBlank] at items
    unfold ReadsList at items ⊢
    simp only [sameBuffer] at items
    exact items
  have closed := reads_closeItems list
  unfold parseContainer Dialect.scanContainer
  dsimp only
  rw [visible]
  cases next : Dialect.skipBlank input with
  | nil =>
      rw [next] at opened
      rw [opened.sees_nil solid, if_neg (by decide), if_neg (by decide)]
      have nothing : Dialect.scanItems close scan input.length input = none := by
        rw [← scanItems_skipBlank, next]
        cases input.length with
        | zero => rfl
        | succ count =>
            rw [Dialect.scanItems]
            cases scanned : scan (Dialect.skipBlank []) with
            | none => rfl
            | some pair =>
                have less := advances _ pair.1 pair.2 scanned
                contradiction
      rw [nothing] at closed
      exact closed
  | cons first rest =>
      rw [next] at opened
      dsimp only
      by_cases isClose : first = close
      · subst isClose
        rw [if_pos (opened.sees_cons.mpr rfl), if_pos rfl]
        have left := opened.next
        rw [ParseBuffer.bufferSkipWhitespace_eq] at left ⊢
        exact ⟨_, rfl, left⟩
      · rw [if_neg (fun seen => isClose (opened.sees_cons.mp seen)), if_neg isClose,
          if_neg (by decide)]
        exact closed

end Containers

section Nested

variable {scan : CText → Option (Json × CText)} {parseValue : Option CText → Parser CJson}
  {depth size : Nat}

private theorem reads_parseMember
    (reads : ∀ name, ReadsItems depth size (CJson.ofJson numberInt name) scan (parseValue name)) :
    ReadsItems depth size (CJson.ofMember numberInt) (Dialect.scanMember scan)
      (parseMember parseValue) := by
  intro buffer input here nested inSize
  unfold parseMember
  cases input with
  | nil =>
      obtain ⟨failed, done⟩ := parseString_none here (here.sees_nil (by decide))
      rw [done]
      exact ⟨failed, rfl⟩
  | cons first rest =>
      rw [Dialect.scanMember]
      by_cases isQuote : first = Json.quote
      · subst isQuote
        rw [if_pos rfl]
        have string := reads_parseString here
        cases named : Dialect.scanString rest with
        | none =>
            rw [named] at string
            obtain ⟨failed, done⟩ := string
            rw [done]
            exact ⟨failed, rfl⟩
        | some pair =>
            obtain ⟨name, behind⟩ := pair
            have nameLess := Dialect.advances_scanString _ _ _ named
            rw [named] at string
            obtain ⟨offset, done, left⟩ := string
            obtain ⟨next, _⟩ := left.bufferSkipWhitespace
            have nextLe := Dialect.skipBlank_length behind
            simp only [done, overstep_bind_ok, id_eq]
            cases following : Dialect.skipBlank behind with
            | nil =>
                rw [following] at next
                rw [next.sees_nil (by decide), if_neg (by decide)]
                exact ⟨_, rfl⟩
            | cons sign assigned =>
                rw [following] at next nextLe
                rw [List.length_cons] at nextLe inSize
                dsimp only
                by_cases isColon : sign = Json.colon
                · rw [if_pos isColon, if_pos (next.sees_cons.mpr isColon)]
                  obtain ⟨value, _⟩ := next.next.bufferSkipWhitespace
                  have valueLe := Dialect.skipBlank_length assigned
                  have read := reads (some (CText.untilNul name)) _ _ value
                    (by rw [ParseBuffer.bufferSkipWhitespace_depth]
                        exact (ParseBuffer.bufferSkipWhitespace_depth).trans nested)
                    (by omega)
                  cases scanned : scan (Dialect.skipBlank assigned) with
                  | none =>
                      rw [scanned] at read
                      obtain ⟨failed, valueDone⟩ := read
                      exact ⟨failed, valueDone⟩
                  | some pair =>
                      rw [scanned] at read
                      obtain ⟨last, valueDone, behindValue⟩ := read
                      simp only [ParseBuffer.bufferSkipWhitespace_moved, ParseBuffer.skip_moved,
                        ParseBuffer.moved_moved] at valueDone behindValue
                      exact ⟨last, valueDone, behindValue⟩
                · rw [if_neg isColon, if_neg (fun seen => isColon (next.sees_cons.mp seen))]
                  exact ⟨_, rfl⟩
      · rw [if_neg isQuote]
        obtain ⟨failed, done⟩ := parseString_none here (here.sees_false isQuote)
        rw [done]
        exact ⟨failed, rfl⟩

/-- A container read at the depth below gives its node at the depth it is at. -/
theorem ReadsContainer.node {α : Type} {buffer : ParseBuffer} {node : α → CJson}
    {scanned : Option (List α × CText)} {outcome : Except Overstep (Taken (List CJson))}
    (container : ReadsContainer { buffer with depth := buffer.depth + 1 } node scanned outcome)
    (type : CJsonType) (name : Option CText) {wrap : List α → Json}
    (isNode : ∀ items, CJson.ofJson numberInt name (wrap items) =
      .node type none 0 name (items.map node)) :
    Reads buffer (CJson.ofJson numberInt name)
      (scanned.map (fun found => (wrap found.1, found.2)))
      (outcome >>= fun read => pure (containerNode type name read)) := by
  cases scanned with
  | none =>
      obtain ⟨failed, rfl⟩ := container
      exact ⟨failed, rfl⟩
  | some pair =>
      obtain ⟨items, left⟩ := pair
      obtain ⟨offset, rfl, behind⟩ := container
      refine ⟨offset, ?_, behind⟩
      rw [isNode]
      rfl

end Nested

private theorem opens_of_not_flat {input : CText}
    (nested : ¬∀ first ∈ input.head?, first ≠ Json.openBracket ∧ first ≠ Json.openBrace) :
    ∃ first rest, input = first :: rest ∧
      (first = Json.openBracket ∨ first = Json.openBrace) := by
  cases input with
  | nil => exact absurd (fun first isFirst => by cases isFirst) nested
  | cons first rest =>
      refine ⟨first, rest, rfl, ?_⟩
      by_contra neither
      apply nested
      intro other isFirst
      cases isFirst
      exact not_or.mp neither

private theorem scanNested_of_flat {scan : CText → Option (Json × CText)} {input : CText}
    (flat : ∀ first ∈ input.head?, first ≠ Json.openBracket ∧ first ≠ Json.openBrace) :
    Dialect.scanNested scan input = none := by
  cases input with
  | nil => rfl
  | cons first rest =>
      obtain ⟨notBracket, notBrace⟩ := flat first rfl
      rw [Dialect.scanNested, if_neg notBracket, if_neg notBrace]

theorem scanScalar_open {first : UInt8} (rest : CText)
    (opens : first = Json.openBracket ∨ first = Json.openBrace) :
    Dialect.scanScalar (first :: rest) = none := by
  rcases opens with rfl | rfl <;> rfl

private theorem parseValue_open (fuel : Nat) (name : Option CText) {buffer : ParseBuffer} {first : UInt8}
    {rest : CText} (here : buffer.At (first :: rest))
    (opens : first = Json.openBracket ∨ first = Json.openBrace) :
    parseValue (fuel + 1) name buffer =
      if first = Json.openBracket then parseArray (parseValue fuel none) name buffer
      else parseObject (parseValue fuel) name buffer := by
  have found : buffer.content[buffer.offset]? = some first := here.head?
  have noDigit : ¬(buffer.sees Json.minus = true ∨
      (buffer.content[buffer.offset]?).any Json.isDigit = true) := by
    rw [found]
    rintro (seen | isDigit)
    · rw [here.sees_cons] at seen
      rcases opens with rfl | rfl <;> contradiction
    · rcases opens with rfl | rfl <;> contradiction
  have noQuote : ¬buffer.sees Json.quote = true := by
    rw [here.sees_cons]
    rcases opens with rfl | rfl <;> decide
  have literals : buffer.startsWith (text "null") = false ∧
      buffer.startsWith (text "false") = false ∧ buffer.startsWith (text "true") = false := by
    rw [here.startsWith (by decide), here.startsWith (by decide), here.startsWith (by decide)]
    rcases opens with rfl | rfl <;> exact ⟨rfl, rfl, rfl⟩
  unfold parseValue
  rw [literals.1, literals.2.1, literals.2.2, if_neg (by decide), if_neg (by decide),
    if_neg (by decide), if_neg noQuote, if_neg noDigit]
  rcases opens with rfl | rfl
  · rw [if_pos rfl, if_pos (here.sees_cons.mpr rfl)]
  · have noBracket : buffer.sees Json.openBracket = false := here.sees_false (by decide)
    rw [noBracket, if_neg (by decide), if_pos (here.sees_cons.mpr rfl), if_neg (by decide)]

private theorem reads_parseValue (limit : Nat) {fuel : Nat} {buffer : ParseBuffer} {input : CText}
    (name : Option CText) (here : buffer.At input) (nested : buffer.depth + limit = nestingLimit)
    (inFuel : input.length < fuel) :
    Reads buffer (CJson.ofJson numberInt name) (Dialect.scanValue limit input)
      (parseValue fuel name buffer) := by
  induction limit generalizing fuel buffer input name with
  | zero =>
      obtain ⟨fuel, rfl⟩ : ∃ less, fuel = less + 1 := ⟨fuel - 1, by omega⟩
      rw [Dialect.scanValue]
      by_cases flat : ∀ first ∈ input.head?, first ≠ Json.openBracket ∧ first ≠ Json.openBrace
      · exact reads_scalar fuel name here flat
      · obtain ⟨first, rest, rfl, opens⟩ := opens_of_not_flat flat
        have tooDeep : nestingLimit ≤ buffer.depth := by omega
        rw [parseValue_open fuel name here opens, scanScalar_open rest opens]
        unfold parseArray parseObject
        rw [if_pos tooDeep, if_pos tooDeep, ite_self]
        exact ⟨buffer, rfl⟩
  | succ limit ih =>
      obtain ⟨fuel, rfl⟩ : ∃ less, fuel = less + 1 := ⟨fuel - 1, by omega⟩
      rw [Dialect.scanValue]
      by_cases flat : ∀ first ∈ input.head?, first ≠ Json.openBracket ∧ first ≠ Json.openBrace
      · rw [scanNested_of_flat flat, Option.none_or]
        exact reads_scalar fuel name here flat
      · obtain ⟨first, rest, rfl, opens⟩ := opens_of_not_flat flat
        rw [List.length_cons] at inFuel
        have shallow : ¬nestingLimit ≤ buffer.depth := by omega
        have advances := Dialect.advances_scanValue limit
        have reads : ∀ name, ReadsItems (buffer.depth + 1) rest.length
            (CJson.ofJson numberInt name) (Dialect.scanValue limit) (parseValue fuel name) := by
          intro name inner text_ atText depth inSize
          exact ih name atText (by omega) (by omega)
        have deeper : ({ buffer with depth := buffer.depth + 1 } : ParseBuffer).At
            (first :: rest) := here
        rw [parseValue_open fuel name here opens, Dialect.scanNested, scanScalar_open rest opens,
          Option.or_none]
        by_cases isBracket : first = Json.openBracket
        · subst isBracket
          have solid : Json.closeBracket ≠ 0 := by decide
          have isNode (items : List Json) : CJson.ofJson numberInt name (.array items) =
              .node .array none 0 name (items.map (CJson.ofJson numberInt none)) := by
            rw [CJson.ofJson, CJson.ofItems_eq]
          have container := (reads_parseContainer advances (reads none) solid deeper rfl
            (le_refl _)).node .array name isNode
          rw [if_pos rfl, if_pos rfl]
          unfold parseArray
          dsimp only
          rw [if_neg shallow, peek_of_drop here, overstep_bind_ok, if_neg (fun other => other rfl)]
          exact container
        · have isBrace := opens.resolve_left isBracket
          subst isBrace
          have solid : Json.closeBrace ≠ 0 := by decide
          have isNode (members : List (CText × Json)) :
              CJson.ofJson numberInt name (.object members) =
                .node .object none 0 name (members.map (CJson.ofMember numberInt)) := by
            rw [CJson.ofJson, CJson.ofMembers_eq]
          have container := (reads_parseContainer (Dialect.advances_scanMember advances)
            (reads_parseMember reads) solid deeper rfl (le_refl _)).node .object name isNode
          rw [if_neg isBracket, if_neg isBracket, if_pos rfl]
          unfold parseObject
          dsimp only
          rw [if_neg shallow, if_pos (deeper.sees_cons.mpr rfl)]
          exact container

/-! ### Texts -/

private theorem errorPosition_le {length offset : Nat} (positive : 0 < length) :
    errorPosition length offset ≤ length - 1 := by
  unfold errorPosition
  split <;> omega

private theorem at_start (value : CText) :
    ({ content := value ++ [0], offset := 0, depth := 0 } : ParseBuffer).At value :=
  rfl

/-- The byte order mark is skipped in the buffer and in the text. -/
theorem ParseBuffer.At.skipUtf8Bom {buffer : ParseBuffer} {input : CText} (here : buffer.At input) :
    buffer.skipUtf8Bom.At (Dialect.skipBom input) ∧ buffer.skipUtf8Bom.depth = buffer.depth ∧
      buffer.skipUtf8Bom.content = buffer.content := by
  have length := here.length
  have marked : (buffer.canAccessAtIndex 4 = true ∧ buffer.startsWith [239, 187, 191] = true) ↔
      4 ≤ input.length ∧ [239, 187, 191].isPrefixOf input = true := by
    rw [here.startsWith (by decide)]
    unfold canAccessAtIndex
    rw [decide_eq_true_iff]
    refine and_congr_left (fun _ => ?_)
    omega
  unfold ParseBuffer.skipUtf8Bom Dialect.skipBom
  by_cases isMark : 4 ≤ input.length ∧ [239, 187, 191].isPrefixOf input = true
  · rw [if_pos (marked.mpr isMark), if_pos isMark]
    exact ⟨here.skip (by omega), rfl, rfl⟩
  · rw [if_neg (fun seen => isMark (marked.mp seen)), if_neg isMark]
    exact ⟨here, rfl, rfl⟩

private theorem skipBlank_head {input rest : CText} {first : UInt8}
    (blank : Dialect.skipBlank input = first :: rest) : first ≠ 0 := by
  rintro rfl
  unfold Dialect.skipBlank at blank
  have nonempty : input.dropWhile (fun byte => decide (byte ≤ 32)) ≠ [] := by
    rw [blank]
    exact List.cons_ne_nil _ _
  have stops := List.head_dropWhile_not (fun byte : UInt8 => decide (byte ≤ 32)) nonempty
  simp only [blank, List.head_cons] at stops
  contradiction

private theorem sees_nul_iff {buffer : ParseBuffer} {input : CText}
    (here : buffer.At (Dialect.skipBlank input)) :
    buffer.sees 0 = true ↔ Dialect.skipBlank input = [] := by
  cases blank : Dialect.skipBlank input with
  | nil =>
      rw [blank] at here
      unfold ParseBuffer.sees
      rw [here.head?]
      simp
  | cons first rest =>
      rw [blank] at here
      rw [here.sees_cons]
      simp [skipBlank_head blank]

/-- The buffer where the first value begins. -/
def startOf (value : CText) : ParseBuffer :=
  let buffer : ParseBuffer := { content := value ++ [0], offset := 0, depth := 0 }
  buffer.skipUtf8Bom.bufferSkipWhitespace

private theorem reads_scan (value : CText) :
    Reads (startOf value) (CJson.ofJson numberInt none) (Dialect.scan value)
      (parseValue (value ++ [0]).length none (startOf value)) := by
  obtain ⟨marked, depth, _⟩ := (at_start value).skipUtf8Bom
  obtain ⟨start, _⟩ := marked.bufferSkipWhitespace
  have short : (Dialect.skipBlank (Dialect.skipBom value)).length < (value ++ [0]).length := by
    have blank := Dialect.skipBlank_length (Dialect.skipBom value)
    have bom : (Dialect.skipBom value).length ≤ value.length := by
      unfold Dialect.skipBom
      split
      · rw [List.length_drop]
        omega
      · exact le_refl _
    rw [List.length_append, List.length_singleton]
    omega
  exact reads_parseValue nestingLimit none start
    (by rw [startOf, ParseBuffer.bufferSkipWhitespace_depth, depth, Nat.zero_add]) short

/-- `cJSON_Parse` is the parser of its dialect. -/
theorem cJsonParse_eq (value : CText) :
    cJsonParse value = .ok (CJson.parse numberInt Dialect.parse value) := by
  have read := reads_scan value
  unfold cJsonParse cJsonParseWithOpts CJson.parse Dialect.parse
  dsimp only
  cases scanned : Dialect.scan value with
  | none =>
      rw [scanned] at read
      obtain ⟨failed, done⟩ := read
      rw [startOf] at done
      rw [done]
      rfl
  | some pair =>
      rw [scanned] at read
      obtain ⟨offset, done, _⟩ := read
      rw [startOf] at done
      rw [done]
      rfl

/-- `cJSON_ParseWithOpts` stays inside its arrays and comes to an end on every
text.  It builds the tree of the document at the start of the text, unless it is
asked for nothing but blanks behind it and there is more; `return_parse_end` is
where the document ends. -/
theorem cJsonParseWithOpts_eq (value : CText) (requireNullTerminated : Bool) :
    ∃ parseEnd ≤ value.length,
      match Dialect.scan value with
      | none => cJsonParseWithOpts value requireNullTerminated = .ok (none, parseEnd)
      | some (document, left) =>
          if requireNullTerminated = true ∧ Dialect.skipBlank left ≠ [] then
            cJsonParseWithOpts value requireNullTerminated = .ok (none, parseEnd)
          else
            cJsonParseWithOpts value requireNullTerminated =
                .ok (some (CJson.ofJson numberInt none document), parseEnd) ∧
              value.drop parseEnd = if requireNullTerminated then [] else left := by
  have content := (at_start value).skipUtf8Bom.2.2
  have positive : 0 < (value ++ [0]).length := by simp
  have total : (value ++ [0]).length - 1 = value.length := by simp
  have read := reads_scan value
  unfold cJsonParseWithOpts
  dsimp only
  cases scanned : Dialect.scan value with
  | none =>
      rw [scanned] at read
      obtain ⟨failed, done⟩ := read
      rw [startOf] at done
      rw [done]
      exact ⟨_, total ▸ errorPosition_le positive, rfl⟩
  | some pair =>
      obtain ⟨document, left⟩ := pair
      rw [scanned] at read
      obtain ⟨offset, done, behind⟩ := read
      rw [startOf] at done behind
      rw [ParseBuffer.bufferSkipWhitespace_moved] at done behind
      have sameContent : ∀ last, (ParseBuffer.moved (ParseBuffer.skipUtf8Bom
          { content := value ++ [0], offset := 0, depth := 0 }) last).content = value ++ [0] :=
        fun _ => content
      have cut {last : Nat} {rest : CText} (there : (ParseBuffer.moved (ParseBuffer.skipUtf8Bom
          { content := value ++ [0], offset := 0, depth := 0 }) last).At rest) :
          last ≤ value.length ∧ value.drop last = rest := by
        have inside := there.inside
        rw [sameContent, List.length_append, List.length_singleton] at inside
        have bound : last ≤ value.length := Nat.le_of_lt_succ inside
        have dropped : (value ++ [0]).drop last = rest ++ [0] := by
          rw [← sameContent last]
          exact there
        rw [List.drop_append_of_le_length bound] at dropped
        exact ⟨bound, List.append_cancel_right dropped⟩
      obtain ⟨blank, _⟩ := behind.bufferSkipWhitespace
      rw [done, overstep_bind_ok]
      cases requireNullTerminated with
      | false =>
          obtain ⟨bound, rest⟩ := cut behind
          refine ⟨offset, bound, ?_⟩
          dsimp only
          rw [if_neg (fun both => absurd both.1 (by decide))]
          exact ⟨rfl, rest⟩
      | true =>
          have required : true = true := rfl
          dsimp only
          rw [if_pos required]
          by_cases more : Dialect.skipBlank left = []
          · have noMore : ¬(true = true ∧ Dialect.skipBlank left ≠ []) := fun both => both.2 more
            rw [if_pos ((sees_nul_iff blank).mpr more)]
            rw [more, ParseBuffer.bufferSkipWhitespace_eq, ParseBuffer.moved_moved] at blank
            obtain ⟨bound, rest⟩ := cut blank
            refine ⟨_, bound, ?_⟩
            rw [if_neg noMore]
            exact ⟨rfl, rest⟩
          · have someMore : true = true ∧ Dialect.skipBlank left ≠ [] := ⟨rfl, more⟩
            rw [if_neg (fun seen => more ((sees_nul_iff blank).mp seen))]
            generalize (ParseBuffer.bufferSkipWhitespace _).offset = position
            refine ⟨errorPosition (value ++ [0]).length position,
              total ▸ errorPosition_le positive, ?_⟩
            rw [if_pos someMore]
            rfl

end DlcServer
