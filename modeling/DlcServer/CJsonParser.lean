/-
cJSON's parser, as it goes over its buffer.

Every byte is read at an offset and every byte of a string is written into an
array that was allocated for it, so that an access outside either is a result of
its own.  The other way for a run to go wrong is to use up its fuel.  Allocations
are taken to succeed.
-/

import DlcServer.CJson
import DlcServer.Library.DecimalDouble
import DlcServer.Library.Memory

namespace DlcServer

open Library

/-- `content` is the text with its NUL; all callers set `length` to its length. -/
structure ParseBuffer where
  content : List UInt8
  offset : Nat
  depth : Nat

/-- The outcome of a parse function: what it has read unless it returned false,
and the buffer it leaves. -/
abbrev Taken (α : Type) := Option α × ParseBuffer

abbrev Parser (α : Type) := ParseBuffer → Except Overstep (Taken α)

namespace ParseBuffer

def canAccessAtIndex (buffer : ParseBuffer) (index : Nat) : Bool :=
  buffer.offset + index < buffer.content.length

def sees (buffer : ParseBuffer) (byte : UInt8) : Bool :=
  buffer.content[buffer.offset]? == some byte

def startsWith (buffer : ParseBuffer) (literal : CText) : Bool :=
  literal.isPrefixOf (buffer.content.drop buffer.offset)

def skip (buffer : ParseBuffer) (count : Nat) : ParseBuffer :=
  { buffer with offset := buffer.offset + count }

def back (buffer : ParseBuffer) : ParseBuffer :=
  { buffer with offset := buffer.offset - 1 }

def bufferSkipWhitespace (buffer : ParseBuffer) : ParseBuffer :=
  let blank := (buffer.content.drop buffer.offset).takeWhile (fun byte => byte ≤ 32)
  let skipped := buffer.skip blank.length
  if skipped.offset = skipped.content.length then skipped.back else skipped

def skipUtf8Bom (buffer : ParseBuffer) : ParseBuffer :=
  if buffer.canAccessAtIndex 4 ∧ buffer.startsWith [239, 187, 191] then buffer.skip 3
  else buffer

end ParseBuffer

/-! ### Strings -/

/-- The loop of `parse_hex4`, from the digit with `left` digits from it on. -/
def parseHex4Loop (content : List UInt8) :
    Nat → Nat → Nat → Except Overstep Nat
  | 0, _, h => .ok h
  | left + 1, position, h => do
      let byte ← peek content position
      match Json.hexDigit byte with
      | none => .ok 0
      | some digit =>
          parseHex4Loop content left (position + 1)
            (if left = 0 then h + digit else (h + digit) <<< 4)

def parseHex4 (content : List UInt8) (input : Nat) : Except Overstep Nat :=
  parseHex4Loop content 4 input 0

/-- The bytes of a code point behind the first one, from the last on, and what is
left of the code point then. -/
def utf8Continuation : Nat → Nat → CText → Nat × CText
  | 0, codepoint, written => (codepoint, written)
  | position + 1, codepoint, written =>
      utf8Continuation position (codepoint >>> 6)
        (UInt8.ofNat ((codepoint ||| 0x80) &&& 0xBF) :: written)

/-- A code point in UTF-8; `none` past 0x10FFFF. -/
def encodeUtf8 (codepoint : Nat) : Option CText :=
  if codepoint < 0x80 then some [UInt8.ofNat (codepoint &&& 0x7F)]
  else if codepoint < 0x800 then some (marked 1 0xC0)
  else if codepoint < 0x10000 then some (marked 2 0xE0)
  else if codepoint ≤ 0x10FFFF then some (marked 3 0xF0)
  else none
where
  marked (behind firstByteMark : Nat) : CText :=
    let (first, written) := utf8Continuation behind codepoint []
    UInt8.ofNat ((first ||| firstByteMark) &&& 0xFF) :: written

/-- The code of the second half of a surrogate pair; `none` for `fail`. -/
def secondHalf (content : List UInt8) (secondSequence inputEnd : Nat) :
    Except Overstep (Option Nat) :=
  if inputEnd < secondSequence + 6 then .ok none
  else do
    let first ← peek content secondSequence
    let second ← peek content (secondSequence + 1)
    if first ≠ Json.backslash ∨ second ≠ Json.letterU then return none
    else
      let secondCode ← parseHex4 content (secondSequence + 2)
      if secondCode < 0xDC00 ∨ 0xDFFF < secondCode then return none
      else return some secondCode

/-- `utf16_literal_to_utf8`: the bytes and the `sequence_length`, which is 0 in
C where it is `none` here. -/
def utf16LiteralToUtf8 (content : List UInt8) (firstSequence inputEnd : Nat) :
    Except Overstep (Option (CText × Nat)) :=
  if inputEnd < firstSequence + 6 then .ok none
  else do
    let firstCode ← parseHex4 content (firstSequence + 2)
    if 0xDC00 ≤ firstCode ∧ firstCode ≤ 0xDFFF then return none
    else if 0xD800 ≤ firstCode ∧ firstCode ≤ 0xDBFF then
      match ← secondHalf content (firstSequence + 6) inputEnd with
      | none => return none
      | some secondCode =>
          let codepoint := 0x10000 + (((firstCode &&& 0x3FF) <<< 10) ||| (secondCode &&& 0x3FF))
          return (encodeUtf8 codepoint).map (fun bytes => (bytes, 12))
    else return (encodeUtf8 firstCode).map (fun bytes => (bytes, 6))

/-- Bytes are written behind what an array of `capacity` bytes holds. -/
def push (capacity : Nat) (output bytes : CText) : Except Overstep CText :=
  if output.length + bytes.length ≤ capacity then .ok (output ++ bytes) else .error .write

/-- The loop through the string literal, from `position` to `inputEnd`; where it
is left for `fail`, the output is `none`. -/
def unescape (content : List UInt8) (inputEnd capacity : Nat) :
    Nat → Nat → CText → Except Overstep (Option CText × Nat)
  | 0, _, _ => .error .fuel
  | fuel + 1, position, output =>
      if position < inputEnd then do
        let byte ← peek content position
        if byte ≠ Json.backslash then
          let output ← push capacity output [byte]
          unescape content inputEnd capacity fuel (position + 1) output
        else
          let letter ← peek content (position + 1)
          if letter = Json.letterU then
            match ← utf16LiteralToUtf8 content position inputEnd with
            | none => return (none, position)
            | some (bytes, sequenceLength) =>
                let output ← push capacity output bytes
                unescape content inputEnd capacity fuel (position + sequenceLength) output
          else
            match Json.shortEscape letter with
            | none => return (none, position)
            | some decoded =>
                let output ← push capacity output [decoded]
                unescape content inputEnd capacity fuel (position + 2) output
      else .ok (some output, position)

/-- The search for the closing quote from `input_end` on: how far it is, and the
`skipped_bytes`. -/
def closingQuote : List UInt8 → Option (Nat × Nat)
  | [] => none
  | byte :: rest =>
      if byte = Json.quote then some (0, 0)
      else if byte = Json.backslash then
        match rest with
        | [] => none
        | _ :: more => (closingQuote more).map (fun found => (found.1 + 2, found.2 + 1))
      else (closingQuote rest).map (fun found => (found.1 + 1, found.2))

/-- `parse_string`: the bytes of the output up to its terminating NUL, of which
some may be NUL themselves. -/
def parseString (buffer : ParseBuffer) : Except Overstep (Taken CText) := do
  let opening ← peek buffer.content buffer.offset
  let inputPointer := buffer.offset + 1
  if opening ≠ Json.quote then return (none, { buffer with offset := inputPointer })
  else
    match closingQuote (buffer.content.drop inputPointer) with
    | none => return (none, { buffer with offset := inputPointer })
    | some (length, skippedBytes) =>
        let inputEnd := inputPointer + length
        let capacity := inputEnd - buffer.offset - skippedBytes + 1
        match ← unescape buffer.content inputEnd capacity (length + 1) inputPointer [] with
        | (none, position) => return (none, { buffer with offset := position })
        | (some output, _) =>
            let _ ← push capacity output [0]
            return (some output, { buffer with offset := inputEnd + 1 })

/-! ### Numbers -/

def isNumeric (byte : UInt8) : Bool :=
  Json.isDigit byte || byte == 43 || byte == Json.minus || byte == 101 || byte == 69 ||
    byte == Json.point

/-- How many bytes `strtod` takes from decimal digits, signs, points and the
letter of exponents. -/
def strtodLength (input : CText) : Nat :=
  let sign := if input.head? = some 43 ∨ input.head? = some Json.minus then 1 else 0
  let unsigned := input.drop sign
  let whole := unsigned.takeWhile Json.isDigit
  let behind := unsigned.drop whole.length
  let fraction :=
    if behind.head? = some Json.point then (behind.drop 1).takeWhile Json.isDigit else []
  let pointed := if behind.head? = some Json.point then fraction.length + 1 else 0
  if whole = [] ∧ fraction = [] then 0
  else sign + whole.length + pointed + exponentLength (behind.drop pointed)
where
  exponentLength : CText → Nat
    | [] => 0
    | letter :: rest =>
        if letter = 101 ∨ letter = 69 then
          let sign := if rest.head? = some 43 ∨ rest.head? = some Json.minus then 1 else 0
          let digits := (rest.drop sign).takeWhile Json.isDigit
          if digits = [] then 0 else 1 + sign + digits.length
        else 0

/-- The `int` kept of a number, which `strtod` reads to the nearest double. -/
def numberInt (lexeme : CText) : Int :=
  saturate (nearestDouble (decimalValue lexeme))

/-- `parse_number`: the bytes `strtod` has taken from the array of 64 bytes the
number is copied to. -/
def ParseBuffer.parseNumber (buffer : ParseBuffer) : Except Overstep (Taken CText) :=
  let copied := ((buffer.content.drop buffer.offset).take 63).takeWhile isNumeric
  let length := strtodLength copied
  if length = 0 then .ok (none, buffer)
  else .ok (some (copied.take length), buffer.skip length)

/-! ### Values -/

def nestingLimit : Nat := 1000

/-- The loop of `parse_array` and `parse_object` over what commas set apart,
entered one byte in front of the first item. -/
def parseItems (parseItem : Parser CJson) : Nat → Parser (List CJson)
  | 0, _ => .error .fuel
  | count + 1, buffer => do
      let (item, parsed) ← parseItem (buffer.skip 1).bufferSkipWhitespace
      match item with
      | none => return (none, parsed)
      | some item =>
          let behind := parsed.bufferSkipWhitespace
          if behind.sees Json.comma then
            let (more, last) ← parseItems parseItem count behind
            return (more.map (item :: ·), last)
          else return (some [item], behind)

def leave (behind : ParseBuffer) : ParseBuffer :=
  { behind with offset := behind.offset + 1, depth := behind.depth - 1 }

/-- What the loop has read ends in the closing byte. -/
def closeItems (close : UInt8) : Taken (List CJson) → Taken (List CJson)
  | (none, failed) => (none, failed)
  | (some items, behind) =>
      if behind.sees close then (some items, leave behind) else (none, behind)

def parseContainer (close : UInt8) (parseItem : Parser CJson) (buffer : ParseBuffer) :
    Except Overstep (Taken (List CJson)) := do
  let opened := (buffer.skip 1).bufferSkipWhitespace
  if opened.sees close then return (some [], leave opened)
  else if opened.canAccessAtIndex 0 = false then return (none, opened.back)
  else
    let read ← parseItems parseItem buffer.content.length opened.back
    return closeItems close read

def containerNode (type : CJsonType) (name : Option CText) : Taken (List CJson) → Taken CJson
  | (children, buffer) => (children.map (fun head => .node type none 0 name head), buffer)

def parseArray (parseItem : Parser CJson) (name : Option CText) (buffer : ParseBuffer) :
    Except Overstep (Taken CJson) :=
  if nestingLimit ≤ buffer.depth then .ok (none, buffer)
  else do
    let deeper := { buffer with depth := buffer.depth + 1 }
    let opening ← peek deeper.content deeper.offset
    if opening ≠ Json.openBracket then return (none, deeper)
    else
      let read ← parseContainer Json.closeBracket parseItem deeper
      return containerNode .array name read

/-- A member: its name, a colon and its value. -/
def parseMember (parseValue : Option CText → Parser CJson) (buffer : ParseBuffer) :
    Except Overstep (Taken CJson) := do
  match ← parseString buffer with
  | (none, failed) => return (none, failed)
  | (some name, named) =>
      let behind := named.bufferSkipWhitespace
      if behind.sees Json.colon then
        parseValue (some (CText.untilNul name)) (behind.skip 1).bufferSkipWhitespace
      else return (none, behind)

def parseObject (parseValue : Option CText → Parser CJson) (name : Option CText)
    (buffer : ParseBuffer) : Except Overstep (Taken CJson) :=
  if nestingLimit ≤ buffer.depth then .ok (none, buffer)
  else do
    let deeper := { buffer with depth := buffer.depth + 1 }
    if deeper.sees Json.openBrace then
      let read ← parseContainer Json.closeBrace (parseMember parseValue) deeper
      return containerNode .object name read
    else return (none, deeper)

/-- `parse_value` into a node that has nothing but its name yet. -/
def parseValue : Nat → Option CText → Parser CJson
  | 0, _, _ => .error .fuel
  | fuel + 1, name, buffer =>
      if buffer.startsWith (text "null") then
        .ok (some (.node .null none 0 name []), buffer.skip 4)
      else if buffer.startsWith (text "false") then
        .ok (some (.node .false none 0 name []), buffer.skip 5)
      else if buffer.startsWith (text "true") then
        .ok (some (.node .true none 1 name []), buffer.skip 4)
      else if buffer.sees Json.quote then do
        let (output, parsed) ← parseString buffer
        return (output.map (fun bytes =>
          .node .string (some (CText.untilNul bytes)) 0 name []), parsed)
      else if buffer.sees Json.minus ∨
          ((buffer.content[buffer.offset]?).any Json.isDigit) then do
        let (lexeme, parsed) ← buffer.parseNumber
        return (lexeme.map (fun lexeme => .node .number none (numberInt lexeme) name []), parsed)
      else if buffer.sees Json.openBracket then
        parseArray (parseValue fuel none) name buffer
      else if buffer.sees Json.openBrace then
        parseObject (parseValue fuel) name buffer
      else .ok (none, buffer)

def errorPosition (length offset : Nat) : Nat :=
  if offset < length then offset else length - 1

/-- `cJSON_ParseWithOpts`: the root unless the text is rejected, and the offset
of `return_parse_end`. -/
def cJsonParseWithOpts (value : CText) (requireNullTerminated : Bool) :
    Except Overstep (Option CJson × Nat) := do
  let buffer : ParseBuffer := { content := value ++ [0], offset := 0, depth := 0 }
  let length := buffer.content.length
  let (item, parsed) ← parseValue length none buffer.skipUtf8Bom.bufferSkipWhitespace
  match item with
  | none => return (none, errorPosition length parsed.offset)
  | some root =>
      if requireNullTerminated then
        let last := parsed.bufferSkipWhitespace
        if last.sees 0 then return (some root, last.offset)
        else return (none, errorPosition length last.offset)
      else return (some root, parsed.offset)

def cJsonParse (value : CText) : Except Overstep (Option CJson) := do
  let (root, _) ← cJsonParseWithOpts value false
  return root

end DlcServer
