/-
JSON documents over byte strings, and a parser for their texts.

Member order and repeated names are kept, and numbers stay the lexemes they were
written as, so that a reader may convert them as it likes.  Bytes from 128 on are
taken as they come.
-/

import DlcServer.Library.Text

namespace Library

inductive Json
  | null
  | bool (value : Bool)
  | number (lexeme : CText)
  | string (value : CText)
  | array (items : List Json)
  | object (members : List (CText × Json))

namespace Json

def quote : UInt8 := 34
def comma : UInt8 := 44
def minus : UInt8 := 45
def point : UInt8 := 46
def colon : UInt8 := 58
def openBracket : UInt8 := 91
def backslash : UInt8 := 92
def closeBracket : UInt8 := 93
def letterU : UInt8 := 117
def openBrace : UInt8 := 123
def closeBrace : UInt8 := 125

/-! ### Strings -/

def hexDigit (byte : UInt8) : Option Nat :=
  if 48 ≤ byte ∧ byte ≤ 57 then some (byte.toNat - 48)
  else if 65 ≤ byte ∧ byte ≤ 70 then some (byte.toNat - 55)
  else if 97 ≤ byte ∧ byte ≤ 102 then some (byte.toNat - 87)
  else none

def hexDigits : Nat → Nat → CText → Option Nat
  | 0, read, _ => some read
  | _ + 1, _, [] => none
  | count + 1, read, byte :: rest =>
      match hexDigit byte with
      | none => none
      | some digit => hexDigits count (16 * read + digit) rest

def hexFour (input : CText) : Option Nat :=
  hexDigits 4 0 input

def utf8 (point : Nat) : CText :=
  if point < 128 then [UInt8.ofNat point]
  else if point < 2048 then
    [UInt8.ofNat (192 + point / 64), UInt8.ofNat (128 + point % 64)]
  else if point < 65536 then
    [UInt8.ofNat (224 + point / 4096), UInt8.ofNat (128 + point / 64 % 64),
      UInt8.ofNat (128 + point % 64)]
  else
    [UInt8.ofNat (240 + point / 262144), UInt8.ofNat (128 + point / 4096 % 64),
      UInt8.ofNat (128 + point / 64 % 64), UInt8.ofNat (128 + point % 64)]

def shortEscape (byte : UInt8) : Option UInt8 :=
  if byte = quote ∨ byte = backslash ∨ byte = 47 then some byte
  else if byte = 98 then some 8
  else if byte = 102 then some 12
  else if byte = 110 then some 10
  else if byte = 114 then some 13
  else if byte = 116 then some 9
  else none

/-- The second escape of a surrogate pair. -/
def lowSurrogate : CText → Option Nat
  | first :: second :: rest =>
      if first = backslash ∧ second = letterU then hexFour rest else none
  | _ => none

/-- What the bytes behind a backslash stand for, and how many they are. -/
def escape : CText → Option (CText × Nat)
  | [] => none
  | byte :: rest =>
      if byte = letterU then
        match hexFour rest with
        | none => none
        | some unit =>
            if unit < 55296 ∨ 57344 ≤ unit then some (utf8 unit, 5)
            else
              match lowSurrogate (rest.drop 4) with
              | none => none
              | some low =>
                  if unit < 56320 ∧ 56320 ≤ low ∧ low < 57344 then
                    some (utf8 (65536 + (unit - 55296) * 1024 + (low - 56320)), 11)
                  else none
      else (shortEscape byte).map (fun value => ([value], 1))

/-- The string up to its closing quote, and what is behind it.  The first
`skip` bytes belong to an escape that has been read. -/
def scanString : Nat → CText → Option (CText × CText)
  | _, [] => none
  | skip + 1, _ :: rest => scanString skip rest
  | 0, byte :: rest =>
      if byte = quote then some ([], rest)
      else if byte = backslash then
        match escape rest with
        | none => none
        | some (value, length) =>
            (scanString length rest).map (fun found => (value ++ found.1, found.2))
      else if byte < 32 then none
      else (scanString 0 rest).map (fun found => (byte :: found.1, found.2))

/-! ### Numbers -/

def isDigit (byte : UInt8) : Bool :=
  48 ≤ byte && byte ≤ 57

/-- One digit at least, and what is behind the digits. -/
def scanDigits (input : CText) : Option (CText × CText) :=
  if input.takeWhile isDigit = [] then none
  else some (input.takeWhile isDigit, input.dropWhile isDigit)

/-- Digits without a leading zero. -/
def scanWhole (input : CText) : Option (CText × CText) := do
  let (digits, rest) ← scanDigits input
  if digits.head? = some 48 ∧ digits ≠ [48] then none
  else some (digits, rest)

def scanFraction : CText → Option (CText × CText)
  | [] => some ([], [])
  | first :: rest =>
      if first = point then
        (scanDigits rest).map (fun found => (point :: found.1, found.2))
      else some ([], first :: rest)

def scanExponent : CText → Option (CText × CText)
  | [] => some ([], [])
  | first :: rest =>
      if first = 101 ∨ first = 69 then
        match rest with
        | [] => none
        | sign :: digits =>
            if sign = 43 ∨ sign = minus then
              (scanDigits digits).map (fun found => (first :: sign :: found.1, found.2))
            else (scanDigits rest).map (fun found => (first :: found.1, found.2))
      else some ([], first :: rest)

def scanUnsigned (input : CText) : Option (CText × CText) := do
  let (whole, afterWhole) ← scanWhole input
  let (fraction, afterFraction) ← scanFraction afterWhole
  let (exponent, rest) ← scanExponent afterFraction
  some (whole ++ fraction ++ exponent, rest)

def scanNumber : CText → Option (CText × CText)
  | [] => none
  | first :: rest =>
      if first = minus then
        (scanUnsigned rest).map (fun found => (minus :: found.1, found.2))
      else scanUnsigned (first :: rest)

/-! ### Documents -/

def isSpace (byte : UInt8) : Bool :=
  byte == 32 || byte == 9 || byte == 10 || byte == 13

def skipSpace (input : CText) : CText :=
  input.dropWhile isSpace

/-- What is behind the next byte, which must be `byte`. -/
def token (byte : UInt8) (input : CText) : Option CText :=
  match skipSpace input with
  | [] => none
  | first :: rest => if first = byte then some rest else none

/-- Items set apart by commas, up to the closing byte, at most `count` of them. -/
def scanList {α : Type} (close : UInt8) (scan : CText → Option (α × CText)) :
    Nat → CText → Option (List α × CText)
  | 0, _ => none
  | count + 1, input =>
      match scan input with
      | none => none
      | some (item, behind) =>
          match token close behind with
          | some left => some ([item], left)
          | none =>
              match token comma behind with
              | none => none
              | some more =>
                  (scanList close scan count more).map
                    (fun found => (item :: found.1, found.2))

def scanMember (scan : CText → Option (Json × CText)) (input : CText) :
    Option ((CText × Json) × CText) := do
  let opened ← token quote input
  let (name, named) ← scanString 0 opened
  let assigned ← token colon named
  let (value, behind) ← scan assigned
  some ((name, value), behind)

/-- A value, nested no deeper than `fuel`, and what is behind it. -/
def scanValue : Nat → CText → Option (Json × CText)
  | 0, _ => none
  | fuel + 1, input =>
      match skipSpace input with
      | [] => none
      | first :: rest =>
          if first = quote then
            (scanString 0 rest).map (fun found => (.string found.1, found.2))
          else if first = openBracket then
            match token closeBracket rest with
            | some left => some (.array [], left)
            | none =>
                (scanList closeBracket (scanValue fuel) rest.length rest).map
                  (fun found => (.array found.1, found.2))
          else if first = openBrace then
            match token closeBrace rest with
            | some left => some (.object [], left)
            | none =>
                (scanList closeBrace (scanMember (scanValue fuel)) rest.length rest).map
                  (fun found => (.object found.1, found.2))
          else if (text "null").isPrefixOf (first :: rest) then some (.null, rest.drop 3)
          else if (text "true").isPrefixOf (first :: rest) then some (.bool true, rest.drop 3)
          else if (text "false").isPrefixOf (first :: rest) then some (.bool false, rest.drop 4)
          else (scanNumber (first :: rest)).map (fun found => (.number found.1, found.2))

/-- The document that a text is, from its first byte to its last.  No text nests
values deeper than it is long. -/
def parse (input : CText) : Option Json :=
  match scanValue input.length input with
  | none => none
  | some (value, rest) => if skipSpace rest = [] then some value else none

end Json

end Library
