/-
The texts cJSON takes for documents.

It reads more than JSON: any byte up to 32 is blank, strings may hold control
bytes, four digits of an escape that are no digits stand for zero, numbers are
what `strtod` takes, and nothing is asked of what follows the document.  It also
reads less: arrays and objects are nested at most 1000 deep, and of a number no
more than 63 bytes are looked at.
-/

import DlcServer.CJsonParser
import DlcServer.ParsedTree

namespace DlcServer

open Library

namespace Dialect

def skipBlank (input : CText) : CText :=
  input.dropWhile (fun byte => byte ≤ 32)

/-! ### Strings -/

/-- The bytes of a literal up to its closing quote, and what is behind it. -/
def literal : CText → Option (CText × CText)
  | [] => none
  | byte :: rest =>
      if byte = Json.quote then some ([], rest)
      else if byte = Json.backslash then
        match rest with
        | [] => none
        | escaped :: more =>
            (literal more).map (fun found => (byte :: escaped :: found.1, found.2))
      else (literal rest).map (fun found => (byte :: found.1, found.2))

/-- What the bytes behind a backslash stand for, and how many they are.  A
backslash that is left at the end of a literal takes the closing quote. -/
def escape : CText → Option (CText × Nat)
  | [] => some ([Json.quote], 1)
  | byte :: rest =>
      if byte = Json.letterU then
        if rest.length < 4 then none
        else
          let unit := (Json.hexFour rest).getD 0
          if 56320 ≤ unit ∧ unit ≤ 57343 then none
          else if 55296 ≤ unit ∧ unit ≤ 56319 then
            match Json.lowSurrogate (rest.drop 4) with
            | none => none
            | some low =>
                if 56320 ≤ low ∧ low ≤ 57343 then
                  some (Json.utf8 (65536 + (unit - 55296) * 1024 + (low - 56320)), 11)
                else none
          else some (Json.utf8 unit, 5)
      else (Json.shortEscape byte).map (fun value => ([value], 1))

/-- The string a literal stands for.  The first `skip` bytes belong to an escape
that has been read. -/
def decode : Nat → CText → Option CText
  | _, [] => some []
  | skip + 1, _ :: rest => decode skip rest
  | 0, byte :: rest =>
      if byte = Json.backslash then
        match escape rest with
        | none => none
        | some (value, length) => (decode length rest).map (value ++ ·)
      else (decode 0 rest).map (byte :: ·)

/-- A string behind its opening quote, and what is behind it. -/
def scanString (input : CText) : Option (CText × CText) :=
  match literal input with
  | none => none
  | some (inner, behind) => (decode 0 inner).map (fun value => (value, behind))

/-! ### Numbers -/

def scanNumber (input : CText) : Option (CText × CText) :=
  let copied := (input.take 63).takeWhile isNumeric
  let length := strtodLength copied
  if length = 0 then none else some (copied.take length, input.drop length)

/-! ### Documents -/

/-- Items set apart by commas, up to the closing byte, at most `count` of them. -/
def scanItems {α : Type} (close : UInt8) (scan : CText → Option (α × CText)) :
    Nat → CText → Option (List α × CText)
  | 0, _ => none
  | count + 1, input =>
      match scan (skipBlank input) with
      | none => none
      | some (item, behind) =>
          match skipBlank behind with
          | [] => none
          | first :: rest =>
              if first = Json.comma then
                (scanItems close scan count rest).map (fun found => (item :: found.1, found.2))
              else if first = close then some ([item], rest)
              else none

/-- What is between an opening byte and its closing one. -/
def scanContainer {α : Type} (close : UInt8) (scan : CText → Option (α × CText))
    (input : CText) : Option (List α × CText) :=
  match skipBlank input with
  | [] => none
  | first :: rest =>
      if first = close then some ([], rest)
      else scanItems close scan input.length input

def scanMember (scan : CText → Option (Json × CText)) :
    CText → Option ((CText × Json) × CText)
  | [] => none
  | first :: rest =>
      if first = Json.quote then
        match scanString rest with
        | none => none
        | some (name, named) =>
            match skipBlank named with
            | [] => none
            | sign :: assigned =>
                if sign = Json.colon then
                  (scan (skipBlank assigned)).map (fun found => ((name, found.1), found.2))
                else none
      else none

/-- A value that holds no others. -/
def scanScalar (input : CText) : Option (Json × CText) :=
  if (text "null").isPrefixOf input then some (.null, input.drop 4)
  else if (text "false").isPrefixOf input then some (.bool false, input.drop 5)
  else if (text "true").isPrefixOf input then some (.bool true, input.drop 4)
  else
    match input with
    | [] => none
    | first :: rest =>
        if first = Json.quote then
          (scanString rest).map (fun found => (.string found.1, found.2))
        else if first = Json.minus ∨ Json.isDigit first = true then
          (scanNumber input).map (fun found => (.number found.1, found.2))
        else none

/-- An array or object with values that `scan` reads. -/
def scanNested (scan : CText → Option (Json × CText)) : CText → Option (Json × CText)
  | [] => none
  | first :: rest =>
      if first = Json.openBracket then
        (scanContainer Json.closeBracket scan rest).map (fun found => (.array found.1, found.2))
      else if first = Json.openBrace then
        (scanContainer Json.closeBrace (scanMember scan) rest).map
          (fun found => (.object found.1, found.2))
      else none

/-- A value, with arrays and objects nested at most `limit` deep. -/
def scanValue : Nat → CText → Option (Json × CText)
  | 0, input => scanScalar input
  | limit + 1, input => (scanNested (scanValue limit) input).or (scanScalar input)

def skipBom (input : CText) : CText :=
  if 4 ≤ input.length ∧ [239, 187, 191].isPrefixOf input = true then input.drop 3 else input

/-- The document at the start of a text, and what is behind it. -/
def scan (input : CText) : Option (Json × CText) :=
  scanValue nestingLimit (skipBlank (skipBom input))

/-- The document `cJSON_Parse` takes a text for. -/
def parse (input : CText) : Option Json :=
  (scan input).map Prod.fst

end Dialect

end DlcServer
