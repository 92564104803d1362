/-
The request that is sent where a URL is posted to, and how it is read.

The same library writes requests and reads them.  What is written is one message
by the length it gives, and reading it gives back the method, the path, the query,
the headers and the data, however the stream is cut into pieces.
-/

import DlcServer.HttpDelivery
import DlcServer.MgUri

namespace DlcServer

open Library

/-! ### Writing -/

def base64Code (v : Nat) : UInt8 :=
  if v < 26 then UInt8.ofNat (v + 65)
  else if v < 52 then UInt8.ofNat (v - 26 + 97)
  else if v < 62 then UInt8.ofNat (v - 52 + 48)
  else if v - 62 = 0 then 43 else 47

/-- The characters of a chunk of `chunkSize` bytes, without the padding. -/
def base64Chunk (a b c : UInt8) (chunkSize : Nat) : CText :=
  [base64Code (a >>> 2).toNat, base64Code ((a &&& 3) <<< 4 ||| b >>> 4).toNat] ++
    (if 1 < chunkSize then [base64Code ((b &&& 15) <<< 2 ||| c >>> 6).toNat] else []) ++
    if 2 < chunkSize then [base64Code (c &&& 63).toNat] else []

/-- `cs_base64_update` and `cs_base64_finish`. -/
def csBase64 : CText → CText
  | [] => []
  | [a] => base64Chunk a 0 0 1 ++ [61, 61]
  | [a, b] => base64Chunk a b 0 2 ++ [61]
  | a :: b :: c :: more => base64Chunk a b c 3 ++ csBase64 more

/-- `mg_basic_auth_header` without a password. -/
def mgBasicAuthHeader (user : CText) : CText :=
  text "Authorization: Basic " ++ csBase64 user ++ [13, 10]

/-- `mg_connect_http_base`: the address, and the parts of the URL with the query in
the path.  There is none for a URL that is refused; the library is built without
SSL. -/
def mgConnectHttpBase (url : CText) : Except Overstep (Option (CText × UriParts)) := do
  match ← mgParseUri url with
  | none => return none
  | some parts =>
      let path :=
        if 0 < parts.query.len then { parts.path with len := parts.path.len + parts.query.len + 1 }
        else parts.path
      let scheme := parts.scheme.bytes url
      if scheme = [] ∨ scheme = text "http" then
        let port := if parts.port = 0 then 80 else parts.port
        return some (text "tcp://" ++ parts.host.bytes url ++ 58 :: text (toString port),
          { parts with path := path })
      else return none

inductive HttpConnect
  /-- There is no connection. -/
  | refused
  /-- Without a path, or a host, the length of the `Host` header is the difference
  of pointers into two strings. -/
  | unrelated
  | sent (address request : CText)
  deriving DecidableEq, Repr

/-- What `mg_connect_http_opt` prints. -/
def requestText (path host auth extraHeaders postData : CText) : CText :=
  (if postData = [] then text "GET" else text "POST") ++ 32 :: path ++
    text " HTTP/1.1\r\nHost: " ++ host ++ text "\r\nContent-Length: " ++
    text (toString postData.length) ++ [13, 10] ++ auth ++ extraHeaders ++ [13, 10] ++ postData

/-- `mg_connect_http_opt`, where the connection can be made. -/
def mgConnectHttp (url extraHeaders postData : CText) : Except Overstep HttpConnect := do
  match ← mgConnectHttpBase url with
  | none => return .refused
  | some (address, parts) =>
      let auth :=
        if 0 < parts.userInfo.len then mgBasicAuthHeader (parts.userInfo.bytes url) else []
      if parts.path.len = 0 ∨ parts.host.len = 0 then return .unrelated
      else
        let host := { parts.host with len := parts.path.p - parts.host.p }
        return .sent address
          (requestText (parts.path.bytes url) (host.bytes url) auth extraHeaders postData)

example : mgConnectHttp (text "http://192.168.0.2:8018/pkg/sta") [] (text "x") =
    .ok (.sent (text "tcp://192.168.0.2:8018") (text
      "POST /pkg/sta HTTP/1.1\r\nHost: 192.168.0.2:8018\r\nContent-Length: 1\r\n\r\nx")) := by
  rfl

/-! ### Header lines -/

def LineByte (byte : UInt8) : Prop :=
  HeadByte byte ∧ byte ≠ 13 ∧ byte ≠ 10

def WordByte (byte : UInt8) : Prop :=
  LineByte byte ∧ byte ≠ 32

private theorem wordByte_of_range {byte : UInt8} (low : 33 ≤ byte.toNat) (high : byte.toNat ≤ 126) :
    WordByte byte := by
  have apart (other : UInt8) (less : other.toNat < 33) : byte ≠ other := by
    rintro rfl
    omega
  refine ⟨⟨.inl ?_, apart 13 (by decide), apart 10 (by decide)⟩, apart 32 (by decide)⟩
  simp only [isPrint, Bool.and_eq_true, decide_eq_true_eq, UInt8.le_iff_toNat_le, UInt8.reduceToNat]
  omega

/-- Words that are fixed are looked through. -/
theorem words_of_all {word : CText}
    (all : word.all (fun byte => 33 ≤ byte.toNat && byte.toNat ≤ 126) = true) :
    ∀ byte ∈ word, WordByte byte := by
  intro byte member
  have range := List.all_eq_true.mp all byte member
  simp only [Bool.and_eq_true, decide_eq_true_eq] at range
  exact wordByte_of_range range.1 range.2

private theorem names_of_all {word : CText}
    (all : word.all (fun byte => 33 ≤ byte.toNat && byte.toNat ≤ 126) = true)
    (noColon : 58 ∉ word) : ∀ byte ∈ word, LineByte byte ∧ byte ∉ text ": " := by
  intro byte member
  obtain ⟨isLine, noBlank⟩ := words_of_all all byte member
  refine ⟨isLine, fun isSep => ?_⟩
  have cases_ : byte = 58 ∨ byte = 32 := by simpa [text] using isSep
  rcases cases_ with rfl | rfl
  · exact noColon member
  · exact noBlank rfl

/-- A header, by its name and its value. -/
structure HttpField where
  name : CText
  value : CText

namespace HttpField

def line (field : HttpField) : CText :=
  field.name ++ text ": " ++ field.value ++ [13, 10]

/-- A name and a value that are told apart. -/
structure Clear (field : HttpField) : Prop where
  name : ∀ byte ∈ field.name, LineByte byte ∧ byte ∉ text ": "
  named : field.name ≠ []
  value : ∀ byte ∈ field.value, LineByte byte
  begins : ∀ byte ∈ field.value.head?, byte ∉ text ": "
  valued : field.value ≠ []
  ends : field.value.getLast? ≠ some 32

/-- The name says nothing of the length of a message or of its parts. -/
def Plain (field : HttpField) : Prop :=
  ¬(text "content-length") <+: field.name.map CJson.tolower ∧
    field.name.map CJson.tolower ≠ text "transfer-encoding"

end HttpField

def fieldLines (fields : List HttpField) : CText :=
  (fields.map HttpField.line).flatten

/-! ### Reading a line -/

section Lines

variable {head body token stops rest : CText} {p : Nat}

private theorem mgSkip_token {delims : CText} (found : head.drop p = token ++ (stops ++ rest))
    (clean : ∀ byte ∈ token, isDelim delims byte = false)
    (each : ∀ byte ∈ stops, isDelim delims byte = true)
    (solid : ∀ byte ∈ rest.head?, isDelim delims byte = false)
    (closed : stops = [] → rest = []) :
    mgSkip (head ++ body) p head.length delims =
      (p + token.length + stops.length, { p := p, len := token.length }) := by
  have isToken : (head.drop p).takeWhile (fun byte => !isDelim delims byte) = token := by
    rw [found, List.takeWhile_append_of_pos (by simpa using clean)]
    cases stops with
    | nil => rw [closed rfl, List.append_nil, List.takeWhile_nil, List.append_nil]
    | cons stop others =>
        have isStop := each stop List.mem_cons_self
        rw [List.cons_append, List.takeWhile_cons_of_neg (by simp [isStop]), List.append_nil]
  have isStops : (head.drop (p + token.length)).takeWhile (isDelim delims) = stops := by
    rw [drop_behind found, List.takeWhile_append_of_pos each]
    cases rest with
    | nil => rw [List.takeWhile_nil, List.append_nil]
    | cons byte others =>
        rw [List.takeWhile_cons_of_neg (by simp [solid byte rfl]), List.append_nil]
  unfold mgSkip
  dsimp only
  rw [List.take_left, isToken, isStops]

theorem strUtilLowercase_sub_eq_zero {first second : UInt8} :
    strUtilLowercase first - strUtilLowercase second = 0 ↔
      CJson.tolower first = CJson.tolower second := by
  unfold strUtilLowercase
  rw [← UInt8.toNat_inj]
  omega

private theorem ownNames_apart : ∀ name ∈ [text "Content-Length", text "Transfer-Encoding"],
    ∀ byte ∈ name, byte ≠ 0 ∧ CJson.tolower byte ≠ CJson.tolower 58 := by
  decide +kernel

private theorem mgNcasecmp_name {buf name other : CText} {delim : UInt8}
    (found : buf.drop p = name ++ delim :: rest)
    (apart : ∀ byte ∈ other, byte ≠ 0 ∧ CJson.tolower byte ≠ CJson.tolower delim) :
    ∃ diff, mgNcasecmp buf other.length p other = .ok diff ∧
      (diff = 0 ↔ other.map CJson.tolower <+: name.map CJson.tolower) := by
  induction other generalizing p name with
  | nil => exact ⟨0, rfl, by simp⟩
  | cons second others ih =>
      rw [List.forall_mem_cons] at apart
      have isSecond : peek (second :: others ++ [0]) 0 = .ok second := rfl
      have here := getElem_here found
      rw [List.length_cons, mgNcasecmp]
      cases name with
      | nil =>
          have isFirst : peek buf p = .ok delim := peek_of_getElem here
          have differ : ¬strUtilLowercase delim - strUtilLowercase second = 0 :=
            fun same => apart.1.2 (strUtilLowercase_sub_eq_zero.mp same).symm
          rw [isFirst, overstep_bind_ok, isSecond, overstep_bind_ok]
          dsimp only
          rw [if_neg (fun both => differ both.1)]
          exact ⟨_, rfl, ⟨fun same => absurd same differ, fun isPrefix => by simp at isPrefix⟩⟩
      | cons first name =>
          have isFirst : peek buf p = .ok first := peek_of_getElem here
          rw [isFirst, overstep_bind_ok, isSecond, overstep_bind_ok]
          dsimp only
          rw [List.map_cons, List.map_cons, List.cons_prefix_cons]
          by_cases same : strUtilLowercase first - strUtilLowercase second = 0
          · have notNul : first ≠ 0 := by
              rintro rfl
              refine apart.1.1 (strUtilLowercase_eq_zero ?_)
              have zero : strUtilLowercase 0 = 0 := rfl
              omega
            have more : buf.drop (p + 1) = name ++ delim :: rest := by
              rw [← List.tail_drop, found]
              rfl
            obtain ⟨diff, compared, iff_⟩ := ih more apart.2
            rw [if_pos ⟨same, notNul⟩]
            exact ⟨diff, compared,
              iff_.trans (and_iff_right (strUtilLowercase_sub_eq_zero.mp same).symm).symm⟩
          · rw [if_neg (fun both => same both.1)]
            refine ⟨_, rfl, ⟨fun zero => absurd zero same, fun isPrefix => ?_⟩⟩
            have equal := strUtilLowercase_sub_eq_zero.mpr isPrefix.1.symm
            exact absurd equal same

/-! A header line that begins at `p`. -/

private theorem HeadByte.ne_zero {byte : UInt8} (isHead : HeadByte byte) : byte ≠ 0 := by
  rintro rfl
  revert isHead
  unfold HeadByte
  decide

private theorem isDelim_of_mem {delims : CText} : ∀ byte ∈ delims, isDelim delims byte = true := by
  intro byte member
  simp [isDelim, member]

theorem LineByte.noDelim {byte : UInt8} (isLine : LineByte byte) : isDelim [13, 10] byte = false := by
  obtain ⟨isHead, noReturn, noNewline⟩ := isLine
  simp [isDelim, isHead.ne_zero, noReturn, noNewline]

theorem LineByte.noColon {byte : UInt8} (isLine : LineByte byte) (noSep : byte ∉ text ": ") :
    isDelim (text ": ") byte = false := by
  simp [isDelim, isLine.1.ne_zero, noSep]

private theorem words_noBlank {word : CText} (words : ∀ byte ∈ word, WordByte byte) :
    ∀ byte ∈ word, isDelim [32] byte = false := by
  intro byte member
  obtain ⟨isLine, noBlank⟩ := words byte member
  simp [isDelim, isLine.1.ne_zero, noBlank]

/-- Where a header and its value lie that begin at `p`. -/
def HttpField.spot (field : HttpField) (p : Nat) : MgStr × MgStr :=
  ({ p := p, len := field.name.length },
    { p := p + field.name.length + 2, len := field.value.length })

variable {field : HttpField} {last len fuel : Nat} {hm : HttpMessage}

private theorem trimmed_whole {buf value : CText} {v : MgStr} (isValue : v.bytes buf = value)
    (long : v.len = value.length) (ends : value.getLast? ≠ some 32) : trimmed buf v = v := by
  have kept : value.rdropWhile (· == 32) = value := by
    rw [List.rdropWhile_eq_self_iff]
    intro some_ isBlank
    refine ends ?_
    rw [List.getLast?_eq_some_getLast some_, beq_iff_eq.mp isBlank]
  unfold trimmed
  rw [isValue, kept, ← long]

private theorem mgHttpParseHeaders_line (clear : field.Clear)
    (found : head.drop p = field.line ++ (stops ++ rest))
    (each : ∀ byte ∈ stops, isDelim [13, 10] byte = true)
    (solid : ∀ byte ∈ rest.head?, isDelim [13, 10] byte = false)
    (room : hm.headers.length < maxHttpHeaders - 1) :
    mgHttpParseHeaders (head ++ body) head.length len (fuel + 1) p hm =
      (contentLength (head ++ body) len (field.spot p).1 (field.spot p).2 hm >>= fun hm =>
        mgHttpParseHeaders (head ++ body) head.length len fuel
          (p + field.line.length + stops.length)
          { hm with headers := hm.headers ++ [field.spot p] }) := by
  have isName : head.drop p = field.name ++ (text ": " ++
      (field.value ++ (([13, 10] ++ stops) ++ rest))) := by
    rw [found]
    simp [HttpField.line]
  have name := @mgSkip_token head body _ _ _ p (text ": ") isName
    (fun byte member => (clear.name byte member).1.noColon (clear.name byte member).2)
    isDelim_of_mem
    (by
      intro byte isHead
      cases isValue : field.value with
      | nil => exact absurd isValue clear.valued
      | cons first others =>
          rw [isValue] at isHead
          cases isHead
          exact (clear.value byte (isValue ▸ List.mem_cons_self)).noColon
            (clear.begins byte (by rw [isValue]; rfl)))
    (fun nothing => by cases nothing)
  have isValue := drop_behind (drop_behind isName)
  have value := @mgSkip_token head body _ _ _ _ [13, 10] isValue
    (fun byte member => (clear.value byte member).noDelim)
    (by
      rw [List.forall_mem_append]
      exact ⟨isDelim_of_mem, each⟩)
    solid (fun nothing => by cases nothing)
  have two : (text ": ").length = 2 := rfl
  rw [two] at name value isValue
  have inHead : (head ++ body).drop (p + field.name.length + 2) = field.value ++
      (([13, 10] ++ stops) ++ rest ++ body) := by
    have inside := inside_of_drop isValue (List.append_ne_nil_of_left_ne_nil clear.valued _)
    rw [List.drop_append_of_le_length inside.le, isValue, List.append_assoc]
  have whole := trimmed_whole (bytes_here inHead) rfl clear.ends
  have nameLong := List.length_pos_iff.mpr clear.named
  have valueLong := List.length_pos_iff.mpr clear.valued
  have lineLong : field.line.length = field.name.length + 2 + field.value.length + 2 := by
    unfold HttpField.line
    simp only [List.length_append, List.length_cons, List.length_nil, two]
  have next : p + field.name.length + 2 + field.value.length + ([13, 10] ++ stops).length =
      p + field.line.length + stops.length := by
    rw [lineLong, List.length_append]
    simp only [List.length_cons, List.length_nil]
    omega
  have notEmpty : ¬(field.name.length ≠ 0 ∧ field.value.length = 0) := by omega
  have both : ¬(field.name.length = 0 ∨ field.value.length = 0) := by omega
  rw [mgHttpParseHeaders, if_pos room, name]
  dsimp only
  rw [value]
  dsimp only
  rw [whole, next]
  dsimp only
  rw [if_neg notEmpty, if_neg both]
  rfl

private theorem contentLength_plain {buf : CText} (plain : field.Plain)
    (found : buf.drop p = field.name ++ 58 :: rest) :
    contentLength buf len (field.spot p).1 (field.spot p).2 hm = .ok hm := by
  obtain ⟨diff, compared, iff_⟩ := @mgNcasecmp_name rest p buf field.name (text "Content-Length") 58
    found (ownNames_apart _ List.mem_cons_self)
  have compared : mgNcasecmp buf 14 p (text "Content-Length") = .ok diff := compared
  have differ : ¬diff = 0 := fun same => plain.1 (iff_.mp same)
  unfold contentLength HttpField.spot
  dsimp only
  rw [compared, overstep_bind_ok, if_neg differ]
  rfl

private theorem digitsValue_natural (n : Nat) : digitsValue (text (toString n)) = n := by
  have digit : ∀ last < 10, (Json.digitByte last).toNat - 48 = last := by decide
  induction n using Nat.strong_induction_on with
  | _ n ih =>
      by_cases small : n < 10
      · rw [Json.text_natural_small small]
        exact (Nat.zero_add _).trans (digit n small)
      · rw [Json.text_natural_large (by omega)]
        have front := ih (n / 10) (by omega)
        unfold digitsValue at front ⊢
        rw [List.foldl_append, front, List.foldl_cons, List.foldl_nil, digit (n % 10) (by omega)]
        omega

private theorem strtoll_natural {buf : CText} {n : Nat} {behind : UInt8}
    (found : buf.drop p = text (toString n) ++ behind :: rest)
    (ends : Json.isDigit behind = false) (small : n < 9223372036854775808) :
    strtoll buf p = .ok n := by
  obtain ⟨digit, digits, isText⟩ := List.exists_cons_of_ne_nil (Json.text_natural_ne_nil n)
  have isDigit := Json.text_natural_digits n digit (isText ▸ List.mem_cons_self)
  have solid : isSpace digit = false ∧ digit ≠ Json.minus ∧ digit ≠ 43 := by
    refine ⟨?_, ?_, ?_⟩
    · unfold Json.isDigit at isDigit
      unfold isSpace
      have range := (Bool.and_eq_true _ _).mp isDigit
      simp only [decide_eq_true_eq, UInt8.le_iff_toNat_le, UInt8.reduceToNat] at range
      simp only [Bool.or_eq_false_iff, Bool.and_eq_false_iff, beq_eq_false_iff_ne, ne_eq,
        decide_eq_false_iff_not, UInt8.le_iff_toNat_le, UInt8.reduceToNat, ← UInt8.toNat_inj]
      omega
    · rintro rfl
      contradiction
    · rintro rfl
      contradiction
  have here : buf[p]? = some digit := by
    rw [getElem_here found, isText]
    rfl
  have noBlanks : (buf.drop p).takeWhile isSpace = [] := by
    rw [found, isText, List.cons_append, List.takeWhile_cons_of_neg (by simp [solid.1])]
  have noMinus : (buf[p]? == some Json.minus) = false := by
    rw [here]
    simp [solid.2.1]
  have noPlus : ¬buf[p]? = some 43 := by
    rw [here]
    simp [solid.2.2]
  have number : (buf.drop p).takeWhile Json.isDigit = text (toString n) := by
    rw [found, List.takeWhile_append_of_pos (Json.text_natural_digits n),
      List.takeWhile_cons_of_neg (by simp [ends]), List.append_nil]
  have inside := inside_of_drop (drop_behind found) (List.cons_ne_nil _ _)
  have noSign : ¬(false = true ∨ buf[p]? = some 43) := by simp [noPlus]
  unfold strtoll
  dsimp only
  rw [noBlanks, List.length_nil, Nat.add_zero, noMinus]
  rw [if_neg noSign, Nat.add_zero, number, if_pos inside, digitsValue_natural,
    if_neg Bool.false_ne_true, min_eq_right (by omega), max_eq_right (by omega)]

/-- The header that gives the length of the data. -/
def lengthField (n : Nat) : HttpField where
  name := text "Content-Length"
  value := text (toString n)

private theorem contentLength_number {buf : CText} {n : Nat}
    (found : buf.drop p = (lengthField n).line ++ rest) (small : n < 9223372036854775808) :
    contentLength buf len ((lengthField n).spot p).1 ((lengthField n).spot p).2 hm =
      .ok { hm with
        body := { hm.body with len := n }
        message := { hm.message with len := sizeT (len + n) } } := by
  have isName : buf.drop p = text "Content-Length" ++ 58 :: (32 :: (text (toString n) ++
      [13, 10] ++ rest)) := by
    rw [found]
    simp [HttpField.line, lengthField, text]
  have isValue : buf.drop (p + 14 + 2) = text (toString n) ++ 13 :: (10 :: rest) := by
    have behind := @drop_behind buf (text "Content-Length: ") (text (toString n) ++ 13 :: (10 :: rest))
      p (by
        rw [found]
        simp [HttpField.line, lengthField, text])
    exact behind
  obtain ⟨diff, compared, iff_⟩ := @mgNcasecmp_name _ p buf _ (text "Content-Length") 58
    isName (ownNames_apart _ List.mem_cons_self)
  have compared : mgNcasecmp buf 14 p (text "Content-Length") = .ok diff := compared
  have same : diff = 0 := iff_.mpr (List.prefix_refl _)
  have number := strtoll_natural isValue (by decide) small
  have fits : sizeT (n : Int) = n := by
    unfold sizeT
    omega
  have long : (lengthField n).name.length = 14 := rfl
  unfold contentLength HttpField.spot
  dsimp only
  rw [compared, overstep_bind_ok, if_pos same, long, number, overstep_bind_ok, fits]
  rfl

private theorem HttpField.Clear.head_solid (clear : field.Clear) (more : CText) :
    ∀ byte ∈ (field.line ++ more).head?, LineByte byte := by
  intro byte isHead
  unfold HttpField.line at isHead
  cases isName : field.name with
  | nil => exact absurd isName clear.named
  | cons first others =>
      rw [isName] at isHead
      cases isHead
      exact (clear.name byte (isName ▸ List.mem_cons_self)).1

/-- Where the headers lie that begin at `p`, line after line. -/
def fieldSpots : Nat → List HttpField → List (MgStr × MgStr)
  | _, [] => []
  | p, field :: fields => field.spot p :: fieldSpots (p + field.line.length) fields

private theorem fieldLines_cons (field : HttpField) (fields : List HttpField) :
    fieldLines (field :: fields) ++ [13, 10] = field.line ++ (fieldLines fields ++ [13, 10]) := by
  unfold fieldLines
  rw [List.map_cons, List.flatten_cons, List.append_assoc]

private theorem fieldLines_behind (fields : List HttpField) (clear : ∀ field ∈ fields, field.Clear) :
    ∃ stops rest, fieldLines fields ++ [13, 10] = stops ++ rest ∧
      (∀ byte ∈ stops, isDelim [13, 10] byte = true) ∧
      (∀ byte ∈ rest.head?, isDelim [13, 10] byte = false) ∧
      (fields = [] → stops = [13, 10] ∧ rest = []) ∧ (fields ≠ [] → stops = []) := by
  cases fields with
  | nil =>
      exact ⟨[13, 10], [], rfl, isDelim_of_mem, fun _ isHead => absurd isHead (by simp),
        fun _ => ⟨rfl, rfl⟩, fun some_ => absurd rfl some_⟩
  | cons field fields =>
      rw [fieldLines_cons]
      refine ⟨[], _, rfl, fun _ member => absurd member List.not_mem_nil, ?_,
        fun none_ => absurd none_ (List.cons_ne_nil _ _), fun _ => rfl⟩
      intro byte isHead
      exact ((clear field List.mem_cons_self).head_solid _ byte isHead).noDelim

private theorem mgHttpParseHeaders_cons {fields : List HttpField}
    (clear : ∀ each ∈ field :: fields, each.Clear)
    (found : head.drop p = fieldLines (field :: fields) ++ [13, 10])
    (room : hm.headers.length < maxHttpHeaders - 1) :
    mgHttpParseHeaders (head ++ body) head.length len (fuel + 1) p hm =
      (contentLength (head ++ body) len (field.spot p).1 (field.spot p).2 hm >>= fun hm =>
        mgHttpParseHeaders (head ++ body) head.length len fuel
          (if fields = [] then head.length else p + field.line.length)
          { hm with headers := hm.headers ++ [field.spot p] }) := by
  rw [List.forall_mem_cons] at clear
  obtain ⟨stops, rest, behind, each, solid, whenNone, whenSome⟩ := fieldLines_behind fields clear.2
  have split : head.drop p = field.line ++ (fieldLines fields ++ [13, 10]) :=
    found.trans (fieldLines_cons field fields)
  have next : p + field.line.length + stops.length =
      if fields = [] then head.length else p + field.line.length := by
    split
    · next none_ =>
        have ended := congrArg List.length (drop_behind split)
        rw [none_, List.length_drop] at ended
        rw [(whenNone none_).1]
        simp [fieldLines] at ended ⊢
        omega
    · next some_ => rw [whenSome some_, List.length_nil, Nat.add_zero]
  rw [behind] at split
  rw [← next]
  exact mgHttpParseHeaders_line clear.1 split each solid room

private theorem line_in_buffer {fields : List HttpField}
    (found : head.drop p = fieldLines (field :: fields) ++ [13, 10]) :
    (head ++ body).drop p = field.line ++ (fieldLines fields ++ [13, 10] ++ body) := by
  have split := found.trans (fieldLines_cons field fields)
  have inside := inside_of_drop split (by simp [HttpField.line, text])
  rw [List.drop_append_of_le_length inside.le, split, List.append_assoc]

private theorem mgHttpParseHeaders_fields {fields : List HttpField}
    (clear : ∀ field ∈ fields, field.Clear) (plain : ∀ field ∈ fields, field.Plain)
    (found : head.drop p = fieldLines fields ++ [13, 10])
    (enough : fields.length < fuel) :
    mgHttpParseHeaders (head ++ body) head.length len fuel
        (if fields = [] then head.length else p) hm =
      .ok { hm with headers :=
        hm.headers ++ (fieldSpots p fields).take (maxHttpHeaders - 1 - hm.headers.length) } := by
  induction fields generalizing p fuel hm with
  | nil =>
      obtain ⟨fuel, rfl⟩ := Nat.exists_eq_succ_of_ne_zero (Nat.ne_of_gt (Nat.zero_lt_of_lt enough))
      have same : ({ hm with headers := hm.headers ++
          (fieldSpots p []).take (maxHttpHeaders - 1 - hm.headers.length) } : HttpMessage) = hm := by
        rw [fieldSpots, List.take_nil, List.append_nil]
      have nothing : head.drop head.length = [] ++ ([] ++ []) := List.drop_length
      have skip (delims : CText) := @mgSkip_token head body [] [] [] head.length delims nothing
        (fun _ member => absurd member List.not_mem_nil)
        (fun _ member => absurd member List.not_mem_nil) (fun _ isHead => by cases isHead)
        (fun _ => rfl)
      rw [same, if_pos rfl, mgHttpParseHeaders]
      split
      · rw [skip]
        dsimp only
        rw [if_neg (fun both => both.1 rfl), if_pos (.inl rfl)]
      · rfl
  | cons field fields ih =>
      obtain ⟨fuel, rfl⟩ := Nat.exists_eq_succ_of_ne_zero (Nat.ne_of_gt (Nat.zero_lt_of_lt enough))
      rw [List.length_cons] at enough
      rw [if_neg (List.cons_ne_nil _ _)]
      by_cases room : hm.headers.length < maxHttpHeaders - 1
      case neg =>
        have none_ : maxHttpHeaders - 1 - hm.headers.length = 0 := by omega
        rw [mgHttpParseHeaders, if_neg room, none_, List.take_zero, List.append_nil]
      have isLine := @line_in_buffer head body p field fields found
      have inBuf : (head ++ body).drop p = field.name ++ 58 :: (32 :: (field.value ++ [13, 10] ++
          (fieldLines fields ++ [13, 10] ++ body))) := by
        rw [isLine]
        simp [HttpField.line, text]
      have behind := drop_behind (found.trans (fieldLines_cons field fields))
      rw [mgHttpParseHeaders_cons clear found room]
      rw [List.forall_mem_cons] at clear plain
      have roomLeft : maxHttpHeaders - 1 - hm.headers.length =
          maxHttpHeaders - 1 - (hm.headers ++ [field.spot p]).length + 1 := by
        rw [List.length_append, List.length_singleton]
        omega
      have rest := @ih _ fuel { hm with headers := hm.headers ++ [field.spot p] } clear.2 plain.2
        behind (by omega)
      rw [contentLength_plain plain.1 inBuf, overstep_bind_ok, rest, fieldSpots, roomLeft,
        List.take_succ_cons, List.append_assoc]
      rfl

/-! Where the head ends. -/

private theorem EndsHead.after_token (each : ∀ byte ∈ token, HeadByte byte ∧ byte ≠ 10)
    (ends : EndsHead head rest) : EndsHead (token ++ head) rest := by
  induction token with
  | nil => exact ends
  | cons byte token ih =>
      rw [List.forall_mem_cons] at each
      exact .step each.1.1 (fun both => each.1.2 both.1) (ih each.2)

private theorem EndsHead.after_newline (ends : EndsHead head rest)
    (solid : ∀ byte ∈ head.head?, LineByte byte) : EndsHead (10 :: head) rest := by
  refine .step (.inr (.inr (.inl rfl))) ?_ ends
  rintro ⟨-, goesOn⟩
  cases head with
  | nil => cases ends
  | cons byte others =>
      obtain ⟨_, noReturn, noNewline⟩ := solid byte rfl
      rcases goesOn with newline | both
      · rw [List.isPrefixOf_iff_prefix, List.cons_append, List.cons_prefix_cons] at newline
        exact noNewline newline.1.symm
      · rw [List.isPrefixOf_iff_prefix, List.cons_append, List.cons_prefix_cons] at both
        exact noReturn both.1.symm

private theorem HttpField.Clear.line_bytes (clear : field.Clear) :
    ∃ front, field.line = front ++ [10] ∧ ∀ byte ∈ front, HeadByte byte ∧ byte ≠ 10 := by
  refine ⟨field.name ++ text ": " ++ field.value ++ [13], by simp [HttpField.line], ?_⟩
  simp only [List.forall_mem_append]
  refine ⟨⟨⟨fun byte member => ?_, ?_⟩, fun byte member => ?_⟩, ?_⟩
  · exact ⟨(clear.name byte member).1.1, (clear.name byte member).1.2.2⟩
  · exact List.forall_mem_cons.mpr ⟨⟨.inl rfl, by decide⟩,
      List.forall_mem_singleton.mpr ⟨.inl rfl, by decide⟩⟩
  · exact ⟨(clear.value byte member).1, (clear.value byte member).2.2⟩
  · exact List.forall_mem_singleton.mpr ⟨.inr (.inl rfl), by decide⟩

private theorem fieldLines_ends {fields : List HttpField} (clear : ∀ field ∈ fields, field.Clear)
    (some_ : fields ≠ []) : EndsHead (fieldLines fields ++ [13, 10]) rest := by
  induction fields with
  | nil => exact absurd rfl some_
  | cons field fields ih =>
      rw [List.forall_mem_cons] at clear
      obtain ⟨front, isLine, each⟩ := clear.1.line_bytes
      rw [fieldLines_cons, isLine, List.append_assoc]
      refine .after_token each ?_
      cases fields with
      | nil => exact .withReturn rest
      | cons next others =>
          refine .after_newline (ih clear.2 (List.cons_ne_nil _ _)) ?_
          rw [fieldLines_cons]
          exact (clear.2 next List.mem_cons_self).head_solid _

end Lines

/-! ### Reading a request -/

structure RequestParts where
  method : CText
  path : CText
  query : CText
  fields : List HttpField

namespace RequestParts

def target (parts : RequestParts) : CText :=
  parts.path ++ if parts.query = [] then [] else 63 :: parts.query

def head (parts : RequestParts) : CText :=
  parts.method ++ 32 :: (parts.target ++ 32 :: (text "HTTP/1.1" ++
    [13, 10] ++ (fieldLines parts.fields ++ [13, 10])))

/-- The parts of the first line are told apart, and the headers are. -/
structure Clear (parts : RequestParts) : Prop where
  method : ∀ byte ∈ parts.method, LineByte byte ∧ byte ≠ 32
  named : parts.method ≠ []
  path : ∀ byte ∈ parts.path, LineByte byte ∧ byte ≠ 32 ∧ byte ≠ 63
  rooted : parts.path ≠ []
  query : ∀ byte ∈ parts.query, LineByte byte ∧ byte ≠ 32
  fields : ∀ field ∈ parts.fields, field.Clear
  some_ : parts.fields ≠ []

/-- The message that is read is the one that was sent, with as many headers of it as
there is room for. -/
structure ReadAs (parts : RequestParts) (data buf : CText) (hm : HttpMessage) : Prop where
  method : hm.method.bytes buf = parts.method
  uri : hm.uri.bytes buf = parts.path
  queryString : hm.queryString.bytes buf = parts.query
  headers : hm.headers.map (fun header => (header.1.bytes buf, header.2.bytes buf)) =
    (parts.fields.take (maxHttpHeaders - 1)).map (fun field => (field.name, field.value))
  body : hm.body.bytes buf = data

variable {parts : RequestParts}

private theorem target_bytes (clear : parts.Clear) :
    (∀ byte ∈ parts.target, LineByte byte ∧ byte ≠ 32) ∧ parts.target ≠ [] := by
  unfold target
  refine ⟨?_, List.append_ne_nil_of_left_ne_nil clear.rooted _⟩
  rw [List.forall_mem_append]
  refine ⟨fun byte member => ⟨(clear.path byte member).1, (clear.path byte member).2.1⟩, ?_⟩
  split
  · exact fun _ member => absurd member List.not_mem_nil
  · rw [List.forall_mem_cons]
    exact ⟨wordByte_of_range (by decide) (by decide), clear.query⟩

private theorem head_ends (clear : parts.Clear) (rest : CText) : EndsHead parts.head rest := by
  have lines := @fieldLines_ends rest _ clear.fields clear.some_
  obtain ⟨field, fields, isFields⟩ := List.exists_cons_of_ne_nil clear.some_
  have split : parts.head = (parts.method ++ 32 :: (parts.target ++ 32 :: (text "HTTP/1.1" ++
      [13]))) ++ 10 :: (fieldLines parts.fields ++ [13, 10]) := by
    unfold head
    simp
  rw [split]
  refine .after_token ?_ (.after_newline lines ?_)
  · have words : ∀ byte ∈ text "HTTP/1.1", WordByte byte := words_of_all rfl
    have fixed : ∀ byte ∈ text "HTTP/1.1" ++ [13], HeadByte byte ∧ byte ≠ 10 := by
      rw [List.forall_mem_append, List.forall_mem_singleton]
      exact ⟨fun byte member => ⟨(words byte member).1.1, (words byte member).1.2.2⟩,
        .inr (.inl rfl), by decide⟩
    have blank : HeadByte 32 ∧ (32 : UInt8) ≠ 10 := ⟨.inl rfl, by decide⟩
    rw [List.forall_mem_append, List.forall_mem_cons, List.forall_mem_append, List.forall_mem_cons]
    exact ⟨fun byte member => ⟨(clear.method byte member).1.1, (clear.method byte member).1.2.2⟩,
      blank, fun byte member =>
        ⟨((target_bytes clear).1 byte member).1.1, ((target_bytes clear).1 byte member).1.2.2⟩,
      blank, fixed⟩
  · have solid := (clear.fields field (isFields ▸ List.mem_cons_self)).head_solid
      (fieldLines fields ++ [13, 10])
    rw [isFields, fieldLines_cons]
    exact solid

/-- Where the URI begins, the protocol, and the headers. -/
def uriAt (parts : RequestParts) : Nat :=
  parts.method.length + 1

def protoAt (parts : RequestParts) : Nat :=
  parts.uriAt + parts.target.length + 1

def fieldsAt (parts : RequestParts) : Nat :=
  parts.protoAt + 10

/-- The first line as it is found. -/
def lined (parts : RequestParts) (hm : HttpMessage) : HttpMessage :=
  { hm with
    method := { p := 0, len := parts.method.length }
    uri := { p := parts.uriAt, len := parts.path.length }
    proto := { p := parts.protoAt, len := 8 }
    queryString :=
      if parts.query = [] then hm.queryString
      else { p := parts.uriAt + parts.path.length + 1, len := parts.query.length } }

private theorem drop_uri (parts : RequestParts) :
    parts.head.drop parts.uriAt = parts.target ++ 32 :: (text "HTTP/1.1" ++
      [13, 10] ++ (fieldLines parts.fields ++ [13, 10])) := by
  have split : parts.head.drop 0 = (parts.method ++ [32]) ++ (parts.target ++
      32 :: (text "HTTP/1.1" ++ [13, 10] ++ (fieldLines parts.fields ++ [13, 10]))) := by
    unfold head
    simp
  have behind := drop_behind split
  rw [Nat.zero_add, List.length_append] at behind
  exact behind

private theorem drop_proto (parts : RequestParts) :
    parts.head.drop parts.protoAt = text "HTTP/1.1" ++
      ([13, 10] ++ (fieldLines parts.fields ++ [13, 10])) := by
  have split : parts.head.drop parts.uriAt = (parts.target ++ [32]) ++ (text "HTTP/1.1" ++
      ([13, 10] ++ (fieldLines parts.fields ++ [13, 10]))) := by
    rw [drop_uri]
    simp
  have behind := drop_behind split
  rw [List.length_append, ← Nat.add_assoc] at behind
  exact behind

private theorem drop_fields (parts : RequestParts) :
    parts.head.drop parts.fieldsAt = fieldLines parts.fields ++ [13, 10] :=
  drop_behind (drop_behind (drop_proto parts))

private theorem drop_in_buffer {head body rest : CText} {p : Nat} (found : head.drop p = rest)
    (some_ : rest ≠ []) : (head ++ body).drop p = rest ++ body := by
  rw [List.drop_append_of_le_length (inside_of_drop found some_).le, found]

private theorem takeWhile_target (clear : parts.Clear) :
    parts.target.takeWhile (· != 63) = parts.path := by
  unfold target
  rw [List.takeWhile_append_of_pos
    (fun byte member => bne_iff_ne.mpr (clear.path byte member).2.2)]
  split
  · rw [List.takeWhile_nil, List.append_nil]
  · rw [List.takeWhile_cons_of_neg (by decide), List.append_nil]

private theorem target_length (parts : RequestParts) : parts.target.length =
    parts.path.length + if parts.query = [] then 0 else parts.query.length + 1 := by
  unfold target
  rw [List.length_append]
  split
  · rfl
  · rw [List.length_cons]

/-! The three words of the first line. -/

private theorem skip_method (clear : parts.Clear) (body : CText) :
    mgSkip (parts.head ++ body) 0 parts.head.length [32] =
      (parts.uriAt, { p := 0, len := parts.method.length }) := by
  obtain ⟨targetClean, targetSome⟩ := target_bytes clear
  have method := @mgSkip_token parts.head body parts.method [32] _ 0 [32]
    (show parts.head.drop 0 = parts.method ++ ([32] ++ _) from rfl) (words_noBlank clear.method)
    isDelim_of_mem
    (by
      intro byte isHead
      cases isTarget : parts.target with
      | nil => exact absurd isTarget targetSome
      | cons first others =>
          rw [isTarget] at isHead
          cases isHead
          exact words_noBlank targetClean byte (isTarget ▸ List.mem_cons_self))
    (fun nothing => by cases nothing)
  rw [Nat.zero_add] at method
  exact method

private theorem skip_target (clear : parts.Clear) (body : CText) :
    mgSkip (parts.head ++ body) parts.uriAt parts.head.length [32] =
      (parts.protoAt, { p := parts.uriAt, len := parts.target.length }) :=
  @mgSkip_token parts.head body parts.target [32] _ parts.uriAt [32]
    (drop_uri parts) (words_noBlank (target_bytes clear).1) isDelim_of_mem
    (by
      intro byte isHead
      cases isHead
      decide)
    (fun nothing => by cases nothing)

private theorem skip_proto (clear : parts.Clear) (body : CText) :
    mgSkip (parts.head ++ body) parts.protoAt parts.head.length [13, 10] =
      (parts.fieldsAt, { p := parts.protoAt, len := 8 }) := by
  have words : ∀ byte ∈ text "HTTP/1.1", WordByte byte := words_of_all rfl
  exact @mgSkip_token parts.head body (text "HTTP/1.1") [13, 10] _ parts.protoAt [13, 10]
    (drop_proto parts) (fun byte member => (words byte member).1.noDelim) isDelim_of_mem
    (by
      intro byte isHead
      obtain ⟨field, fields, isFields⟩ := List.exists_cons_of_ne_nil clear.some_
      rw [isFields, fieldLines_cons] at isHead
      exact ((clear.fields field (isFields ▸ List.mem_cons_self)).head_solid _ byte isHead).noDelim)
    (fun nothing => by cases nothing)

private theorem requestLine_head (clear : parts.Clear) (body : CText) (hm : HttpMessage) :
    requestLine (parts.head ++ body) 0 parts.head.length hm =
      some (parts.fieldsAt, parts.lined hm) := by
  have uriBytes : ({ p := parts.uriAt, len := parts.target.length } : MgStr).bytes
      (parts.head ++ body) = parts.target := by
    have inBuf := @drop_in_buffer _ body _ _ (drop_uri parts)
      (List.append_ne_nil_of_left_ne_nil (target_bytes clear).2 _)
    rw [List.append_assoc] at inBuf
    exact bytes_here inBuf
  have long := parts.target_length
  have notBefore : ¬(parts.uriAt ≤ 0 ∨ parts.protoAt ≤ parts.uriAt) := by
    unfold protoAt uriAt
    omega
  unfold requestLine lined
  dsimp only
  rw [skip_method clear]
  dsimp only
  rw [skip_target clear]
  dsimp only
  rw [skip_proto clear]
  dsimp only
  rw [uriBytes, takeWhile_target clear, if_neg notBefore]
  by_cases none_ : parts.query = []
  · rw [if_pos none_] at long ⊢
    rw [if_neg (by omega), long]
    rfl
  · rw [if_neg none_] at long ⊢
    have queryLong : parts.target.length - (parts.path.length + 1) = parts.query.length := by omega
    rw [if_pos (by omega), queryLong]

private theorem fieldLines_length {fields : List HttpField} (clear : ∀ field ∈ fields, field.Clear) :
    fields.length ≤ (fieldLines fields).length := by
  induction fields with
  | nil => exact le_refl 0
  | cons field fields ih =>
      rw [List.forall_mem_cons] at clear
      have named := List.length_pos_iff.mpr clear.1.named
      have others := ih clear.2
      unfold fieldLines HttpField.line at others ⊢
      simp only [List.map_cons, List.flatten_cons, List.length_append, List.length_cons] at others ⊢
      omega

/-- What is found of a request with `n` bytes of data. -/
def parsed (parts : RequestParts) (n : Nat) : HttpMessage :=
  { parts.lined (.start parts.head.length) with
    message := { p := 0, len := sizeT (parts.head.length + n) }
    body := { p := parts.head.length, len := n }
    headers := (fieldSpots parts.fieldsAt parts.fields).take (maxHttpHeaders - 1) }

private theorem noBlanks_head (clear : parts.Clear) :
    (parts.head.takeWhile isSpace).length = 0 := by
  unfold head
  cases isMethod : parts.method with
  | nil => exact absurd isMethod clear.named
  | cons first others =>
      obtain ⟨isLine, noBlank⟩ := clear.method first (isMethod ▸ List.mem_cons_self)
      have solid : isSpace first = false := by
        have wide := first.toNat_lt
        have notBlank := mt UInt8.toNat_inj.mp noBlank
        have notReturn := mt UInt8.toNat_inj.mp isLine.2.1
        have notNewline := mt UInt8.toNat_inj.mp isLine.2.2
        unfold isSpace
        simp only [Bool.or_eq_false_iff, Bool.and_eq_false_iff, beq_eq_false_iff_ne, ne_eq,
          decide_eq_false_iff_not, UInt8.le_iff_toNat_le, UInt8.reduceToNat, ← UInt8.toNat_inj]
          at notBlank notReturn notNewline ⊢
        rcases isLine.1 with print | rfl | rfl | high
        · simp only [isPrint, Bool.and_eq_true, decide_eq_true_eq, UInt8.le_iff_toNat_le,
            UInt8.reduceToNat] at print
          omega
        · exact absurd rfl notReturn
        · exact absurd rfl notNewline
        · simp only [UInt8.le_iff_toNat_le, UInt8.reduceToNat] at high
          omega
      rw [List.cons_append, List.takeWhile_cons_of_neg (by simp [solid]), List.length_nil]

section Read

variable {host : HttpField} {more : List HttpField} {n : Nat}

private theorem mgHttpParseHeaders_request (clear : parts.Clear)
    (isFields : parts.fields = host :: lengthField n :: more) (plainHost : host.Plain)
    (plain : ∀ field ∈ more, field.Plain) (small : n < 9223372036854775808) (body : CText) :
    mgHttpParseHeaders (parts.head ++ body) parts.head.length parts.head.length
        (parts.head.length + 1) parts.fieldsAt (parts.lined (.start parts.head.length)) =
      .ok (parts.parsed n) := by
  have each := clear.fields
  have atFields := drop_fields parts
  rw [isFields] at each atFields
  have clearLater := (List.forall_mem_cons.mp each).2
  have behindHost := drop_behind (atFields.trans (fieldLines_cons _ _))
  have behindLength := drop_behind (behindHost.trans (fieldLines_cons _ _))
  have hostBuf : (parts.head ++ body).drop parts.fieldsAt = host.name ++ 58 :: (32 :: (host.value ++
      [13, 10] ++ (fieldLines (lengthField n :: more) ++ [13, 10] ++ body))) := by
    rw [line_in_buffer atFields]
    simp [HttpField.line, text]
  have lengthLine := @line_in_buffer parts.head body _ _ _ behindHost
  have fuel : ∃ k, parts.head.length + 1 = k + 1 + 1 ∧ more.length < k := by
    have long := congrArg List.length (drop_fields parts)
    have lines := fieldLines_length each
    rw [List.length_drop, List.length_append, isFields] at long
    rw [List.length_cons, List.length_cons] at lines
    have two : ([13, 10] : CText).length = 2 := rfl
    exact ⟨parts.head.length - 1, by omega, by omega⟩
  obtain ⟨k, isFuel, enough⟩ := fuel
  have none_ : (parts.lined (.start parts.head.length)).headers.length < maxHttpHeaders - 1 :=
    show 0 < maxHttpHeaders - 1 by decide
  have one : ((parts.lined (.start parts.head.length)).headers ++
      [host.spot parts.fieldsAt]).length < maxHttpHeaders - 1 :=
    show 1 < maxHttpHeaders - 1 by decide
  rw [isFuel, mgHttpParseHeaders_cons each atFields none_,
    contentLength_plain plainHost hostBuf, overstep_bind_ok, if_neg (List.cons_ne_nil _ _),
    mgHttpParseHeaders_cons clearLater behindHost one,
    contentLength_number lengthLine small, overstep_bind_ok]
  refine (mgHttpParseHeaders_fields (List.forall_mem_cons.mp clearLater).2 plain behindLength
    enough).trans ?_
  unfold parsed
  rw [isFields]
  rfl

private theorem mgParseHttp_request (clear : parts.Clear)
    (isFields : parts.fields = host :: lengthField n :: more) (plainHost : host.Plain)
    (plain : ∀ field ∈ more, field.Plain) (small : n < 9223372036854775808) (body : CText) :
    mgParseHttp (parts.head ++ body) true = .ok ((parts.head.length : Int), parts.parsed n) := by
  have line : firstLine (parts.head ++ body) true 0 parts.head.length =
      .ok (some (parts.fieldsAt, parts.lined (.start parts.head.length))) :=
    congrArg Except.ok (requestLine_head clear body _)
  have ended : ¬((parts.parsed n).body.len = sizeMax ∧ true = true) := by
    intro both
    have same : n = 18446744073709551615 := both.1
    omega
  rw [(head_ends clear body).parse true]
  unfold readHead
  rw [List.take_left, noBlanks_head clear]
  dsimp only
  rw [line, overstep_bind_ok]
  dsimp only
  rw [mgHttpParseHeaders_request clear isFields plainHost plain small, overstep_bind_ok]
  unfold bodyless
  rw [if_neg ended]
  rfl

end Read

end RequestParts

namespace RequestParts

variable {parts : RequestParts} {host : HttpField} {more : List HttpField}

private theorem fieldSpots_bytes {head body : CText} {p : Nat} {fields : List HttpField}
    (clear : ∀ field ∈ fields, field.Clear)
    (found : head.drop p = fieldLines fields ++ [13, 10]) :
    (fieldSpots p fields).map (fun header =>
        (header.1.bytes (head ++ body), header.2.bytes (head ++ body))) =
      fields.map (fun field => (field.name, field.value)) := by
  induction fields generalizing p with
  | nil => rfl
  | cons field fields ih =>
      rw [List.forall_mem_cons] at clear
      have inBuf := @line_in_buffer head body p field fields found
      have name : (head ++ body).drop p = field.name ++ (text ": " ++ (field.value ++ ([13, 10] ++
          (fieldLines fields ++ [13, 10] ++ body)))) := by
        rw [inBuf]
        simp [HttpField.line]
      have value := drop_behind (drop_behind name)
      have behind := drop_behind (found.trans (fieldLines_cons field fields))
      rw [fieldSpots, List.map_cons, List.map_cons, ih clear.2 behind]
      congr 2
      · exact bytes_here name
      · exact bytes_here value

/-- The message is found as it was put together, with all its data. -/
theorem parsed_readAs (clear : parts.Clear) (data behind : CText) :
    parts.ReadAs data (parts.head ++ (data ++ behind)) (parts.parsed data.length) := by
  have targetSome := (target_bytes clear).2
  have uriBuf := @drop_in_buffer _ (data ++ behind) _ _ (drop_uri parts)
    (List.append_ne_nil_of_left_ne_nil targetSome _)
  have start : (parts.head ++ (data ++ behind)).drop 0 = parts.method ++ (32 :: (parts.target ++
      32 :: (text "HTTP/1.1" ++ [13, 10] ++ (fieldLines parts.fields ++ [13, 10]))) ++
        (data ++ behind)) := by
    unfold head
    simp
  have path : (parts.head ++ (data ++ behind)).drop parts.uriAt = parts.path ++
      ((if parts.query = [] then [] else 63 :: parts.query) ++ (32 :: (text "HTTP/1.1" ++
        [13, 10] ++ (fieldLines parts.fields ++ [13, 10])) ++ (data ++ behind))) := by
    rw [uriBuf]
    unfold target
    simp only [List.append_assoc]
  exact {
    method := bytes_here start
    uri := bytes_here path
    queryString := by
      have behindPath := drop_behind path
      change (if parts.query = [] then MgStr.null else _ : MgStr).bytes _ = _
      by_cases none_ : parts.query = []
      · rw [if_pos none_, none_]
        exact MgStr.null_bytes _
      · rw [if_neg none_] at behindPath ⊢
        have isQuery := @drop_behind _ [63] _ _ behindPath
        exact bytes_here isQuery
    headers := by
      have each := @fieldSpots_bytes _ (data ++ behind) _ _ clear.fields (drop_fields parts)
      change ((fieldSpots parts.fieldsAt parts.fields).take (maxHttpHeaders - 1)).map _ = _
      rw [List.map_take, each, List.map_take]
    body := by
      have isData : (parts.head ++ (data ++ behind)).drop parts.head.length = data ++ behind :=
        List.drop_left
      exact bytes_here isData }

private theorem find_absent {head body : CText} {p : Nat} {fields : List HttpField}
    (found : head.drop p = fieldLines fields ++ [13, 10])
    (apart : ∀ field ∈ fields, field.name.map CJson.tolower ≠ text "transfer-encoding")
    (room : Nat) :
    mgGetHttpHeader.find (head ++ body) (text "Transfer-Encoding")
      ((fieldSpots p fields).take room) = .ok none := by
  induction fields generalizing p room with
  | nil =>
      rw [fieldSpots, List.take_nil]
      rfl
  | cons field fields ih =>
      rw [List.forall_mem_cons] at apart
      cases room with
      | zero => rfl
      | succ room =>
          have behind := ih (drop_behind (found.trans (fieldLines_cons field fields))) apart.2 room
          have name : (head ++ body).drop p = field.name ++ 58 :: (32 :: (field.value ++ [13, 10] ++
              (fieldLines fields ++ [13, 10] ++ body))) := by
            rw [line_in_buffer found]
            simp [HttpField.line, text]
          obtain ⟨diff, compared, iff_⟩ := @mgNcasecmp_name _ p (head ++ body) field.name
            (text "Transfer-Encoding") 58 name
            (ownNames_apart _ (List.mem_cons_of_mem _ List.mem_cons_self))
          rw [fieldSpots, List.take_succ_cons, mgGetHttpHeader.find]
          split
          · next sameLength =>
              have compared : mgNcasecmp (head ++ body) (text "Transfer-Encoding").length
                  (field.spot p).1.p (text "Transfer-Encoding") = .ok diff := compared
              have differ : ¬diff = 0 := by
                intro same
                have equal := (iff_.mp same).eq_of_length (by
                  rw [List.length_map, List.length_map]
                  exact sameLength.symm)
                exact apart.1 equal.symm
              rw [compared, overstep_bind_ok, if_neg differ, behind]
          · exact behind

private theorem lengthField_name (n : Nat) :
    (lengthField n).name.map CJson.tolower ≠ text "transfer-encoding" :=
  show (text "Content-Length").map CJson.tolower ≠ text "transfer-encoding" by decide +kernel

private theorem request_one (clear : parts.Clear) {data : CText}
    (isFields : parts.fields = host :: lengthField data.length :: more) (plainHost : host.Plain)
    (plain : ∀ field ∈ more, field.Plain)
    (short : parts.head.length ≤ maxHttpRequestSize)
    (small : data.length < 9223372036854775808) :
    OneMessage true (parts.head ++ data) parts.head.length (parts.parsed data.length) where
  parsed := mgParseHttp_request clear isFields plainHost plain small data
  headed := by
    have long := (head_ends clear []).headAt.long
    omega
  short := short
  plain := by
    have apart : ∀ field ∈ parts.fields,
        field.name.map CJson.tolower ≠ text "transfer-encoding" := by
      rw [isFields, List.forall_mem_cons, List.forall_mem_cons]
      exact ⟨plainHost.2, lengthField_name _, fun field member => (plain field member).2⟩
    have absent : mgGetHttpHeader (parts.head ++ data) (parts.parsed data.length)
        (text "Transfer-Encoding") = .ok none := find_absent (drop_fields parts) apart _
    unfold isChunked
    rw [absent]
    rfl
  whole := by
    change sizeT ((parts.head.length : Int) + data.length) = _
    unfold maxHttpRequestSize at short
    unfold sizeT
    rw [List.length_append]
    omega

end RequestParts

/-! ### From a URL to a message -/

namespace Url

variable {url : Url}

def hostField (url : Url) : HttpField where
  name := text "Host"
  value := url.host ++ url.portText

def authFields (url : Url) : List HttpField :=
  if url.userInfo.getD [] = [] then []
  else [{ name := text "Authorization", value := text "Basic " ++ csBase64 (url.userInfo.getD []) }]

/-- The request that a URL is posted to with, or got with where there are no data. -/
def request (url : Url) (extra : List HttpField) (postData : CText) : RequestParts where
  method := if postData = [] then text "GET" else text "POST"
  path := url.path
  query := url.query.getD []
  fields := url.hostField :: lengthField postData.length :: (url.authFields ++ extra)

/-- The address of the other end: by default the port is that of HTTP. -/
def address (url : Url) : CText :=
  text "tcp://" ++ url.host ++
    58 :: text (toString (if url.port.getD 0 = 0 then 80 else url.port.getD 0))

/-- A URL of HTTP, without a byte that ends a word or a line. -/
structure Sendable (url : Url) : Prop extends Url.Good url where
  http : ∀ scheme ∈ url.scheme, scheme = [] ∨ scheme = text "http"
  hosted : url.host ≠ []
  hostBytes : ∀ byte ∈ url.host, LineByte byte ∧ byte ≠ 32
  pathBytes : ∀ byte ∈ url.path, LineByte byte ∧ byte ≠ 32
  queryBytes : ∀ byte ∈ url.query.getD [], LineByte byte ∧ byte ≠ 32

private theorem target_spelled {out : UriParts} (spells : UriParts.Spells url out) :
    (if 0 < out.query.len then { out.path with len := out.path.len + out.query.len + 1 }
      else out.path : MgStr).bytes url.spelled =
      url.path ++ if url.query.getD [] = [] then [] else 63 :: url.query.getD [] := by
  have found : url.spelled.drop out.path.p =
      url.path ++ (url.queryText ++ url.fragmentText) := by
    rw [spells.hostToPath]
    refine drop_behind ?_
    rw [spells.fromHost]
    unfold authority rest
    simp only [List.append_assoc]
  obtain ⟨_, _, pathLen, queryLen⟩ := spells.lengths
  cases isQuery : url.query with
  | none =>
      rw [isQuery] at queryLen
      rw [if_neg (by rw [queryLen]; exact lt_irrefl 0)]
      exact spells.path.trans (List.append_nil _).symm
  | some query =>
      rw [isQuery] at queryLen
      have queryLen : out.query.len = query.length := queryLen
      change _ = url.path ++ if query = [] then [] else 63 :: query
      by_cases none_ : query = []
      · rw [if_pos none_, if_neg (by rw [queryLen, none_]; exact lt_irrefl 0)]
        exact spells.path.trans (List.append_nil _).symm
      · have long := List.length_pos_iff.mpr none_
        have split : url.spelled.drop out.path.p = (url.path ++ 63 :: query) ++ url.fragmentText := by
          rw [found]
          unfold queryText
          rw [isQuery, List.append_assoc]
          rfl
        have isLen : out.path.len + out.query.len + 1 = (url.path ++ 63 :: query).length := by
          rw [pathLen, queryLen, List.length_append, List.length_cons]
          omega
        rw [if_neg none_, if_pos (by omega), isLen]
        exact bytes_here split

private theorem hostField_spelled {out : UriParts} (spells : UriParts.Spells url out) :
    ({ out.host with len := out.path.p - out.host.p } : MgStr).bytes url.spelled =
      url.hostField.value := by
  have split : url.spelled.drop out.host.p = (url.host ++ url.portText) ++ url.rest := by
    rw [spells.fromHost, List.append_assoc]
    rfl
  rw [spells.hostToPath, Nat.add_sub_cancel_left]
  exact bytes_here split

private theorem authFields_spelled {out : UriParts} (spells : UriParts.Spells url out) :
    (if 0 < out.userInfo.len then mgBasicAuthHeader (out.userInfo.bytes url.spelled) else []) =
      fieldLines url.authFields := by
  obtain ⟨_, userLen, _, _⟩ := spells.lengths
  unfold authFields
  rw [spells.userInfo, userLen]
  by_cases none_ : url.userInfo.getD [] = []
  · rw [if_pos none_, none_]
    rfl
  · rw [if_neg none_, if_pos (List.length_pos_iff.mpr none_)]
    simp [mgBasicAuthHeader, fieldLines, HttpField.line, text]

private theorem mgConnectHttpBase_url (sendable : url.Sendable) :
    ∃ out, UriParts.Spells url out ∧
      mgConnectHttpBase url.spelled = .ok (some (url.address, { out with
        path :=
          if 0 < out.query.len then { out.path with len := out.path.len + out.query.len + 1 }
          else out.path })) := by
  obtain ⟨out, parsed, spells⟩ := mgParseUri_url sendable.toGood
  have scheme : out.scheme.bytes url.spelled = [] ∨ out.scheme.bytes url.spelled = text "http" := by
    rw [spells.scheme]
    cases isScheme : url.scheme with
    | none => exact .inl rfl
    | some scheme => exact sendable.http scheme isScheme
  refine ⟨out, spells, ?_⟩
  unfold mgConnectHttpBase
  rw [parsed, overstep_bind_ok]
  dsimp only
  rw [if_pos scheme, spells.host, spells.port]
  rfl

/-- What a URL is connected to and what is sent there. -/
theorem mgConnectHttp_request (sendable : url.Sendable) (extra : List HttpField)
    (postData : CText) :
    mgConnectHttp url.spelled (fieldLines extra) postData =
      .ok (.sent url.address ((url.request extra postData).head ++ postData)) := by
  obtain ⟨out, spells, base⟩ := mgConnectHttpBase_url sendable
  obtain ⟨_, _, pathLen, _⟩ := spells.lengths
  have pathLong : 0 < url.path.length := by
    refine List.length_pos_iff.mpr (fun none_ => ?_)
    have rooted := sendable.rooted
    rw [none_] at rooted
    cases rooted
  have hostSome : out.host.len ≠ 0 := by
    intro none_
    have isHost := spells.host
    unfold MgStr.bytes at isHost
    rw [none_, List.take_zero] at isHost
    exact sendable.hosted isHost.symm
  have pathSome : (if 0 < out.query.len
      then { out.path with len := out.path.len + out.query.len + 1 } else out.path : MgStr).len ≠
        0 := by
    split
    · exact Nat.succ_ne_zero _
    · omega
  have sameStart : (if 0 < out.query.len
      then { out.path with len := out.path.len + out.query.len + 1 } else out.path : MgStr).p =
        out.path.p := by
    split
    · rfl
    · rfl
  unfold mgConnectHttp
  rw [base, overstep_bind_ok]
  dsimp only
  rw [if_neg (fun either => either.elim pathSome hostSome), authFields_spelled spells,
    target_spelled spells, sameStart, hostField_spelled spells]
  refine congrArg (fun text => Except.ok (HttpConnect.sent url.address text)) ?_
  unfold requestText RequestParts.head RequestParts.target request hostField lengthField fieldLines
    HttpField.line
  simp [text]

end Url

section Words

private theorem wordByte_digit {byte : UInt8} (isDigit : Json.isDigit byte = true) : WordByte byte := by
  unfold Json.isDigit at isDigit
  simp only [Bool.and_eq_true, decide_eq_true_eq, UInt8.le_iff_toNat_le, UInt8.reduceToNat]
    at isDigit
  exact wordByte_of_range (by omega) (by omega)

private theorem wordByte_base64Code (v : Nat) : WordByte (base64Code v) := by
  have below : ∀ v < 62, WordByte (base64Code v) := by
    unfold WordByte LineByte HeadByte
    decide +kernel
  have last : WordByte 43 ∧ WordByte 47 :=
    ⟨wordByte_of_range (by decide) (by decide), wordByte_of_range (by decide) (by decide)⟩
  by_cases small : v < 62
  · exact below v small
  · unfold base64Code
    rw [if_neg (by omega), if_neg (by omega), if_neg small]
    split
    · exact last.1
    · exact last.2

private theorem wordByte_base64Chunk (a b c : UInt8) (chunkSize : Nat) :
    ∀ byte ∈ base64Chunk a b c chunkSize, WordByte byte := by
  unfold base64Chunk
  simp only [List.forall_mem_append, List.forall_mem_cons]
  refine ⟨⟨⟨wordByte_base64Code _, wordByte_base64Code _, fun _ member => by cases member⟩, ?_⟩, ?_⟩
  · split
    · exact List.forall_mem_singleton.mpr (wordByte_base64Code _)
    · exact fun _ member => absurd member List.not_mem_nil
  · split
    · exact List.forall_mem_singleton.mpr (wordByte_base64Code _)
    · exact fun _ member => absurd member List.not_mem_nil

private theorem csBase64_words (user : CText) : ∀ byte ∈ csBase64 user, WordByte byte := by
  have padding : WordByte 61 := wordByte_of_range (by decide) (by decide)
  induction user using csBase64.induct with
  | case1 => exact fun _ member => absurd member List.not_mem_nil
  | case2 a =>
      rw [csBase64, List.forall_mem_append, List.forall_mem_cons, List.forall_mem_singleton]
      exact ⟨wordByte_base64Chunk a 0 0 1, padding, padding⟩
  | case3 a b =>
      rw [csBase64, List.forall_mem_append, List.forall_mem_singleton]
      exact ⟨wordByte_base64Chunk a b 0 2, padding⟩
  | case4 a b c more ih =>
      rw [csBase64, List.forall_mem_append]
      exact ⟨wordByte_base64Chunk a b c 3, ih⟩

private theorem csBase64_ne_nil {user : CText} (some_ : user ≠ []) : csBase64 user ≠ [] := by
  match user with
  | [] => exact absurd rfl some_
  | [_] => exact List.cons_ne_nil _ _
  | [_, _] => exact List.cons_ne_nil _ _
  | _ :: _ :: _ :: _ => exact List.cons_ne_nil _ _

private theorem getLast_ne_blank {value : CText} (words : ∀ byte ∈ value, WordByte byte) :
    value.getLast? ≠ some 32 := by
  intro isLast
  exact (words 32 (List.mem_of_getLast? isLast)).2 rfl

private theorem HttpField.clear_of_word {field : HttpField}
    (name : ∀ byte ∈ field.name, LineByte byte ∧ byte ∉ text ": ") (named : field.name ≠ [])
    (words : ∀ byte ∈ field.value, WordByte byte) (valued : field.value ≠ [])
    (begins : field.value.head? ≠ some 58) : field.Clear where
  name := name
  named := named
  value := fun byte member => (words byte member).1
  begins := by
    intro byte isHead isSep
    have cases_ : byte = 58 ∨ byte = 32 := by simpa [text] using isSep
    rcases cases_ with rfl | rfl
    · exact begins isHead
    · exact (words 32 (List.mem_of_mem_head? isHead)).2 rfl
  valued := valued
  ends := getLast_ne_blank words

end Words

private theorem ownNames_plain : ∀ name ∈ [text "Host", text "Authorization"],
    ¬(text "content-length") <+: name.map CJson.tolower ∧
      name.map CJson.tolower ≠ text "transfer-encoding" := by
  decide +kernel

private theorem lengthField_clear (n : Nat) : (lengthField n).Clear := by
  refine HttpField.clear_of_word (names_of_all rfl (by simp [text, lengthField]))
    (List.cons_ne_nil _ _)
    (fun byte member => wordByte_digit (Json.text_natural_digits n byte member))
    (Json.text_natural_ne_nil n) ?_
  intro colon
  have isDigit := Json.text_natural_digits n 58 (List.mem_of_mem_head? colon)
  contradiction

namespace Url

variable {url : Url}

private theorem hostField_clear (sendable : url.Sendable) : url.hostField.Clear := by
  refine HttpField.clear_of_word (names_of_all rfl (by simp [text, hostField]))
    (List.cons_ne_nil _ _) ?_ (List.append_ne_nil_of_left_ne_nil sendable.hosted _) ?_
  · change ∀ byte ∈ url.host ++ url.portText, WordByte byte
    rw [List.forall_mem_append]
    refine ⟨sendable.hostBytes, ?_⟩
    unfold portText
    cases url.port with
    | none => exact fun _ member => absurd member List.not_mem_nil
    | some port =>
        change ∀ byte ∈ 58 :: text (toString port), WordByte byte
        rw [List.forall_mem_cons]
        exact ⟨wordByte_of_range (by decide) (by decide),
          fun byte member => wordByte_digit (Json.text_natural_digits port byte member)⟩
  · intro colon
    have isHead : url.host.head? = some 58 := by
      have same : (url.host ++ url.portText).head? = some 58 := colon
      rw [List.head?_append, List.head?_eq_some_head sendable.hosted] at same
      rw [List.head?_eq_some_head sendable.hosted]
      exact same
    cases sendable.host with
    | plain clean => exact clean 58 (List.mem_of_mem_head? isHead) (by simp [text])
    | bracketed inner isHost _ =>
        rw [isHost] at isHead
        cases isHead

private theorem authFields_clear (url : Url) :
    ∀ field ∈ url.authFields, field.Clear ∧ field.Plain := by
  intro field member
  unfold authFields at member
  split at member
  · cases member
  · next some_ =>
      rw [List.mem_singleton.mp member]
      have isBlank : LineByte 32 := ⟨.inl rfl, by decide, by decide⟩
      have prefix_ : ∀ byte ∈ text "Basic" ++ [32], LineByte byte := by
        rw [List.forall_mem_append, List.forall_mem_singleton]
        have words : ∀ byte ∈ text "Basic", WordByte byte := words_of_all rfl
        exact ⟨fun byte member => (words byte member).1, isBlank⟩
      exact ⟨{
        name := names_of_all rfl (by simp [text])
        named := List.cons_ne_nil _ _
        value := by
          rw [List.forall_mem_append]
          exact ⟨prefix_, fun byte isByte => (csBase64_words _ byte isByte).1⟩
        begins := by
          intro byte isHead
          cases isHead
          show (66 : UInt8) ∉ text ": "
          simp [text]
        valued := List.cons_ne_nil _ _
        ends := by
          rw [List.getLast?_append_of_ne_nil _ (csBase64_ne_nil some_)]
          exact getLast_ne_blank (csBase64_words _) },
        ownNames_plain (text "Authorization") (List.mem_cons_of_mem _ List.mem_cons_self)⟩

private theorem hostField_plain (url : Url) : url.hostField.Plain :=
  ownNames_plain (text "Host") List.mem_cons_self

end Url

theorem Url.request_clear {url : Url} (sendable : url.Sendable) {extra : List HttpField}
    (clear : ∀ field ∈ extra, field.Clear) (postData : CText) :
    (url.request extra postData).Clear where
  method := by
    unfold request
    dsimp only
    split
    · exact words_of_all rfl
    · exact words_of_all rfl
  named := by
    unfold request
    dsimp only
    split
    · exact List.cons_ne_nil _ _
    · exact List.cons_ne_nil _ _
  path := by
    intro byte member
    refine ⟨(sendable.pathBytes byte member).1, (sendable.pathBytes byte member).2, ?_⟩
    rintro rfl
    exact sendable.path 63 member (by simp [text])
  rooted := by
    intro none_
    have rooted := sendable.rooted
    have same : url.path = [] := none_
    rw [same] at rooted
    cases rooted
  query := sendable.queryBytes
  fields := by
    change ∀ field ∈ url.hostField :: lengthField postData.length :: (url.authFields ++ extra),
      field.Clear
    rw [List.forall_mem_cons, List.forall_mem_cons, List.forall_mem_append]
    exact ⟨hostField_clear sendable, lengthField_clear _,
      fun field member => (authFields_clear url field member).1, clear⟩
  some_ := List.cons_ne_nil _ _

theorem handedOver_whole {parts : RequestParts} (data : CText) :
    handedOver true (parts.head ++ data) [] parts.head.length (parts.parsed data.length) =
      { ev := .request, hm := parts.parsed data.length, buf := parts.head ++ data } := by
  unfold handedOver deliverChunk
  rw [List.append_nil, List.length_append, Nat.add_sub_cancel_left]
  rfl

/-- What is sent where a URL is posted to is one message. -/
theorem Url.posted_one {url : Url} (sendable : url.Sendable) {extra : List HttpField}
    (clear : ∀ field ∈ extra, field.Clear) (plain : ∀ field ∈ extra, field.Plain)
    {postData : CText} (small : postData.length < 9223372036854775808)
    (short : (url.request extra postData).head.length ≤ maxHttpRequestSize) :
    OneMessage true ((url.request extra postData).head ++ postData)
      (url.request extra postData).head.length
      ((url.request extra postData).parsed postData.length) := by
  have isPlain : ∀ field ∈ url.authFields ++ extra, field.Plain := by
    rw [List.forall_mem_append]
    exact ⟨fun field member => (url.authFields_clear field member).2, plain⟩
  exact RequestParts.request_one (request_clear sendable clear postData) rfl url.hostField_plain
    isPlain short small

/-- Where the program asks for a new package. -/
def pkgNewUrl : Url where
  scheme := some (text "http")
  userInfo := none
  host := text "192.168.0.2"
  port := some 8018
  path := text "/pkg/new"
  query := none
  fragment := none

def jsonContent : HttpField where
  name := text "Content-Type"
  value := text "application/json"

private theorem pkgNewUrl_bytes :
    (∀ byte ∈ text "http", byte ∉ text ":/[") ∧
      (∀ byte ∈ text "192.168.0.2", byte ∉ text ":/@[" ∧ LineByte byte ∧ byte ≠ 32) ∧
      ∀ byte ∈ text "/pkg/new", byte ∉ text "?#" ∧ LineByte byte ∧ byte ≠ 32 := by
  refine ⟨?_, fun byte member => ⟨?_, words_of_all rfl byte member⟩,
    fun byte member => ⟨?_, words_of_all rfl byte member⟩⟩
  · simp [text]
  · revert byte
    simp [text]
  · revert byte
    simp [text]

theorem pkgNewUrl_sendable : pkgNewUrl.Sendable where
  scheme := fun _ isScheme => by
    cases isScheme
    exact pkgNewUrl_bytes.1
  userInfo := fun _ isUser => by cases isUser
  host := .plain fun byte member => (pkgNewUrl_bytes.2.1 byte member).1
  port := fun _ isPort => by
    cases isPort
    norm_num
  path := fun byte member => (pkgNewUrl_bytes.2.2 byte member).1
  rooted := rfl
  query := fun _ isQuery => by cases isQuery
  http := fun _ isScheme => by
    cases isScheme
    exact .inr rfl
  hosted := List.cons_ne_nil _ _
  hostBytes := fun byte member => (pkgNewUrl_bytes.2.1 byte member).2
  pathBytes := fun byte member => (pkgNewUrl_bytes.2.2 byte member).2
  queryBytes := fun _ member => absurd member List.not_mem_nil

theorem jsonContent_fit :
    ((∀ byte ∈ jsonContent.name, LineByte byte ∧ byte ∉ text ": ") ∧
      (∀ byte ∈ jsonContent.value, WordByte byte) ∧ jsonContent.value.head? ≠ some 58) ∧
      ¬(text "content-length") <+: jsonContent.name.map CJson.tolower ∧
        jsonContent.name.map CJson.tolower ≠ text "transfer-encoding" := by
  refine ⟨⟨names_of_all rfl (by simp [text, jsonContent]), words_of_all rfl, ?_⟩, ?_⟩
  · simp [text, jsonContent]
  · decide +kernel

theorem jsonContent_clear : jsonContent.Clear :=
  HttpField.clear_of_word jsonContent_fit.1.1 (List.cons_ne_nil _ _) jsonContent_fit.1.2.1
    (List.cons_ne_nil _ _) jsonContent_fit.1.2.2

end DlcServer
