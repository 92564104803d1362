/-
URLs, as mongoose takes them apart.

The parser is a machine of six states that looks at the text from left to right
and goes back only where what it took for user information turns out to be the
host.  The text is a C string, so that the byte behind it is its NUL.
-/

import DlcServer.HttpHeads
import DlcServer.Library.JsonSplice
import DlcServer.Library.LengthPrefix

namespace DlcServer

open Library

/-- What `mg_parse_uri` finds. -/
structure UriParts where
  scheme : MgStr
  userInfo : MgStr
  host : MgStr
  port : Nat
  path : MgStr
  query : MgStr
  fragment : MgStr
  deriving DecidableEq, Repr

def UriParts.zero : UriParts where
  scheme := .null
  userInfo := .null
  host := .null
  port := 0
  path := .null
  query := .null
  fragment := .null

inductive UriState
  | start
  | schemeOrPort
  | userInfo
  | host
  | port
  | rest
  deriving DecidableEq, Repr

namespace UriState

def rank : UriState → Nat
  | .start => 0
  | .schemeOrPort => 1
  | .userInfo => 2
  | .host => 3
  | .port => 4
  | .rest => 5

end UriState

/-- The first byte of `seps` from `p` on, or the end. -/
def scanUri (uri : CText) (p : Nat) (seps : CText) : Nat :=
  p + ((uri.drop p).takeWhile (fun byte => !decide (byte ∈ seps))).length

/-- `parse_uri_component`: where it gets, and the component. -/
def parseUriComponent (uri : CText) (p : Nat) (seps : CText) : Nat × MgStr :=
  let stop := scanUri uri p seps
  (if stop < uri.length then stop + 1 else stop, { p := p, len := stop - p })

/-- `rport` with one more byte, as an `unsigned int`. -/
def portDigit (rport : Nat) (byte : UInt8) : Nat :=
  ((rport * 10 + (signedChar byte - 48)) % 4294967296).toNat

/-! The turns of the loop of `mg_parse_uri`, a state each. -/

/-- A state, where it is, and what has been found. -/
abbrev UriTurn := UriState × Nat × UriParts

def uriStart (uri : CText) (p : Nat) (out : UriParts) : UriTurn :=
  if uri[p]? = some 91 then (.host, p, out)
  else
    let stop := scanUri uri p (text ":/")
    if uri[stop]? = some 58 then (.schemeOrPort, stop, out)
    else
      (if uri[stop]? = some 47 then .rest else .start, stop,
        { out with host := { p := 0, len := stop } })

def uriSchemeOrPort (uri : CText) (p : Nat) (out : UriParts) : UriTurn :=
  if (uri.drop p).take 3 = text "://" then
    (.userInfo, p + 3, { out with scheme := { p := 0, len := p } })
  else (.port, p, { out with host := { p := 0, len := p } })

def uriUserInfo (uri : CText) (p : Nat) (out : UriParts) : UriTurn :=
  let found := scanUri uri p (text "@[/")
  -- without an `@` it is the host that has been found
  let stop := if uri[found]? = some 64 then found else p
  (.host, stop, { out with userInfo := { p := p, len := stop - p } })

/-- Where the host that begins at `p` ends, which an open bracket may hide. -/
def uriHostEnd (uri : CText) (p : Nat) : Option Nat :=
  if uri[p]? = some 91 then
    let bracket := scanUri uri p (text "]")
    if bracket < uri.length then some (bracket + 1) else none
  else some (scanUri uri p (text ":/"))

def uriHost (uri : CText) (p : Nat) (out : UriParts) : Option UriTurn :=
  let start := if uri[p]? = some 64 then p + 1 else p
  match uriHostEnd uri start with
  | none => none
  | some stop =>
      some (if uri[stop]? = some 58 then .port else if uri[stop]? = some 47 then .rest else .host,
        stop, { out with host := { p := start, len := stop - start } })

def uriPort (uri : CText) (p : Nat) (out : UriParts) : UriTurn :=
  let stop := scanUri uri (p + 1) (text "/")
  (if uri[stop]? = some 47 then .rest else .port, stop,
    { out with port := ((uri.take stop).drop (p + 1)).foldl portDigit out.port })

/-- The query, where the path has ended at a question mark. -/
def uriQuery (uri : CText) (p : Nat) (query : MgStr) : Nat × MgStr :=
  if p < uri.length ∧ uri[p - 1]? = some 63 then parseUriComponent uri p (text "#") else (p, query)

def uriRest (uri : CText) (p : Nat) (out : UriParts) : UriTurn :=
  let (behindPath, path) := parseUriComponent uri p (text "?#")
  let (behindQuery, query) := uriQuery uri behindPath out.query
  let (last, fragment) := parseUriComponent uri behindQuery []
  (.rest, last, { out with path := path, query := query, fragment := fragment })

/-- A turn, which may give up. -/
def uriStep (uri : CText) (p : Nat) (out : UriParts) : UriState → Option UriTurn
  | .start => some (uriStart uri p out)
  | .schemeOrPort => some (uriSchemeOrPort uri p out)
  | .userInfo => some (uriUserInfo uri p out)
  | .host => uriHost uri p out
  | .port => some (uriPort uri p out)
  | .rest => some (uriRest uri p out)

def uriLoop (uri : CText) : Nat → UriState → Nat → UriParts → Except Overstep (Option UriParts)
  | 0, _, _, _ => .error .fuel
  | fuel + 1, state, p, out =>
      if p < uri.length then
        match uriStep uri p out state with
        | none => .ok none
        | some (state, p, out) => uriLoop uri fuel state p out
      else .ok (some out)

def mgParseUri (uri : CText) : Except Overstep (Option UriParts) :=
  uriLoop uri (6 * uri.length + 6) .start 0 .zero

example : (mgParseUri (text "http://192.168.0.2:8018/pkg/new")) = .ok (some {
    scheme := ⟨0, 4⟩, userInfo := ⟨7, 0⟩, host := ⟨7, 11⟩, port := 8018, path := ⟨23, 8⟩,
    query := ⟨0, 0⟩, fragment := ⟨31, 0⟩ }) := by
  rfl

/-! ### Every text is taken apart -/

section Scan

variable {uri : CText} {p : Nat}

private theorem scanUri_ge (uri : CText) (p : Nat) (seps : CText) : p ≤ scanUri uri p seps :=
  Nat.le_add_right _ _

private theorem scanUri_le (inside : p ≤ uri.length) (seps : CText) : scanUri uri p seps ≤ uri.length := by
  have short := (List.takeWhile_prefix (l := uri.drop p)
    (fun byte => !decide (byte ∈ seps))).length_le
  rw [List.length_drop] at short
  unfold scanUri
  omega

private theorem scanUri_found {seps : CText} (less : scanUri uri p seps < uri.length) :
    ∃ byte ∈ seps, uri[scanUri uri p seps]? = some byte := by
  have stops := (takeWhile_stops (fun byte => !decide (byte ∈ seps)) (uri.drop p)).2
  unfold scanUri at less ⊢
  generalize ((uri.drop p).takeWhile (fun byte => !decide (byte ∈ seps))).length = found
    at less stops ⊢
  obtain ⟨byte, isByte, sep⟩ := stops (by rw [List.length_drop]; omega)
  rw [List.getElem?_drop] at isByte
  exact ⟨byte, by simpa using sep, isByte⟩

private theorem parseUriComponent_within (inside : p ≤ uri.length) (seps : CText) :
    p ≤ (parseUriComponent uri p seps).1 ∧ (parseUriComponent uri p seps).1 ≤ uri.length ∧
      (parseUriComponent uri p seps).2.p + (parseUriComponent uri p seps).2.len ≤ uri.length := by
  have ge := scanUri_ge uri p seps
  have le := scanUri_le inside seps
  unfold parseUriComponent
  dsimp only
  split <;> omega

end Scan

/-- The parts lie in the text. -/
structure UriParts.Within (uri : CText) (out : UriParts) : Prop where
  scheme : out.scheme.p + out.scheme.len ≤ uri.length
  userInfo : out.userInfo.p + out.userInfo.len ≤ uri.length
  host : out.host.p + out.host.len ≤ uri.length
  path : out.path.p + out.path.len ≤ uri.length
  query : out.query.p + out.query.len ≤ uri.length
  fragment : out.fragment.p + out.fragment.len ≤ uri.length

/-- What is still to be done: no state goes back to an earlier one on the spot. -/
def uriLeft (uri : CText) (state : UriState) (p : Nat) : Nat :=
  6 * (uri.length - p) + (5 - state.rank)

private theorem uriLeft_later {uri : CText} {state next : UriState} {p q : Nat} (forward : p ≤ q)
    (later : state.rank < next.rank) (most : next.rank ≤ 5) :
    uriLeft uri next q < uriLeft uri state p := by
  unfold uriLeft
  omega

private theorem uriLeft_further {uri : CText} {state next : UriState} {p q : Nat} (forward : p < q)
    (inside : q ≤ uri.length) : uriLeft uri next q < uriLeft uri state p := by
  unfold uriLeft
  omega

/-- A turn gets on with the text, and what it finds lies in the text. -/
structure UriAdvance (uri : CText) (state : UriState) (p : Nat) (next : UriTurn) : Prop where
  inside : next.2.1 ≤ uri.length
  within : next.2.2.Within uri
  less : uriLeft uri next.1 next.2.1 < uriLeft uri state p

section Turns

variable {uri : CText} {p : Nat} {out : UriParts}

private theorem scanUri_undecided (inside : p ≤ uri.length)
    (noColon : ¬uri[scanUri uri p (text ":/")]? = some 58)
    (noSlash : ¬uri[scanUri uri p (text ":/")]? = some 47) :
    scanUri uri p (text ":/") = uri.length := by
  by_contra other
  have le := scanUri_le inside (text ":/")
  obtain ⟨byte, isSep, isByte⟩ := @scanUri_found uri p (text ":/") (by omega)
  have cases_ : byte = 58 ∨ byte = 47 := by simpa [text] using isSep
  rcases cases_ with rfl | rfl
  · exact noColon isByte
  · exact noSlash isByte

private theorem uriStart_advance (inside : p < uri.length) (within : out.Within uri) :
    UriAdvance uri .start p (uriStart uri p out) := by
  have ge := scanUri_ge uri p (text ":/")
  have le := scanUri_le inside.le (text ":/")
  unfold uriStart
  dsimp only
  split
  · exact ⟨inside.le, within,
      @uriLeft_later uri .start .host p p (le_refl _) (by decide) (by decide)⟩
  · split
    · exact ⟨le, within, @uriLeft_later uri .start .schemeOrPort p _ ge (by decide) (by decide)⟩
    · next noColon =>
        refine ⟨le, { within with host := by dsimp only; omega }, ?_⟩
        dsimp only
        split
        · exact uriLeft_later ge (by decide) (by decide)
        · next noSlash =>
            have ended := scanUri_undecided inside.le noColon noSlash
            exact uriLeft_further (by omega) le

private theorem uriSchemeOrPort_advance (inside : p < uri.length) (within : out.Within uri) :
    UriAdvance uri .schemeOrPort p (uriSchemeOrPort uri p out) := by
  unfold uriSchemeOrPort
  split
  · next separator =>
      have long := congrArg List.length separator
      rw [List.length_take, List.length_drop] at long
      have three : (text "://").length = 3 := rfl
      exact ⟨by dsimp only; omega, { within with scheme := by dsimp only; omega },
        @uriLeft_later uri .schemeOrPort .userInfo p (p + 3) (Nat.le_add_right _ _) (by decide)
          (by decide)⟩
  · exact ⟨inside.le, { within with host := by dsimp only; omega },
      @uriLeft_later uri .schemeOrPort .port p p (le_refl _) (by decide) (by decide)⟩

private theorem uriUserInfo_advance (inside : p < uri.length) (within : out.Within uri) :
    UriAdvance uri .userInfo p (uriUserInfo uri p out) := by
  have ge := scanUri_ge uri p (text "@[/")
  have le := scanUri_le inside.le (text "@[/")
  unfold uriUserInfo
  dsimp only
  generalize isStop : (if uri[scanUri uri p (text "@[/")]? = some 64
    then scanUri uri p (text "@[/") else p) = stop
  have between : p ≤ stop ∧ stop ≤ uri.length := by
    rw [← isStop]
    split <;> omega
  exact ⟨between.2, { within with userInfo := by dsimp only; omega },
    @uriLeft_later uri .userInfo .host p stop between.1 (by decide) (by decide)⟩

private theorem uriHostEnd_within {stop : Nat} (inside : p ≤ uri.length)
    (ends : uriHostEnd uri p = some stop) :
    p ≤ stop ∧ stop ≤ uri.length ∧
      (¬uri[stop]? = some 58 → ¬uri[stop]? = some 47 → p < stop ∨ stop = uri.length) := by
  unfold uriHostEnd at ends
  dsimp only at ends
  split at ends
  · have ge := scanUri_ge uri p (text "]")
    split at ends
    · cases ends
      exact ⟨by omega, by omega, fun _ _ => .inl (by omega)⟩
    · cases ends
  · cases ends
    exact ⟨scanUri_ge uri p _, scanUri_le inside _,
      fun noColon noSlash => .inr (scanUri_undecided inside noColon noSlash)⟩

private theorem uriHost_advance (inside : p < uri.length) (within : out.Within uri) :
    ∀ next ∈ uriHost uri p out, UriAdvance uri .host p next := by
  intro next isNext
  unfold uriHost at isNext
  dsimp only at isNext
  generalize isStart : (if uri[p]? = some 64 then p + 1 else p) = start at isNext
  have between : p ≤ start ∧ start ≤ uri.length := by
    rw [← isStart]
    split <;> omega
  split at isNext
  · cases isNext
  · next stop ends =>
      obtain ⟨ge, le, stuck⟩ := uriHostEnd_within between.2 ends
      cases isNext
      refine ⟨le, { within with host := by dsimp only; omega }, ?_⟩
      dsimp only
      split
      · exact uriLeft_later (between.1.trans ge) (by decide) (by decide)
      · next noColon =>
          split
          · exact uriLeft_later (between.1.trans ge) (by decide) (by decide)
          · next noSlash =>
              have further := stuck noColon noSlash
              exact uriLeft_further (by omega) le

private theorem uriPort_advance (inside : p < uri.length) (within : out.Within uri) :
    UriAdvance uri .port p (uriPort uri p out) := by
  have ge := scanUri_ge uri (p + 1) (text "/")
  have le := scanUri_le (Nat.succ_le_of_lt inside) (text "/")
  exact ⟨le, { within with }, uriLeft_further ge le⟩

private theorem uriQuery_within (inside : p ≤ uri.length) {query : MgStr}
    (queryWithin : query.p + query.len ≤ uri.length) :
    p ≤ (uriQuery uri p query).1 ∧ (uriQuery uri p query).1 ≤ uri.length ∧
      (uriQuery uri p query).2.p + (uriQuery uri p query).2.len ≤ uri.length := by
  unfold uriQuery
  split
  · exact parseUriComponent_within inside (text "#")
  · exact ⟨le_refl _, inside, queryWithin⟩

private theorem parseUriComponent_nil (inside : p ≤ uri.length) :
    (parseUriComponent uri p []).1 = uri.length := by
  have ended : scanUri uri p [] = uri.length := by
    by_contra other
    have le := scanUri_le inside []
    obtain ⟨byte, isSep, _⟩ := @scanUri_found uri p [] (by omega)
    cases isSep
  unfold parseUriComponent
  dsimp only
  rw [ended, if_neg (lt_irrefl _)]

private theorem uriRest_advance (inside : p < uri.length) (within : out.Within uri) :
    UriAdvance uri .rest p (uriRest uri p out) := by
  have path := parseUriComponent_within inside.le (text "?#")
  have query := uriQuery_within path.2.1 within.query
  have fragment := parseUriComponent_within query.2.1 []
  have ended := parseUriComponent_nil query.2.1
  have found : (uriRest uri p out).2.2.Within uri :=
    { within with
      path := path.2.2
      query := query.2.2
      fragment := fragment.2.2 }
  have last : (uriRest uri p out).2.1 = uri.length := ended
  exact ⟨last.le, found, uriLeft_further (by rw [last]; exact inside) last.le⟩

private theorem uriStep_advance (inside : p < uri.length) (within : out.Within uri) (state : UriState) :
    ∀ next ∈ uriStep uri p out state, UriAdvance uri state p next := by
  cases state with
  | start => exact fun _ isNext => by cases isNext; exact uriStart_advance inside within
  | schemeOrPort => exact fun _ isNext => by cases isNext; exact uriSchemeOrPort_advance inside within
  | userInfo => exact fun _ isNext => by cases isNext; exact uriUserInfo_advance inside within
  | host => exact uriHost_advance inside within
  | port => exact fun _ isNext => by cases isNext; exact uriPort_advance inside within
  | rest => exact fun _ isNext => by cases isNext; exact uriRest_advance inside within

end Turns

private theorem uriLoop_ends {uri : CText} {fuel p : Nat} {state : UriState} {out : UriParts}
    (enough : uriLeft uri state p < fuel) (within : out.Within uri) :
    ∃ found, uriLoop uri fuel state p out = .ok found ∧ ∀ parts ∈ found, parts.Within uri := by
  induction fuel generalizing state p out with
  | zero => contradiction
  | succ fuel ih =>
      unfold uriLoop
      split
      · next inside =>
          have advance := uriStep_advance inside within state
          split
          · exact ⟨none, rfl, fun _ isPart => by cases isPart⟩
          · next isNext =>
              have turn := advance _ isNext
              exact ih (lt_of_lt_of_le turn.less (Nat.le_of_lt_succ enough)) turn.within
      · exact ⟨some out, rfl, fun _ isPart => by cases isPart; exact within⟩

private theorem UriParts.zero_within (uri : CText) : UriParts.zero.Within uri :=
  ⟨Nat.zero_le _, Nat.zero_le _, Nat.zero_le _, Nat.zero_le _, Nat.zero_le _, Nat.zero_le _⟩

private theorem uriLeft_start (uri : CText) : uriLeft uri .start 0 < 6 * uri.length + 6 := by
  unfold uriLeft
  omega

/-- Every text is taken apart or refused, in a bounded number of turns. -/
theorem mgParseUri_within (uri : CText) :
    ∃ found, mgParseUri uri = .ok found ∧ ∀ parts ∈ found, parts.Within uri :=
  uriLoop_ends (uriLeft_start uri) (UriParts.zero_within uri)

/-! ### URLs -/

structure Url where
  scheme : Option CText
  userInfo : Option CText
  host : CText
  port : Option Nat
  path : CText
  query : Option CText
  fragment : Option CText

namespace Url

/-- What follows the host. -/
def portText (url : Url) : CText :=
  (url.port.map fun port => 58 :: text (toString port)).getD []

def queryText (url : Url) : CText :=
  (url.query.map (63 :: ·)).getD []

def fragmentText (url : Url) : CText :=
  (url.fragment.map (35 :: ·)).getD []

/-- From the path on. -/
def rest (url : Url) : CText :=
  url.path ++ (url.queryText ++ url.fragmentText)

/-- From the host on. -/
def authority (url : Url) : CText :=
  url.host ++ (url.portText ++ url.rest)

def schemeText (url : Url) : CText :=
  (url.scheme.map (· ++ text "://")).getD []

def userText (url : Url) : CText :=
  (url.userInfo.map (· ++ [64])).getD []

def spelled (url : Url) : CText :=
  url.schemeText ++ (url.userText ++ url.authority)

/-- A name or an address, or one in brackets. -/
inductive Host (host : CText) : Prop
  | plain (clean : ∀ byte ∈ host, byte ∉ text ":/@[")
  | bracketed (inner : CText) (isHost : host = 91 :: (inner ++ [93])) (closed : 93 ∉ inner)

/-- No part has a byte by which another one is told from it. -/
structure Good (url : Url) : Prop where
  scheme : ∀ scheme ∈ url.scheme, ∀ byte ∈ scheme, byte ∉ text ":/["
  userInfo : ∀ userInfo ∈ url.userInfo, url.scheme ≠ none ∧ ∀ byte ∈ userInfo, byte ∉ text "@[/"
  host : Host url.host
  port : ∀ port ∈ url.port, port < 4294967296
  path : ∀ byte ∈ url.path, byte ∉ text "?#"
  rooted : url.path.head? = some 47
  query : ∀ query ∈ url.query, 35 ∉ query

end Url

/-- Turns of the loop up to the end of the text. -/
inductive UriRun (uri : CText) : UriState → Nat → UriParts → UriParts → Prop
  | ended {state : UriState} {p : Nat} {out : UriParts} (behind : uri.length ≤ p) :
      UriRun uri state p out out
  | turn {state next : UriState} {p q : Nat} {out after last : UriParts} (inside : p < uri.length)
      (step : uriStep uri p out state = some (next, q, after)) (run : UriRun uri next q after last) :
      UriRun uri state p out last

theorem UriRun.loop {uri : CText} {state : UriState} {p fuel : Nat} {out last : UriParts}
    (run : UriRun uri state p out last) (enough : uriLeft uri state p < fuel)
    (within : out.Within uri) : uriLoop uri fuel state p out = .ok (some last) := by
  induction run generalizing fuel with
  | ended behind =>
      obtain ⟨fuel, rfl⟩ := Nat.exists_eq_succ_of_ne_zero (Nat.ne_of_gt (Nat.zero_lt_of_lt enough))
      exact if_neg (Nat.not_lt.mpr behind)
  | turn inside step run ih =>
      obtain ⟨fuel, rfl⟩ := Nat.exists_eq_succ_of_ne_zero (Nat.ne_of_gt (Nat.zero_lt_of_lt enough))
      have advance := uriStep_advance inside within _ _ step
      rw [uriLoop, if_pos inside, step]
      exact ih (lt_of_lt_of_le advance.less (Nat.le_of_lt_succ enough)) advance.within

section At

variable {uri token rest : CText} {p : Nat}

theorem drop_behind (found : uri.drop p = token ++ rest) : uri.drop (p + token.length) = rest := by
  rw [← List.drop_drop, found, List.drop_left]

theorem getElem_here (found : uri.drop p = rest) : uri[p]? = rest.head? := by
  rw [← found, List.head?_drop]

theorem inside_of_drop (found : uri.drop p = rest) (some_ : rest ≠ []) : p < uri.length := by
  by_contra behind
  exact some_ (found ▸ List.drop_eq_nil_of_le (Nat.not_lt.mp behind))

private theorem scanUri_token {seps : CText} (found : uri.drop p = token ++ rest)
    (clean : ∀ byte ∈ token, byte ∉ seps) (stops : ∀ byte ∈ rest.head?, byte ∈ seps) :
    scanUri uri p seps = p + token.length := by
  unfold scanUri
  rw [found, List.takeWhile_append_of_pos (by simpa using clean)]
  cases rest with
  | nil => rw [List.takeWhile_nil, List.append_nil]
  | cons byte more =>
      have isSep : byte ∈ seps := stops byte rfl
      rw [List.takeWhile_cons_of_neg (by simpa using isSep), List.append_nil]

theorem bytes_here (found : uri.drop p = token ++ rest) :
    ({ p := p, len := token.length } : MgStr).bytes uri = token := by
  unfold MgStr.bytes
  rw [found, List.take_left]

private theorem parseUriComponent_token {seps : CText} (found : uri.drop p = token ++ rest)
    (clean : ∀ byte ∈ token, byte ∉ seps) (stops : ∀ byte ∈ rest.head?, byte ∈ seps) :
    (parseUriComponent uri p seps).2 = { p := p, len := token.length } ∧
      uri.drop (parseUriComponent uri p seps).1 = rest.tail := by
  have behind := drop_behind found
  unfold parseUriComponent
  dsimp only
  rw [scanUri_token found clean stops, Nat.add_sub_cancel_left]
  refine ⟨rfl, ?_⟩
  split
  · rw [← List.tail_drop, behind]
  · next ended =>
      rw [behind]
      have none_ : rest = [] := behind ▸ List.drop_eq_nil_of_le (Nat.not_lt.mp ended)
      rw [none_]
      rfl

end At

/-! ### The parts of a URL are found -/

theorem MgStr.null_bytes (buf : CText) : MgStr.null.bytes buf = [] := by
  unfold MgStr.bytes MgStr.null
  exact List.take_zero

section Parts

variable {uri : CText} {p : Nat} {url : Url} {out : UriParts}

private theorem behindPath_pred {token rest : CText} {seps : CText} (found : uri.drop p = token ++ rest)
    (clean : ∀ byte ∈ token, byte ∉ seps) (stops : ∀ byte ∈ rest.head?, byte ∈ seps)
    (some_ : rest ≠ []) :
    uri[(parseUriComponent uri p seps).1 - 1]? = rest.head? := by
  have behind := drop_behind found
  unfold parseUriComponent
  dsimp only
  rw [scanUri_token found clean stops, if_pos (inside_of_drop behind some_), Nat.add_sub_cancel]
  exact getElem_here behind

private theorem Url.mark_stops (url : Url) :
    ∀ byte ∈ (url.queryText ++ url.fragmentText).head?, byte ∈ text "?#" := by
  intro byte isHead
  unfold Url.queryText Url.fragmentText at isHead
  cases isQuery : url.query with
  | some query =>
      rw [isQuery] at isHead
      cases isHead
      decide
  | none =>
      cases isFragment : url.fragment with
      | some fragment =>
          rw [isQuery, isFragment] at isHead
          cases isHead
          decide
      | none =>
          rw [isQuery, isFragment] at isHead
          cases isHead

private theorem uriQuery_url (good : url.Good) (found : uri.drop p = url.rest) :
    (uriQuery uri (parseUriComponent uri p (text "?#")).1 .null).2.len =
        (url.query.getD []).length ∧
      (uriQuery uri (parseUriComponent uri p (text "?#")).1 .null).2.bytes uri =
        url.query.getD [] ∧
      uri.drop (uriQuery uri (parseUriComponent uri p (text "?#")).1 .null).1 =
        url.fragment.getD [] := by
  have behind := (parseUriComponent_token found good.path url.mark_stops).2
  have mark := behindPath_pred found good.path url.mark_stops
  generalize (parseUriComponent uri p (text "?#")).1 = behindPath at behind mark ⊢
  cases isQuery : url.query with
  | none =>
      have noMark : ¬(behindPath < uri.length ∧ uri[behindPath - 1]? = some 63) := by
        rintro ⟨inside, isMark⟩
        cases isFragment : url.fragment with
        | none =>
            unfold Url.queryText Url.fragmentText at behind
            rw [isQuery, isFragment] at behind
            have none_ : uri.drop behindPath = [] := behind
            rw [List.drop_eq_nil_iff] at none_
            omega
        | some fragment =>
            unfold Url.queryText Url.fragmentText at mark
            rw [isQuery, isFragment] at mark
            have hash : uri[behindPath - 1]? = some 35 := mark (by intro nothing; cases nothing)
            rw [hash] at isMark
            cases isMark
      unfold uriQuery
      rw [if_neg noMark]
      refine ⟨rfl, MgStr.null_bytes uri, ?_⟩
      rw [behind]
      unfold Url.queryText Url.fragmentText
      rw [isQuery]
      cases url.fragment with
      | none => rfl
      | some fragment => rfl
  | some query =>
      unfold Url.queryText at behind mark
      rw [isQuery] at behind mark
      have isRest : uri.drop behindPath = query ++ url.fragmentText := behind
      have isMark : uri[behindPath - 1]? = some 63 := mark (by intro nothing; cases nothing)
      unfold uriQuery
      by_cases inside : behindPath < uri.length
      · have hash : ∀ byte ∈ url.fragmentText.head?, byte ∈ text "#" := by
          intro byte isHead
          unfold Url.fragmentText at isHead
          cases isFragment : url.fragment with
          | none =>
              rw [isFragment] at isHead
              cases isHead
          | some fragment =>
              rw [isFragment] at isHead
              cases isHead
              decide
        have clean : ∀ byte ∈ query, byte ∉ text "#" := by
          intro byte member isHash
          have same : byte = 35 := by simpa [text] using isHash
          exact good.query query isQuery (same ▸ member)
        obtain ⟨isQueryStr, behindQuery⟩ := parseUriComponent_token isRest clean hash
        rw [if_pos ⟨inside, isMark⟩, isQueryStr, behindQuery]
        refine ⟨rfl, bytes_here isRest, ?_⟩
        unfold Url.fragmentText
        cases url.fragment with
        | none => rfl
        | some fragment => rfl
      · have nothing : query ++ url.fragmentText = [] :=
          isRest ▸ List.drop_eq_nil_of_le (Nat.not_lt.mp inside)
        obtain ⟨noQuery, noFragment⟩ := List.append_eq_nil_iff.mp nothing
        rw [if_neg (fun both => inside both.1), noQuery]
        refine ⟨rfl, MgStr.null_bytes uri, ?_⟩
        rw [isRest, nothing]
        unfold Url.fragmentText at noFragment
        cases isFragment : url.fragment with
        | none => rfl
        | some fragment =>
            rw [isFragment] at noFragment
            cases noFragment

/-- What the turns from the path on find. -/
structure UriParts.Ends (uri : CText) (url : Url) (p : Nat) (out last : UriParts) : Prop where
  same : last.scheme = out.scheme ∧ last.userInfo = out.userInfo ∧ last.host = out.host ∧
    last.port = out.port
  path : last.path = { p := p, len := url.path.length }
  queryLen : last.query.len = (url.query.getD []).length
  query : last.query.bytes uri = url.query.getD []
  fragment : last.fragment.bytes uri = url.fragment.getD []

private theorem Url.Good.rest_ne (good : url.Good) : url.rest ≠ [] := by
  intro nothing
  have rooted := good.rooted
  have none_ := (List.append_eq_nil_iff.mp nothing).1
  rw [none_] at rooted
  cases rooted

private theorem Url.Good.rest_head (good : url.Good) : url.rest.head? = some 47 := by
  unfold Url.rest
  rw [List.head?_append, good.rooted]
  rfl

private theorem uriRun_rest (good : url.Good) (found : uri.drop p = url.rest) (fresh : out.query = .null) :
    ∃ last, UriRun uri .rest p out last ∧ out.Ends uri url p last := by
  have inside := inside_of_drop found good.rest_ne
  have pathInside := (parseUriComponent_within inside.le (text "?#")).2.1
  obtain ⟨queryLen, query, behind⟩ := uriQuery_url good found
  have queryInside := (@uriQuery_within uri _ pathInside .null (Nat.zero_le _)).2.1
  have last := parseUriComponent_nil queryInside
  rw [← List.append_nil (url.fragment.getD [])] at behind
  have fragment := (@parseUriComponent_token uri _ _ _ [] behind (fun _ _ => List.not_mem_nil)
    (fun _ isHead => by cases isHead)).1
  have ends : (uriRest uri p out).2.1 = uri.length := by
    unfold uriRest
    dsimp only
    rw [fresh, last]
  have isPath := (parseUriComponent_token found good.path url.mark_stops).1
  refine ⟨(uriRest uri p out).2.2, .turn inside rfl (.ended ends.ge),
    ⟨⟨rfl, rfl, rfl, rfl⟩, ?_, ?_, ?_, ?_⟩⟩
  · exact isPath
  · change (uriQuery uri _ out.query).2.len = _
    rw [fresh]
    exact queryLen
  · change (uriQuery uri _ out.query).2.bytes uri = _
    rw [fresh]
    exact query
  · change (parseUriComponent uri
      (uriQuery uri (parseUriComponent uri p (text "?#")).1 out.query).1 []).2.bytes uri = _
    rw [fresh, fragment]
    exact bytes_here behind

private theorem signedChar_digitByte :
    ∀ digit < 10, signedChar (Json.digitByte digit) = 48 + (digit : Int) := by
  decide

private theorem foldl_portDigit (port : Nat) (small : port < 4294967296) :
    (text (toString port)).foldl portDigit 0 = port := by
  induction port using Nat.strong_induction_on with
  | _ port ih =>
      have digit : ∀ last < 10, ∀ front, front * 10 + last < 4294967296 →
          portDigit front (Json.digitByte last) = front * 10 + last := by
        intro last below front fits
        unfold portDigit
        rw [signedChar_digitByte last below]
        omega
      by_cases one : port < 10
      · rw [Json.text_natural_small one]
        exact (digit port one 0 (by omega)).trans (by omega)
      · rw [Json.text_natural_large (by omega), List.foldl_append, ih (port / 10) (by omega) (by omega)]
        exact (digit (port % 10) (by omega) (port / 10) (by omega)).trans (by omega)

/-- The state in which the host is left. -/
def behindHost (uri : CText) (p : Nat) : UriState :=
  if uri[p]? = some 58 then .port else if uri[p]? = some 47 then .rest else .host

private theorem uriRun_behindHost (good : url.Good) (found : uri.drop p = url.portText ++ url.rest)
    (fresh : out.query = .null) (noPort : out.port = 0) :
    ∃ last, UriRun uri (behindHost uri p) p out last ∧
      ({ out with port := url.port.getD 0 } : UriParts).Ends uri url (p + url.portText.length)
        last := by
  have here := getElem_here found
  unfold behindHost
  unfold Url.portText at here found ⊢
  cases isPort : url.port with
  | none =>
      rw [isPort] at here found
      have slash : uri[p]? = some 47 := here.trans good.rest_head
      have noColon : ¬uri[p]? = some 58 := by
        rw [slash]
        decide
      rw [if_neg noColon, if_pos slash]
      have same : ({ out with port := 0 } : UriParts) = out := by
        rw [← noPort]
      change ∃ last, UriRun uri .rest p out last ∧
        ({ out with port := 0 } : UriParts).Ends uri url p last
      rw [same]
      exact uriRun_rest good found fresh
  | some port =>
      rw [isPort] at here found
      have colon : uri[p]? = some 58 := here
      have found : uri.drop p = 58 :: (text (toString port) ++ url.rest) := found
      have digits : uri.drop (p + 1) = text (toString port) ++ url.rest := by
        rw [← List.tail_drop, found]
        rfl
      have clean : ∀ byte ∈ text (toString port), byte ∉ text "/" := by
        intro byte member isSlash
        have same : byte = 47 := by simpa [text] using isSlash
        have isDigit := Json.text_natural_digits port byte member
        rw [same] at isDigit
        contradiction
      have stops : ∀ byte ∈ url.rest.head?, byte ∈ text "/" := by
        intro byte isHead
        rw [good.rest_head] at isHead
        cases isHead
        decide
      have stop := scanUri_token digits clean stops
      have behind := drop_behind digits
      have slash : uri[scanUri uri (p + 1) (text "/")]? = some 47 := by
        rw [stop]
        exact (getElem_here behind).trans good.rest_head
      have value : ((uri.take (scanUri uri (p + 1) (text "/"))).drop (p + 1)).foldl portDigit
          out.port = port := by
        rw [stop, List.drop_take, Nat.add_sub_cancel_left, digits, List.take_left, noPort]
        exact foldl_portDigit port (good.port port isPort)
      have turn : uriPort uri p out =
          (.rest, p + 1 + (text (toString port)).length, { out with port := port }) := by
        unfold uriPort
        dsimp only
        rw [if_pos slash, value, stop]
      rw [if_pos colon]
      obtain ⟨last, run, ends⟩ := @uriRun_rest uri _ url { out with port := port } good behind fresh
      refine ⟨last, .turn (inside_of_drop found (List.cons_ne_nil _ _)) (congrArg some turn) run, ?_⟩
      have long : p + (58 :: text (toString port)).length =
          p + 1 + (text (toString port)).length := by
        rw [List.length_cons]
        omega
      change ({ out with port := port } : UriParts).Ends uri url
        (p + (58 :: text (toString port)).length) last
      rw [long]
      exact ends

private theorem Url.behind_stops (good : url.Good) :
    ∀ byte ∈ (url.portText ++ url.rest).head?, byte = 58 ∨ byte = 47 := by
  intro byte isHead
  unfold Url.portText at isHead
  cases isPort : url.port with
  | none =>
      rw [isPort] at isHead
      have slash : url.rest.head? = some byte := isHead
      rw [good.rest_head] at slash
      cases slash
      exact .inr rfl
  | some port =>
      rw [isPort] at isHead
      cases isHead
      exact .inl rfl

private theorem uriHostEnd_url (good : url.Good) (found : uri.drop p = url.authority) :
    uriHostEnd uri p = some (p + url.host.length) ∧ uri[p]? ≠ some 64 := by
  have here := getElem_here found
  have found : uri.drop p = url.host ++ (url.portText ++ url.rest) := found
  have stops := Url.behind_stops good
  unfold uriHostEnd
  cases good.host with
  | plain clean =>
      have head : ∀ byte ∈ uri[p]?, byte ≠ 91 ∧ byte ≠ 64 := by
        intro byte isHead
        rw [here] at isHead
        unfold Url.authority at isHead
        cases isHost : url.host with
        | nil =>
            rw [isHost] at isHead
            rcases stops byte isHead with rfl | rfl <;> decide
        | cons first others =>
            rw [isHost] at isHead
            cases isHead
            have notSep := clean byte (isHost ▸ List.mem_cons_self)
            constructor <;>
            · rintro rfl
              exact notSep (by decide)
      have plainScan : ∀ byte ∈ url.host, byte ∉ text ":/" := by
        intro byte member isSep
        refine clean byte member ?_
        have cases_ : byte = 58 ∨ byte = 47 := by simpa [text] using isSep
        rcases cases_ with rfl | rfl <;> decide
      have sepStops : ∀ byte ∈ (url.portText ++ url.rest).head?, byte ∈ text ":/" := by
        intro byte isHead
        rcases stops byte isHead with rfl | rfl <;> decide
      have noBracket : ¬uri[p]? = some 91 := fun bracket => (head 91 bracket).1 rfl
      rw [if_neg noBracket, scanUri_token found plainScan sepStops]
      exact ⟨rfl, fun isAt => (head 64 isAt).2 rfl⟩
  | bracketed inner isHost closed =>
      rw [isHost] at found
      have bracket : uri[p]? = some 91 := by
        unfold Url.authority at here
        rw [isHost] at here
        exact here
      have split : uri.drop p = (91 :: inner) ++ (93 :: (url.portText ++ url.rest)) := by
        rw [found]
        simp
      have clean : ∀ byte ∈ 91 :: inner, byte ∉ text "]" := by
        intro byte member isClose
        have same : byte = 93 := by simpa [text] using isClose
        subst same
        rcases List.mem_cons.mp member with other | inside
        · contradiction
        · exact closed inside
      have stop := scanUri_token split clean (by intro byte isHead; cases isHead; decide)
      have inside := inside_of_drop (drop_behind split) (List.cons_ne_nil _ _)
      rw [if_pos bracket]
      dsimp only
      rw [stop, if_pos inside, isHost, bracket]
      constructor
      · congr 1
        simp only [List.length_cons, List.length_append, List.length_nil]
        omega
      · decide

/-- What the turns from the host on find. -/
structure UriParts.Located (uri : CText) (url : Url) (h : Nat) (out last : UriParts) : Prop where
  same : last.scheme = out.scheme ∧ last.userInfo = out.userInfo
  host : last.host = { p := h, len := url.host.length }
  port : last.port = url.port.getD 0
  path : last.path = { p := h + url.host.length + url.portText.length, len := url.path.length }
  queryLen : last.query.len = (url.query.getD []).length
  query : last.query.bytes uri = url.query.getD []
  fragment : last.fragment.bytes uri = url.fragment.getD []

private theorem uriRun_host {h : Nat} (good : url.Good) (found : uri.drop h = url.authority)
    (before : p = h ∨ uri[p]? = some 64 ∧ p + 1 = h) (fresh : out.query = .null)
    (noPort : out.port = 0) :
    ∃ last, UriRun uri .host p out last ∧ out.Located uri url h last := by
  obtain ⟨ends, notAt⟩ := uriHostEnd_url good found
  have start : (if uri[p]? = some 64 then p + 1 else p) = h := by
    rcases before with rfl | ⟨isAt, next⟩
    · exact if_neg notAt
    · rw [if_pos isAt, next]
  have inside : p < uri.length := by
    rcases before with rfl | ⟨isAt, _⟩
    · refine inside_of_drop found (fun nothing => good.rest_ne ?_)
      exact (List.append_eq_nil_iff.mp (List.append_eq_nil_iff.mp nothing).2).2
    · exact (List.getElem?_eq_some_iff.mp isAt).1
  have turn : uriHost uri p out = some (behindHost uri (h + url.host.length),
      h + url.host.length, { out with host := { p := h, len := url.host.length } }) := by
    unfold uriHost behindHost
    dsimp only
    rw [start, ends]
    dsimp only
    rw [Nat.add_sub_cancel_left]
  obtain ⟨last, run, found⟩ := @uriRun_behindHost uri _ url
    { out with host := { p := h, len := url.host.length } } good (drop_behind found) fresh noPort
  exact ⟨last, .turn inside turn run, ⟨found.same.1, found.same.2.1⟩, found.same.2.2.1,
    found.same.2.2.2, found.path, found.queryLen, found.query, found.fragment⟩

private theorem portText_clean (url : Url) : ∀ byte ∈ url.portText, byte ∉ text "@[/" := by
  intro byte member isSep
  unfold Url.portText at member
  cases isPort : url.port with
  | none =>
      rw [isPort] at member
      cases member
  | some port =>
      rw [isPort] at member
      have cases_ : byte = 58 ∨ byte ∈ text (toString port) := List.mem_cons.mp member
      have seps : byte = 64 ∨ byte = 91 ∨ byte = 47 := by simpa [text] using isSep
      rcases cases_ with rfl | digit
      · revert isSep
        decide
      · have isDigit := Json.text_natural_digits port byte digit
        rcases seps with rfl | rfl | rfl <;> contradiction

private theorem noUser_found (good : url.Good) (found : uri.drop p = url.authority) :
    uri[scanUri uri p (text "@[/")]? ≠ some 64 := by
  cases good.host with
  | plain clean =>
      have split : uri.drop p = (url.host ++ url.portText) ++ url.rest := by
        rw [found, List.append_assoc]
        rfl
      have none_ : ∀ byte ∈ url.host ++ url.portText, byte ∉ text "@[/" := by
        rw [List.forall_mem_append]
        refine ⟨fun byte member isSep => clean byte member ?_, portText_clean url⟩
        have cases_ : byte = 64 ∨ byte = 91 ∨ byte = 47 := by simpa [text] using isSep
        rcases cases_ with rfl | rfl | rfl <;> decide
      have stops : ∀ byte ∈ url.rest.head?, byte ∈ text "@[/" := by
        intro byte isHead
        rw [good.rest_head] at isHead
        cases isHead
        decide
      rw [scanUri_token split none_ stops, getElem_here (drop_behind split), good.rest_head]
      decide
  | bracketed inner isHost closed =>
      have split : uri.drop p = [] ++ url.authority := found
      have bracket : url.authority.head? = some 91 := by
        unfold Url.authority
        rw [isHost]
        rfl
      have stops : ∀ byte ∈ url.authority.head?, byte ∈ text "@[/" := by
        intro byte isHead
        rw [bracket] at isHead
        cases isHead
        decide
      rw [scanUri_token split (fun _ member => absurd member List.not_mem_nil) stops,
        getElem_here (drop_behind split), bracket]
      decide

private theorem uriRun_userInfo (good : url.Good) (found : uri.drop p = url.userText ++ url.authority)
    (fresh : out.query = .null) (noPort : out.port = 0) :
    ∃ last, UriRun uri .userInfo p out last ∧
      ({ out with userInfo := { p := p, len := (url.userInfo.getD []).length } } : UriParts).Located
        uri url (p + url.userText.length) last := by
  have inside : p < uri.length := by
    refine inside_of_drop found (fun nothing => good.rest_ne ?_)
    have none_ := (List.append_eq_nil_iff.mp nothing).2
    exact (List.append_eq_nil_iff.mp (List.append_eq_nil_iff.mp none_).2).2
  have behind := drop_behind found
  unfold Url.userText at behind ⊢
  cases isUser : url.userInfo with
  | none =>
      unfold Url.userText at found
      rw [isUser] at found behind
      have noAt := noUser_found good found
      have turn : uriUserInfo uri p out =
          (.host, p, { out with userInfo := { p := p, len := 0 } }) := by
        unfold uriUserInfo
        dsimp only
        rw [if_neg noAt, Nat.sub_self]
      obtain ⟨last, run, located⟩ := @uriRun_host uri p url
        { out with userInfo := { p := p, len := 0 } } p good found (.inl rfl) fresh noPort
      exact ⟨last, .turn inside (congrArg some turn) run, located⟩
  | some user =>
      unfold Url.userText at found
      rw [isUser] at found behind
      have split : uri.drop p = user ++ (64 :: url.authority) :=
        found.trans (List.append_assoc user [64] url.authority)
      have stop := scanUri_token split (good.userInfo user isUser).2
        (by intro byte isHead; cases isHead; decide)
      have isAt : uri[p + user.length]? = some 64 := getElem_here (drop_behind split)
      have turn : uriUserInfo uri p out = (.host, p + user.length,
          { out with userInfo := { p := p, len := user.length } }) := by
        unfold uriUserInfo
        dsimp only
        rw [stop, if_pos isAt, Nat.add_sub_cancel_left]
      have long : p + user.length + 1 = p + (user ++ [64]).length := by
        rw [List.length_append]
        rfl
      obtain ⟨last, run, located⟩ := @uriRun_host uri (p + user.length) url
        { out with userInfo := { p := p, len := user.length } } _ good behind
        (.inr ⟨isAt, long⟩) fresh noPort
      exact ⟨last, .turn inside (congrArg some turn) run, located⟩

private theorem uriRun_scheme (good : url.Good) {scheme : CText} (isScheme : url.scheme = some scheme)
    (found : uri = url.spelled) :
    ∃ last, UriRun uri .start 0 .zero last ∧
      ({ UriParts.zero with
        scheme := { p := 0, len := scheme.length }
        userInfo := { p := url.schemeText.length, len := (url.userInfo.getD []).length } } :
          UriParts).Located uri url (url.schemeText.length + url.userText.length) last := by
  have isText : url.schemeText = scheme ++ text "://" := by
    unfold Url.schemeText
    rw [isScheme]
    rfl
  have split : uri.drop 0 = scheme ++ (text "://" ++ (url.userText ++ url.authority)) := by
    rw [List.drop_zero, found, ← List.append_assoc, ← isText]
    rfl
  have clean := good.scheme scheme isScheme
  have plainScan : ∀ byte ∈ scheme, byte ∉ text ":/" := by
    intro byte member isSep
    refine clean byte member ?_
    have cases_ : byte = 58 ∨ byte = 47 := by simpa [text] using isSep
    rcases cases_ with rfl | rfl <;> decide
  have stop := scanUri_token split plainScan (by intro byte isHead; cases isHead; decide)
  rw [Nat.zero_add] at stop
  have behind := drop_behind split
  rw [Nat.zero_add] at behind
  have colon : uri[scheme.length]? = some 58 := getElem_here behind
  have noBracket : ¬uri[0]? = some 91 := by
    rw [getElem_here split]
    cases scheme with
    | nil => exact fun bracket => by cases bracket
    | cons first others =>
        intro bracket
        cases bracket
        exact clean 91 List.mem_cons_self (by decide)
  have first : uriStart uri 0 .zero = (.schemeOrPort, scheme.length, .zero) := by
    unfold uriStart
    dsimp only
    rw [if_neg noBracket, stop, if_pos colon]
  have second : uriSchemeOrPort uri scheme.length .zero = (.userInfo, scheme.length + 3,
      { UriParts.zero with scheme := { p := 0, len := scheme.length } }) := by
    unfold uriSchemeOrPort
    rw [behind]
    exact if_pos rfl
  have three : url.schemeText.length = scheme.length + 3 := by
    rw [isText, List.length_append]
    rfl
  have user : uri.drop (scheme.length + 3) = url.userText ++ url.authority := drop_behind behind
  obtain ⟨last, run, located⟩ := @uriRun_userInfo uri _ url
    { UriParts.zero with scheme := { p := 0, len := scheme.length } } good user rfl rfl
  rw [three]
  exact ⟨last, .turn (inside_of_drop split (by simp [text])) (congrArg some first)
    (.turn (inside_of_drop behind (by simp [text])) (congrArg some second) run), located⟩

private theorem uriRun_schemeless (good : url.Good) (noScheme : url.scheme = none)
    (found : uri = url.spelled) :
    ∃ last, UriRun uri .start 0 .zero last ∧ UriParts.zero.Located uri url 0 last := by
  have noUser : url.userInfo = none := by
    cases isUser : url.userInfo with
    | none => rfl
    | some user => exact absurd noScheme (good.userInfo user isUser).1
  have isAuthority : uri.drop 0 = url.authority := by
    rw [List.drop_zero, found]
    unfold Url.spelled Url.schemeText Url.userText
    rw [noScheme, noUser]
    rfl
  have inside : 0 < uri.length := by
    refine inside_of_drop isAuthority (fun nothing => good.rest_ne ?_)
    exact (List.append_eq_nil_iff.mp (List.append_eq_nil_iff.mp nothing).2).2
  by_cases bracket : uri[0]? = some 91
  · have first : uriStart uri 0 .zero = (.host, 0, .zero) := by
      unfold uriStart
      rw [if_pos bracket]
    obtain ⟨last, run, located⟩ := @uriRun_host uri 0 url .zero 0 good isAuthority (.inl rfl) rfl rfl
    exact ⟨last, .turn inside (congrArg some first) run, located⟩
  · have ends := (uriHostEnd_url good isAuthority).1
    unfold uriHostEnd at ends
    rw [if_neg bracket, Option.some_inj, Nat.zero_add] at ends
    have behind := drop_behind (show uri.drop 0 = url.host ++ (url.portText ++ url.rest) from
      isAuthority)
    rw [Nat.zero_add] at behind
    have here := getElem_here behind
    obtain ⟨last, run, found⟩ := @uriRun_behindHost uri _ url
      { UriParts.zero with host := { p := 0, len := url.host.length } } good behind rfl rfl
    have located : UriParts.zero.Located uri url 0 last :=
      ⟨⟨found.same.1, found.same.2.1⟩, found.same.2.2.1, found.same.2.2.2,
        by rw [found.path, Nat.zero_add], found.queryLen, found.query, found.fragment⟩
    refine ⟨last, ?_, located⟩
    unfold behindHost at run
    rcases isHead : (url.portText ++ url.rest).head? with _ | byte
    · have nothing := List.head?_eq_none_iff.mp isHead
      exact absurd (List.append_eq_nil_iff.mp nothing).2 good.rest_ne
    · rw [isHead] at here
      rcases Url.behind_stops good byte isHead with rfl | rfl
      · have noScheme_ : ¬(uri.drop url.host.length).take 3 = text "://" := by
          rw [behind]
          unfold Url.portText at isHead ⊢
          cases isPort : url.port with
          | none =>
              rw [isPort] at isHead
              have colon : url.rest.head? = some 58 := isHead
              rw [good.rest_head] at colon
              cases colon
          | some port =>
              intro same
              have second := congrArg (fun front => front[1]?) same
              obtain ⟨digit, digits, isText⟩ :=
                List.exists_cons_of_ne_nil (Json.text_natural_ne_nil port)
              have isDigit := Json.text_natural_digits port digit (isText ▸ List.mem_cons_self)
              dsimp only [Option.map_some, Option.getD_some] at second
              rw [isText] at second
              have slash : digit = 47 := by simpa [text] using second
              rw [slash] at isDigit
              contradiction
        have first : uriStart uri 0 .zero = (.schemeOrPort, url.host.length, .zero) := by
          unfold uriStart
          dsimp only
          rw [if_neg bracket, ends, if_pos here]
        have second : uriSchemeOrPort uri url.host.length .zero = (.port, url.host.length,
            { UriParts.zero with host := { p := 0, len := url.host.length } }) := by
          unfold uriSchemeOrPort
          exact if_neg noScheme_
        rw [if_pos here] at run
        have colonInside := (List.getElem?_eq_some_iff.mp here).1
        exact .turn inside (congrArg some first) (.turn colonInside (congrArg some second) run)
      · have noColon : ¬uri[url.host.length]? = some 58 := by
          rw [here]
          decide
        have first : uriStart uri 0 .zero = (.rest, url.host.length,
            { UriParts.zero with host := { p := 0, len := url.host.length } }) := by
          unfold uriStart
          dsimp only
          rw [if_neg bracket, ends, if_neg noColon, if_pos here]
        rw [if_neg noColon, if_pos here] at run
        exact .turn inside (congrArg some first) run

end Parts

/-- The parts that are found are those the URL is written with. -/
structure UriParts.Spells (url : Url) (out : UriParts) : Prop where
  scheme : out.scheme.bytes url.spelled = url.scheme.getD []
  userInfo : out.userInfo.bytes url.spelled = url.userInfo.getD []
  host : out.host.bytes url.spelled = url.host
  port : out.port = url.port.getD 0
  path : out.path.bytes url.spelled = url.path
  query : out.query.bytes url.spelled = url.query.getD []
  fragment : out.fragment.bytes url.spelled = url.fragment.getD []
  lengths : out.scheme.len = (url.scheme.getD []).length ∧
    out.userInfo.len = (url.userInfo.getD []).length ∧ out.path.len = url.path.length ∧
    out.query.len = (url.query.getD []).length
  fromHost : url.spelled.drop out.host.p = url.authority
  hostToPath : out.path.p = out.host.p + (url.host ++ url.portText).length

theorem UriParts.Located.spells {url : Url} {h : Nat} {out last : UriParts}
    (located : out.Located url.spelled url h last) (found : url.spelled.drop h = url.authority)
    (scheme : out.scheme.bytes url.spelled = url.scheme.getD [] ∧
      out.scheme.len = (url.scheme.getD []).length)
    (userInfo : out.userInfo.bytes url.spelled = url.userInfo.getD [] ∧
      out.userInfo.len = (url.userInfo.getD []).length) : last.Spells url := by
  have afterHost := drop_behind (show url.spelled.drop h = url.host ++ (url.portText ++ url.rest) from
    found)
  have path : url.spelled.drop (h + url.host.length + url.portText.length) =
      url.path ++ (url.queryText ++ url.fragmentText) := drop_behind afterHost
  exact {
    scheme := located.same.1 ▸ scheme.1
    userInfo := located.same.2 ▸ userInfo.1
    host := by
      rw [located.host]
      exact bytes_here found
    port := located.port
    path := by
      rw [located.path]
      exact bytes_here path
    query := located.query
    fragment := located.fragment
    lengths := ⟨located.same.1 ▸ scheme.2, located.same.2 ▸ userInfo.2, by rw [located.path],
      located.queryLen⟩
    fromHost := by
      rw [located.host]
      exact found
    hostToPath := by
      rw [located.path, located.host, List.length_append, Nat.add_assoc] }

/-- A URL is taken apart into the parts it is written with. -/
theorem mgParseUri_url {url : Url} (good : url.Good) :
    ∃ out, mgParseUri url.spelled = .ok (some out) ∧ out.Spells url := by
  have whole : url.spelled.drop 0 = url.schemeText ++ (url.userText ++ url.authority) := rfl
  cases isScheme : url.scheme with
  | none =>
      obtain ⟨last, run, located⟩ := uriRun_schemeless good isScheme rfl
      have noUser : url.userInfo = none := by
        cases isUser : url.userInfo with
        | none => rfl
        | some user => exact absurd isScheme (good.userInfo user isUser).1
      have found : url.spelled.drop 0 = url.authority := by
        rw [whole]
        unfold Url.schemeText Url.userText
        rw [isScheme, noUser]
        rfl
      refine ⟨last, run.loop (uriLeft_start _) (UriParts.zero_within _), located.spells found ?_ ?_⟩
      · rw [isScheme]
        exact ⟨MgStr.null_bytes _, rfl⟩
      · rw [noUser]
        exact ⟨MgStr.null_bytes _, rfl⟩
  | some scheme =>
      obtain ⟨last, run, located⟩ := uriRun_scheme good isScheme rfl
      have isText : url.schemeText = scheme ++ text "://" := by
        unfold Url.schemeText
        rw [isScheme]
        rfl
      have behind := drop_behind whole
      rw [Nat.zero_add] at behind
      refine ⟨last, run.loop (uriLeft_start _) (UriParts.zero_within _),
        located.spells (drop_behind behind) ?_ ?_⟩
      · rw [isScheme]
        have front : url.spelled.drop 0 =
            scheme ++ (text "://" ++ (url.userText ++ url.authority)) := by
          rw [whole, isText, List.append_assoc]
        exact ⟨bytes_here front, rfl⟩
      · refine ⟨?_, rfl⟩
        cases isUser : url.userInfo with
        | none => exact List.take_zero
        | some user =>
            have front : url.spelled.drop url.schemeText.length = user ++ (64 :: url.authority) := by
              rw [behind]
              unfold Url.userText
              rw [isUser]
              exact List.append_assoc user [64] url.authority
            exact bytes_here front

end DlcServer
