/-
Do the walkers of received JSON get by without a NULL pointer?

Their loops compare the name of every child and copy the text of some.  Items of
arrays have no name and only strings have a text: what is walked over has to be
no array, and a member that is copied has to be a string.
-/

import DlcServer.ManifestAgreement
import DlcServer.RequestUuid

namespace DlcServer

open Library

variable {valueint : CText → Int}

/-! ### What the walkers can read -/

/-- An array with items, whose names are NULL. -/
def Unnamed (document : Json) : Prop :=
  ∃ item more, document = .array (item :: more)

/-- The array a member of a request is copied to. -/
def requestRoom (name : CText) : Option Nat :=
  if name = text "uuid" then some uuidCapacity else none

/-- The member is a string that goes past the end of its array. -/
def overflows (room : CText → Option Nat) : CText × Json → Bool
  | (name, .string value) =>
      match room (CText.untilNul name) with
      | none => false
      | some capacity => decide (capacity ≤ (CText.untilNul value).length)
  | _ => false

/-- The member is a function code that is no number. -/
def badCode : CText × Json → Bool
  | (_, .number _) => false
  | (name, _) => CText.untilNul name == text "func-id"

/-- The members of a request that are walked over, up to one that goes past the
end of its array. -/
def requestWalked : List (CText × Json) → List (CText × Json)
  | [] => []
  | member :: more =>
      if badCode member then []
      else if overflows requestRoom member then [member]
      else member :: requestWalked more

/-- The progress stored after a member of a report. -/
def progressAfter (valueint : CText → Int) (progress : Int) (member : CText × Json) : Int :=
  if CText.untilNul member.1 = text "progress_percent" then
    floatOfInt (CJson.ofMember valueint member).valueint
  else progress

/-- The members of a report that are walked over, from a stored progress. -/
def reportWalked (valueint : CText → Int) :
    Int → List (CText × Json) → List (CText × Json)
  | _, [] => []
  | progress, member :: more =>
      if CText.untilNul member.1 = text "error" then []
      else if overflows reportRoom member ∨ 100 ≤ progressAfter valueint progress member then
        [member]
      else member :: reportWalked valueint (progressAfter valueint progress member) more

/-- Every member that is copied is a string. -/
def CopiesStrings (room : CText → Option Nat) (walked : List (CText × Json)) : Prop :=
  ∀ member ∈ walked, (room (CText.untilNul member.1)).isSome →
    ∃ value, member.2 = .string value

def RequestReadable (document : Json) : Prop :=
  ¬ Unnamed document ∧ CopiesStrings requestRoom (requestWalked (membersOf document))

def ManifestReadable (document : Json) : Prop :=
  ¬ Unnamed document ∧
    ∀ manifest, lookupExact document (text "manifest") = some manifest → ¬ Unnamed manifest

def ReportReadable (valueint : CText → Int) (progress : Int) (result : Json) : Prop :=
  ¬ Unnamed result ∧ CopiesStrings reportRoom (reportWalked valueint progress (membersOf result))

private theorem copiesStrings_cons {room : CText → Option Nat} {member : CText × Json}
    {walked : List (CText × Json)} :
    CopiesStrings room (member :: walked) ↔
      ((room (CText.untilNul member.1)).isSome → ∃ value, member.2 = .string value) ∧
        CopiesStrings room walked :=
  List.forall_mem_cons

private theorem copiesStrings_nil (room : CText → Option Nat) : CopiesStrings room [] := by
  intro member inside
  cases inside

/-! ### The children of a node -/

private theorem child_cases (name : Option CText) (document : Json) :
    (CJson.ofJson valueint name document).child =
        (membersOf document).map (CJson.ofMember valueint) ∧ ¬ Unnamed document ∨
      ∃ item more, (CJson.ofJson valueint name document).child =
        CJson.ofJson valueint none item :: more ∧ Unnamed document := by
  cases document with
  | null => exact .inl ⟨rfl, nofun⟩
  | bool value =>
      cases value with
      | false => exact .inl ⟨rfl, nofun⟩
      | true => exact .inl ⟨rfl, nofun⟩
  | number lexeme => exact .inl ⟨rfl, nofun⟩
  | string value => exact .inl ⟨rfl, nofun⟩
  | array items =>
      rw [CJson.child_ofJson_array]
      cases items with
      | nil => exact .inl ⟨rfl, nofun⟩
      | cons item more => exact .inr ⟨item, _, rfl, item, more, rfl⟩
  | object members => exact .inl ⟨CJson.child_ofJson_object name members, nofun⟩

private theorem string_ofMember (member : CText × Json) :
    (CJson.ofMember valueint member).string = some (CText.untilNul member.1) :=
  CJson.string_ofJson _ _

private theorem valuestring_ofMember (member : CText × Json) :
    (CJson.ofMember valueint member).valuestring =
      match member.2 with
      | .string value => some (CText.untilNul value)
      | _ => none := by
  obtain ⟨name, value⟩ := member
  cases value with
  | bool value => cases value <;> rfl
  | _ => rfl

private theorem isNumber_ofMember (member : CText × Json) :
    (CText.untilNul member.1 = text "func-id" ∧
        (CJson.ofMember valueint member).isNumber = false) ↔ badCode member = true := by
  obtain ⟨name, value⟩ := member
  cases value with
  | bool value => cases value <;> simp [badCode, CJson.ofMember, CJson.ofJson, CJson.isNumber,
      CJson.type]
  | _ => simp [badCode, CJson.ofMember, CJson.ofJson, CJson.isNumber, CJson.type]

private theorem strcpyInto_ofMember {room : CText → Option Nat} {member : CText × Json} {capacity : Nat}
    (copied : room (CText.untilNul member.1) = some capacity) :
    ((∀ value, member.2 ≠ .string value) ∧ overflows room member = false ∧
        strcpyInto capacity (CJson.ofMember valueint member).valuestring =
          .error .nullPointer) ∨
      (∃ value, member.2 = .string value) ∧
        if overflows room member then
          strcpyInto capacity (CJson.ofMember valueint member).valuestring = .error .overrun
        else ∃ value,
          strcpyInto capacity (CJson.ofMember valueint member).valuestring = .ok value := by
  rw [valuestring_ofMember]
  obtain ⟨name, value⟩ := member
  cases value with
  | string value =>
      refine .inr ⟨⟨value, rfl⟩, ?_⟩
      by_cases fits : (CText.untilNul value).length < capacity
      · have short : ¬ capacity ≤ (CText.untilNul value).length := by omega
        simp [overflows, copied, strcpyInto, fits, short]
      · have long : capacity ≤ (CText.untilNul value).length := by omega
        simp [overflows, copied, strcpyInto, fits, long]
  | null => exact .inl ⟨nofun, rfl, rfl⟩
  | bool value => exact .inl ⟨nofun, rfl, rfl⟩
  | number lexeme => exact .inl ⟨nofun, rfl, rfl⟩
  | array items => exact .inl ⟨nofun, rfl, rfl⟩
  | object members => exact .inl ⟨nofun, rfl, rfl⟩

private theorem overflows_of_none {room : CText → Option Nat} {member : CText × Json}
    (kept : room (CText.untilNul member.1) = none) : overflows room member = false := by
  obtain ⟨name, value⟩ := member
  cases value with
  | string value => simp only [overflows, kept]
  | _ => rfl

/-! ### Requests -/

private theorem hmiScan_null_iff (members : List (CText × Json)) (uuid : CText) (code : Int) :
    hmiScan (members.map (CJson.ofMember valueint)) uuid code = .error .nullPointer ↔
      ¬ CopiesStrings requestRoom (requestWalked members) := by
  induction members generalizing uuid code with
  | nil =>
      simp [hmiScan, requestWalked, copiesStrings_nil]
  | cons member more ih =>
      rw [List.map_cons]
      unfold hmiScan requestWalked
      simp only [string_ofMember]
      by_cases leaves : badCode member = true
      · rw [if_pos (isNumber_ofMember member |>.mpr leaves), if_pos leaves]
        simp [copiesStrings_nil]
      · rw [if_neg (fun both => leaves ((isNumber_ofMember member).mp both)), if_neg leaves]
        by_cases isUuid : CText.untilNul member.1 = text "uuid"
        · have copied : requestRoom (CText.untilNul member.1) = some uuidCapacity := if_pos isUuid
          simp only [if_pos isUuid]
          rcases @strcpyInto_ofMember valueint _ _ _ copied with
            ⟨noString, kept, fails⟩ | ⟨isString, outcome⟩
          · rw [fails, kept]
            simp only [Bool.false_eq_true, if_false, copiesStrings_cons, copied, Option.isSome_some,
              true_iff, forall_const]
            rintro ⟨⟨value, isString⟩, _⟩
            exact noString value isString
          · by_cases long : overflows requestRoom member = true
            · rw [if_pos long] at outcome
              rw [outcome, if_pos long, copiesStrings_cons]
              simp [isString, copiesStrings_nil]
            · rw [if_neg long] at outcome
              obtain ⟨value, fits⟩ := outcome
              rw [fits, if_neg long, copiesStrings_cons]
              simp only [isString, implies_true, true_and]
              exact ih value _
        · have kept : requestRoom (CText.untilNul member.1) = none := if_neg isUuid
          rw [overflows_of_none kept]
          simp only [if_neg isUuid, Bool.false_eq_true, if_false, copiesStrings_cons, kept,
            Option.isSome_none, false_implies, true_and]
          exact ih uuid _

private theorem hmiPayloadParser_null_iff {shared : Shared} {root : CJson}
    (connected : shared.gCtx.hmi ≠ none) :
    hmiPayloadParser shared (some root) = .error .nullPointer ↔
      hmiScan root.child shared.uuid 0 = .error .nullPointer := by
  cases scans : hmiScan root.child shared.uuid 0 with
  | error fault => simp [hmiPayloadParser, scans, bind, Except.bind]
  | ok scanned =>
      obtain ⟨uuid, code⟩ := scanned
      rw [hmiPayloadParser_eq scans]
      refine iff_of_false ?_ (by simp)
      cases respOf shared.gCtx code with
      | none =>
          intro failed
          cases failed
      | some resp =>
          dsimp only
          unfold Writer.fit
          generalize resp.build shared.hmiResponse (resp.identity uuid) = written
          by_cases inside : written.msg.top ≤ 1024 ∧ written.scratch ≤ resp.room
          · rw [if_pos inside]
            cases there : shared.gCtx.hmi with
            | none => exact absurd there connected
            | some nc =>
                cases resp with
                | startUpgrade info => simp [HmiResp.handOver]
                | checkNewPkg info => simp [HmiResp.handOver, there]
                | upgradeStat stat => simp [HmiResp.handOver, there]
          · rw [if_neg inside]
            intro failed
            cases failed

private theorem request_null_iff {shared : Shared} (connected : shared.gCtx.hmi ≠ none)
    (document : Json) :
    hmiPayloadParser shared (some (CJson.ofJson valueint none document)) ≠ .error .nullPointer ↔
      RequestReadable document := by
  rw [ne_eq, hmiPayloadParser_null_iff connected]
  unfold RequestReadable
  rcases @child_cases valueint none document with ⟨named, readable⟩ | ⟨item, more, first, unnamed⟩
  · rw [named, hmiScan_null_iff, not_not]
    exact ⟨fun copies => ⟨readable, copies⟩, fun both => both.2⟩
  · refine iff_of_false ?_ (fun both => both.1 unnamed)
    rw [first, not_not, hmiScan, CJson.string_ofJson]

/-! ### Reports -/

private theorem assign_null_iff (stat : BsEcuUpgradeStat) (member : CText × Json) :
    (stat.assign (CText.untilNul member.1) (CJson.ofMember valueint member) =
        .error .nullPointer ↔
      (reportRoom (CText.untilNul member.1)).isSome ∧ ∀ value, member.2 ≠ .string value) ∧
      (stat.assign (CText.untilNul member.1) (CJson.ofMember valueint member) =
        .error .overrun ↔ overflows reportRoom member = true) := by
  rw [assign_eq]
  cases room : reportRoom (CText.untilNul member.1) with
  | none => simp [overflows_of_none room]
  | some capacity =>
      dsimp only
      rcases @strcpyInto_ofMember valueint _ _ _ room with
        ⟨noString, kept, fails⟩ | ⟨⟨value, isString⟩, outcome⟩
      · rw [fails]
        simp [Except.map, kept, noString]
      · by_cases long : overflows reportRoom member = true
        · rw [if_pos long] at outcome
          rw [outcome]
          simp [Except.map, long, isString]
        · rw [if_neg long] at outcome
          obtain ⟨copied, fits⟩ := outcome
          rw [fits]
          simp [Except.map, long, isString]

private theorem updateMembers_null_iff (stat : BsEcuUpgradeStat) (members : List (CText × Json)) :
    updateMembers stat (members.map (CJson.ofMember valueint)) = .error .nullPointer ↔
      ¬ CopiesStrings reportRoom (reportWalked valueint stat.progressPercent members) := by
  induction members generalizing stat with
  | nil => simp [updateMembers, reportWalked, copiesStrings_nil]
  | cons member more ih =>
      rw [List.map_cons]
      unfold updateMembers reportWalked
      simp only [string_ofMember]
      by_cases isError : CText.untilNul member.1 = text "error"
      · rw [if_pos isError, if_pos isError]
        simp [copiesStrings_nil]
      rw [if_neg isError, if_neg isError]
      obtain ⟨nulls, overruns⟩ := @assign_null_iff valueint stat member
      cases stored : stat.assign (CText.untilNul member.1) (CJson.ofMember valueint member) with
      | error fault =>
          rw [stored] at nulls overruns
          cases fault with
          | nullPointer =>
              obtain ⟨copied, noString⟩ := nulls.mp rfl
              refine iff_of_true rfl ?_
              intro copies
              have first : member ∈ if overflows reportRoom member = true ∨
                  100 ≤ progressAfter valueint stat.progressPercent member then [member]
                else member :: reportWalked valueint
                  (progressAfter valueint stat.progressPercent member) more := by
                split <;> exact List.mem_cons_self
              obtain ⟨value, isString⟩ := copies member first copied
              exact noString value isString
          | overrun =>
              have long := overruns.mp rfl
              rw [if_pos (.inl long), copiesStrings_cons]
              simp only [reduceCtorEq, Except.error.injEq, false_iff, not_not]
              refine ⟨?_, copiesStrings_nil _⟩
              intro copied
              by_contra noString
              have null := nulls.mpr ⟨copied, fun value same => noString ⟨value, same⟩⟩
              cases null
      | ok assigned =>
          rw [stored] at nulls overruns
          have kept : ¬ overflows reportRoom member = true := fun long => by
            cases overruns.mpr long
          have isString : (reportRoom (CText.untilNul member.1)).isSome →
              ∃ value, member.2 = .string value := by
            intro copied
            by_contra noString
            have null := nulls.mpr ⟨copied, fun value same => noString ⟨value, same⟩⟩
            cases null
          have progress : assigned.progressPercent =
              progressAfter valueint stat.progressPercent member :=
            assign_progress stored
          rw [← progress]
          dsimp only
          by_cases full : 100 ≤ assigned.progressPercent
          · rw [if_pos full, if_pos (.inr full), copiesStrings_cons]
            refine iff_of_false ?_ (fun not_ => not_ ⟨isString, copiesStrings_nil _⟩)
            intro failed
            cases failed
          · rw [if_neg full, if_neg (by simp [kept, full]), copiesStrings_cons, ih assigned]
            exact not_congr ⟨fun copies => ⟨isString, copies⟩, fun both => both.2⟩

private theorem report_null_iff (stat : BsEcuUpgradeStat) (name : Option CText) (result : Json) :
    hmiRespUpgradeStatUpdate stat (CJson.ofJson valueint name result) ≠ .error .nullPointer ↔
      ReportReadable valueint stat.progressPercent result := by
  unfold hmiRespUpgradeStatUpdate ReportReadable
  rcases @child_cases valueint name result with ⟨named, readable⟩ | ⟨item, more, first, unnamed⟩
  · rw [named, ne_eq, updateMembers_null_iff, not_not]
    exact ⟨fun copies => ⟨readable, copies⟩, fun both => both.2⟩
  · refine iff_of_false ?_ (fun both => both.1 unnamed)
    rw [first, ne_eq, not_not, updateMembers, CJson.string_ofJson]

/-! ### Manifests -/

private theorem ofJson_of_mem_child {name : Option CText} {document : Json} {item : CJson}
    (member : item ∈ (CJson.ofJson valueint name document).child) :
    ∃ other value, item = CJson.ofJson valueint other value := by
  cases document with
  | array items =>
      rw [CJson.child_ofJson_array] at member
      obtain ⟨value, _, same⟩ := List.mem_map.mp member
      exact ⟨none, value, same.symm⟩
  | object members =>
      rw [CJson.child_ofJson_object] at member
      obtain ⟨⟨label, value⟩, _, same⟩ := List.mem_map.mp member
      exact ⟨_, value, same.symm⟩
  | bool value => cases value <;> cases member
  | _ => cases member

private theorem findNamed_mem {items : List CJson} {label : CText} {found : CJson}
    (done : findNamed items label = .ok (some found)) : found ∈ items := by
  induction items with
  | nil => cases done
  | cons iterator next ih =>
      unfold findNamed at done
      cases named : iterator.named label with
      | error fault =>
          rw [named] at done
          cases done
      | ok same =>
          rw [named] at done
          cases same with
          | true =>
              cases done
              exact List.mem_cons_self
          | false => exact List.mem_cons_of_mem _ (ih done)

private theorem firstPackage_ofJson_node {document : Json} {package : CJson}
    (found : firstPackage (CJson.ofJson valueint none document) = .ok (some package)) :
    ∃ name value, package = CJson.ofJson valueint name value := by
  unfold firstPackage at found
  cases first : findJsonChild (CJson.ofJson valueint none document) (text "manifest") with
  | error fault => simp [first] at found
  | ok manifest =>
      cases manifest with
      | none => simp [first] at found
      | some manifest =>
          obtain ⟨_, _, rfl⟩ := ofJson_of_mem_child (findNamed_mem first)
          simp only [first] at found
          split at found
          · cases found
          · cases found
          · rename_i packages second
            obtain ⟨_, _, rfl⟩ := ofJson_of_mem_child (findNamed_mem second)
            exact ofJson_of_mem_child (List.mem_of_getElem? (Except.ok.inj found))

private theorem valuestring_of_isString {name : Option CText} {value : Json}
    (isString : (CJson.ofJson valueint name value).isString = true) :
    (CJson.ofJson valueint name value).valuestring ≠ none := by
  obtain ⟨found, rfl⟩ := (CJson.isString_ofJson name value).mp isString
  exact nofun

private theorem getObjectItem_node {name : Option CText} {document : Json} {label : CText} {item : CJson}
    (found : (CJson.ofJson valueint name document).getObjectItem label = some item) :
    ∃ other value, item = CJson.ofJson valueint other value := by
  rw [CJson.getObjectItem_ofJson] at found
  cases member : lookupMember document label with
  | none => simp [member] at found
  | some pair =>
      rw [member] at found
      cases found
      exact ⟨_, pair.2, rfl⟩

private theorem strcpyInto_nullPointer {capacity : Nat} {source : Option CText}
    (failed : strcpyInto capacity source = .error .nullPointer) : source = none := by
  cases source with
  | none => rfl
  | some value =>
      unfold strcpyInto at failed
      by_cases fits : value.length < capacity
      · simp [fits] at failed
      · simp [fits] at failed

private theorem dmcMsgParse_null_iff (curManifest : BsL1Manifest) (pkgUrl : PkgUrl) (document : Json) :
    dmcMsgParse curManifest pkgUrl (some (CJson.ofJson valueint none document)) =
        .error .nullPointer ↔
      firstPackage (CJson.ofJson valueint none document) = .error .nullPointer := by
  constructor
  · intro failed
    rcases dmcMsgParse_cases curManifest pkgUrl (some (CJson.ofJson valueint none document)) with
      rejected | ⟨_, tree, same, uses⟩ | ⟨tree, package, ecu, res, url, name, same, judged⟩
    · rw [rejected] at failed
      cases failed
    · cases same
      rcases uses with walked | ⟨package, ecu, walked, hasEcu, isString, missing⟩
      · exact walked
      · rcases firstPackage_ofJson_node walked with ⟨_, _, rfl⟩
        rcases getObjectItem_node hasEcu with ⟨_, _, rfl⟩
        exact absurd missing (valuestring_of_isString isString)
    · cases same
      rw [dmcMsgParse_of_judged judged] at failed
      by_cases wpc : name = text "WPC"
      · rw [if_pos wpc] at failed
        rcases firstPackage_ofJson_node judged.walked with ⟨_, _, rfl⟩
        rcases getObjectItem_node judged.hasRes with ⟨_, _, rfl⟩
        rcases getObjectItem_node judged.hasUrl with ⟨_, _, rfl⟩
        refine absurd ?_ (valuestring_of_isString judged.urlString)
        refine @strcpyInto_nullPointer pkgCdnUrlCapacity _ ?_
        cases copied : strcpyInto pkgCdnUrlCapacity (CJson.ofJson valueint _ _).valuestring with
        | error fault =>
            rw [copied] at failed
            cases failed
            rfl
        | ok value =>
            rw [copied] at failed
            cases failed
      · rw [if_neg wpc] at failed
        cases failed
  · intro failed
    simp only [dmcMsgParse, failed]

private theorem findJsonChild_cases (name : Option CText) (document : Json) (label : CText) :
    Unnamed document ∧
        findJsonChild (CJson.ofJson valueint name document) label = .error .nullPointer ∨
      ¬ Unnamed document ∧
        findJsonChild (CJson.ofJson valueint name document) label =
          .ok ((lookupExactMember document label).map (CJson.ofMember valueint)) := by
  unfold findJsonChild
  rcases @child_cases valueint name document with ⟨named, readable⟩ | ⟨item, more, first, unnamed⟩
  · refine .inr ⟨readable, ?_⟩
    rw [named, findNamed_ofMember]
    rfl
  · refine .inl ⟨unnamed, ?_⟩
    rw [first, findNamed, CJson.named, CJson.string_ofJson]

private theorem firstPackage_null_iff (document : Json) :
    firstPackage (CJson.ofJson valueint none document) ≠ .error .nullPointer ↔
      ManifestReadable document := by
  unfold firstPackage ManifestReadable lookupExact
  rcases @findJsonChild_cases valueint none document (text "manifest") with
    ⟨unnamed, fails⟩ | ⟨readable, finds⟩
  · rw [fails]
    exact iff_of_false (fun other => other rfl) (fun both => both.1 unnamed)
  · rw [finds]
    cases lookupExactMember document (text "manifest") with
    | none => simp [readable]
    | some manifest =>
        simp only [Option.map_some, Option.some.injEq, forall_eq', readable, not_false_eq_true,
          true_and, CJson.ofMember]
        rcases @findJsonChild_cases valueint (some (CText.untilNul manifest.1)) manifest.2
            (text "packages") with ⟨unnamed, fails⟩ | ⟨named, found⟩
        · rw [fails]
          exact iff_of_false (fun other => other rfl) (fun other => other unnamed)
        · rw [found]
          refine iff_of_true ?_ named
          intro failed
          cases found_ : lookupExactMember manifest.2 (text "packages") with
          | none => simp [found_] at failed
          | some packages => simp [found_] at failed

/-! ### The three walkers -/

section Texts

variable (valueint : CText → Int) (parser : CText → Option Json)

/-- No walker uses a NULL pointer: `hmi_payload_parser` on the text of a request,
`dmc_msg_parse` on that of a manifest, `hmi_resp_upgrade_stat_update` on a
`result`. -/
structure NullFree (shared : Shared) (request manifest : CText) (result : Json) : Prop where
  request : hmiPayloadParser shared (CJson.parse valueint parser request) ≠ .error .nullPointer
  manifest : dmcMsgParse shared.gCtx.curManifest shared.gCtx.pkgUrl
    (CJson.parse valueint parser manifest) ≠ .error .nullPointer
  result : ∀ name, hmiRespUpgradeStatUpdate shared.gCtx.hmiUpgradeStat
    (CJson.ofJson valueint name result) ≠ .error .nullPointer

/-- The documents are of the shapes the walkers take them to have. -/
structure Readable (shared : Shared) (request manifest : CText) (result : Json) : Prop where
  request : ∀ document ∈ parser request, RequestReadable document
  manifest : ∀ document ∈ parser manifest, ManifestReadable document
  result : ReportReadable valueint shared.gCtx.hmiUpgradeStat.progressPercent result

end Texts

/-- On an accepted connection of the HMI no walker uses a NULL pointer exactly
when the documents are of the shapes they take them to have. -/
theorem nullFree_iff (valueint : CText → Int) (parser : CText → Option Json) (shared : Shared)
    (accepted : shared.gCtx.hmi ≠ none) (request manifest : CText) (result : Json) :
    NullFree valueint parser shared request manifest result ↔
      Readable valueint parser shared request manifest result := by
  have requests : hmiPayloadParser shared (CJson.parse valueint parser request) ≠
      .error .nullPointer ↔ ∀ document ∈ parser request, RequestReadable document := by
    unfold CJson.parse
    cases parser request with
    | none => exact iff_of_true nofun nofun
    | some document => simp [request_null_iff accepted]
  have manifests : dmcMsgParse shared.gCtx.curManifest shared.gCtx.pkgUrl
      (CJson.parse valueint parser manifest) ≠ .error .nullPointer ↔
        ∀ document ∈ parser manifest, ManifestReadable document := by
    unfold CJson.parse
    cases parser manifest with
    | none => exact iff_of_true nofun nofun
    | some document =>
        simp only [Option.map_some, ne_eq, dmcMsgParse_null_iff, Option.mem_def,
          Option.some.injEq, forall_eq']
        exact firstPackage_null_iff document
  constructor
  · intro free
    exact
      { request := requests.mp free.request
        manifest := manifests.mp free.manifest
        result := (report_null_iff _ none result).mp (free.result none) }
  · intro readable
    exact
      { request := requests.mpr readable.request
        manifest := manifests.mpr readable.manifest
        result := fun name => (report_null_iff _ name result).mpr readable.result }

/-! ### An array and an object -/

def hmiAccepted : Shared :=
  { Shared.init with gCtx := { Shared.init.gCtx with hmi := some 0 } }

theorem object_request_null_free :
    NullFree (fun _ => 1) Json.parse hmiAccepted (text "\x7b\"uuid\":\"a\"\x7d")
      (text "\x7b\"manifest\":\x7b\x7d\x7d")
      (.object [(text "status", .string (text "run"))]) := by
  refine (nullFree_iff _ _ hmiAccepted nofun _ _ _).mpr ?_
  constructor
  · intro document parsed
    have object : Json.parse (text "\x7b\"uuid\":\"a\"\x7d") =
        some (.object [(text "uuid", .string (text "a"))]) := rfl
    cases object.symm.trans parsed
    refine ⟨nofun, copiesStrings_cons.mpr ⟨fun _ => ⟨_, rfl⟩, copiesStrings_nil _⟩⟩
  · intro document parsed
    have object : Json.parse (text "\x7b\"manifest\":\x7b\x7d\x7d") =
        some (.object [(text "manifest", .object [])]) := rfl
    cases object.symm.trans parsed
    refine ⟨nofun, ?_⟩
    intro manifest found
    cases found
    exact nofun
  · exact ⟨nofun, copiesStrings_cons.mpr ⟨fun _ => ⟨_, rfl⟩, copiesStrings_nil _⟩⟩

theorem array_request_uses_null :
    ¬ ∀ (shared : Shared) (request manifest : CText) (result : Json), shared.gCtx.hmi ≠ none →
      NullFree (fun _ => 1) Json.parse shared request manifest result := by
  intro always
  have free := always hmiAccepted (text "[0]") [] .null nofun
  exact free.request rfl

end DlcServer
