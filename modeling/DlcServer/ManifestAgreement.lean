/-
The two manifest parsers on one document.

`dmc_msg_parse` looks at the first package only, and accepts it for an ECU and a
URL that are strings; its way down to the packages goes by exact names.
`bs_parse_l1_manifest` asks the first package for more, and every other one for
all of it.
-/

import DlcServer.L1Manifest
import DlcServer.Manifest

namespace DlcServer

open Library

/-! ### What dmc_msg_parse finds -/

section Found

variable {valueint : CText → Int}

private theorem getObjectItem_of_lookup {document value : Json} {label : CText} (name : Option CText)
    (found : lookup document label = some value) :
    ∃ other, (CJson.ofJson valueint name document).getObjectItem label =
      some (CJson.ofJson valueint other value) := by
  rw [CJson.getObjectItem_ofJson]
  unfold lookup at found
  obtain ⟨member, isFound, rfl⟩ := Option.map_eq_some_iff.mp found
  rw [isFound]
  exact ⟨some (CText.untilNul member.1), rfl⟩

private theorem lookup_of_getObjectItem {document : Json} {label : CText} {name : Option CText}
    {item : CJson}
    (found : (CJson.ofJson valueint name document).getObjectItem label = some item) :
    ∃ other value, lookup document label = some value ∧
      item = CJson.ofJson valueint other value := by
  rw [CJson.getObjectItem_ofJson] at found
  obtain ⟨member, isFound, rfl⟩ := Option.map_eq_some_iff.mp found
  refine ⟨some (CText.untilNul member.1), member.2, ?_, rfl⟩
  unfold lookup
  rw [isFound]
  rfl

theorem findNamed_ofMember (members : List (CText × Json)) (label : CText) :
    findNamed (members.map (CJson.ofMember valueint)) label =
      .ok ((members.find? (fun member => CText.untilNul member.1 == label)).map
        (CJson.ofMember valueint)) := by
  induction members with
  | nil => rfl
  | cons member more ih =>
      have isNamed : (CJson.ofMember valueint member).named label =
          .ok (CText.untilNul member.1 == label) := by
        unfold CJson.named CJson.ofMember
        rw [CJson.string_ofJson]
      rw [List.map_cons, findNamed, isNamed, List.find?_cons]
      cases CText.untilNul member.1 == label with
      | true => rfl
      | false => exact ih

private theorem findJsonChild_of_lookupExact {document value : Json} {label : CText}
    (name : Option CText) (found : lookupExact document label = some value) :
    ∃ other, findJsonChild (CJson.ofJson valueint name document) label =
      .ok (some (CJson.ofJson valueint other value)) := by
  unfold lookupExact lookupExactMember at found
  obtain ⟨member, isFound, rfl⟩ := Option.map_eq_some_iff.mp found
  cases document with
  | object members =>
      unfold findJsonChild
      rw [CJson.child_ofJson_object, findNamed_ofMember]
      unfold membersOf at isFound
      rw [isFound]
      exact ⟨some (CText.untilNul member.1), rfl⟩
  | _ => contradiction

/-- `manifest.packages` under exactly these names, which no earlier name differs
from in case only. -/
def PackagesByName (document : Json) (items : List Json) : Prop :=
  HasPackages document items ∧
    lookupExact document (text "manifest") = lookup document (text "manifest") ∧
    ∀ manifest, lookup document (text "manifest") = some manifest →
      lookupExact manifest (text "packages") = lookup manifest (text "packages")

private theorem firstPackage_ofJson {document first : Json} {items : List Json}
    (byName : PackagesByName document items) (isFirst : items[0]? = some first) :
    firstPackage (CJson.ofJson valueint none document) =
      .ok (some (CJson.ofJson valueint none first)) := by
  obtain ⟨⟨members, hasManifest, hasPackages⟩, sameManifest, samePackages⟩ := byName
  obtain ⟨manifestName, manifestFound⟩ :=
    @findJsonChild_of_lookupExact valueint _ _ _ none (sameManifest.trans hasManifest)
  obtain ⟨packagesName, packagesFound⟩ :=
    @findJsonChild_of_lookupExact valueint _ _ _ manifestName
      ((samePackages _ hasManifest).trans hasPackages)
  unfold firstPackage
  rw [manifestFound]
  simp only [packagesFound]
  unfold CJson.getArrayItem
  rw [CJson.child_ofJson_array, List.getElem?_map, isFirst]
  rfl

private theorem dmcMsgParse_ofJson {document first res : Json} {items : List Json} {ecu url : CText}
    (curManifest : BsL1Manifest) (pkgUrl : PkgUrl) (byName : PackagesByName document items)
    (isFirst : items[0]? = some first) (hasEcu : lookup first (text "ecu") = some (.string ecu))
    (hasRes : lookup first (text "resources") = some res)
    (hasUrl : lookup res (text "fullDownloadUrl") = some (.string url)) :
    dmcMsgParse curManifest pkgUrl (some (CJson.ofJson valueint none document)) =
      if CText.untilNul ecu = text "WPC" then
        (strcpyInto pkgCdnUrlCapacity (some (CText.untilNul url))).map fun copied =>
          { curManifest := { devId := text "WPC", pkgCdnUrl := copied }
            pkgUrl := .curManifest
            nextStat := .dlcPkgNew }
      else
        .ok
          { curManifest := { curManifest with devId := text "VDCM" }
            pkgUrl := .literal []
            nextStat := .dlcPkgNew } := by
  obtain ⟨ecuName, ecuFound⟩ := @getObjectItem_of_lookup valueint _ _ _ none hasEcu
  obtain ⟨resName, resFound⟩ := @getObjectItem_of_lookup valueint _ _ _ none hasRes
  obtain ⟨urlName, urlFound⟩ := @getObjectItem_of_lookup valueint _ _ _ resName hasUrl
  unfold dmcMsgParse
  simp only [firstPackage_ofJson byName isFirst, ecuFound, resFound, urlFound]
  rfl

end Found

/-! ### Agreement -/

/-- `dmc_msg_parse` returns DLC_PKG_NEW. -/
def DmcAccepts (outcome : Except Fault ParsedManifest) : Prop :=
  ∃ parsed, outcome = .ok parsed ∧ parsed.nextStat = .dlcPkgNew

/-- `bs_parse_l1_manifest` returns JCFG_ERR_OK. -/
def BsAccepts (outcome : Except Fault (JcfgErr × BsL1ManifestT)) : Prop :=
  ∃ after, outcome = .ok (.ok, after)

/-- The members of a package that `dmc_msg_parse` asks for. -/
def NamesUrl (package : Json) : Prop :=
  ∃ ecu res url, lookup package (text "ecu") = some (.string ecu) ∧
    lookup package (text "resources") = some res ∧
    lookup res (text "fullDownloadUrl") = some (.string url)

/-- The members that `bs_parse_l1_manifest` asks for besides. -/
def NamesRest (package : Json) : Prop :=
  ∃ typ res sum size, lookup package (text "deviceType") = some (.string typ) ∧
    devTypeNamed (CText.untilNul typ) ≠ none ∧
    lookup package (text "resources") = some res ∧
    lookup res (text "fullDownloadChecksum") = some (.string sum) ∧
    lookup res (text "fullSize") = some (.number size)

/-- What the two have stored names the same device, and for a WPC the same URL. -/
def SamePackage (dmc : Except Fault ParsedManifest)
    (bs : Except Fault (JcfgErr × BsL1ManifestT)) : Prop :=
  ∀ parsed after, dmc = .ok parsed → parsed.nextStat = .dlcPkgNew → bs = .ok (.ok, after) →
    (parsed.curManifest.devId = text "WPC" ↔ (after.packages 0).devId = text "WPC") ∧
      (parsed.curManifest.devId = text "WPC" →
        parsed.curManifest.pkgCdnUrl = (after.packages 0).pkgUrl)

/-- The URL of a first package for the WPC has room in `pkg_cdn_url`. -/
def WpcUrlFits (first : Json) : Prop :=
  ∀ ecu res url, lookup first (text "ecu") = some (.string ecu) →
    CText.untilNul ecu = text "WPC" → lookup first (text "resources") = some res →
    lookup res (text "fullDownloadUrl") = some (.string url) →
    (CText.untilNul url).length < pkgCdnUrlCapacity

private theorem take_eq_wpc_iff (name : CText) : name.take 32 = text "WPC" ↔ name = text "WPC" := by
  constructor
  · intro same
    have length := congrArg List.length same
    have three : (text "WPC").length = 3 := rfl
    rw [List.length_take, three] at length
    rwa [List.take_of_length_le (by omega)] at same
  · rintro rfl
    rfl

private theorem lookup_object {document value : Json} {label : CText}
    (found : lookup document label = some value) : ∃ members, document = .object members := by
  cases document with
  | object members => exact ⟨members, rfl⟩
  | _ => contradiction

private theorem isPackage_iff {valueint : CText → Int} {item : Json} :
    (∃ pkg, IsPackage valueint item pkg) ↔ NamesUrl item ∧ NamesRest item := by
  constructor
  · rintro ⟨pkg, has, isType, _⟩
    refine ⟨⟨_, _, _, has.hasEcu, has.hasResources, has.hasUrl⟩,
      _, _, _, _, has.hasTyp, ?_, has.hasResources, has.hasSum, has.hasSize⟩
    rw [isType]
    exact Option.some_ne_none _
  · rintro ⟨⟨ecu, res, url, hasEcu, hasRes, hasUrl⟩,
      typ, same, sum, size, hasTyp, isType, hasSame, hasSum, hasSize⟩
    cases hasRes.symm.trans hasSame
    obtain ⟨members, rfl⟩ := lookup_object hasUrl
    obtain ⟨devType, named⟩ := Option.ne_none_iff_exists'.mp isType
    exact ⟨{ devType := devType, devId := _, pkgUrl := _, chkSum := _, pkgSiz := _ },
      ⟨ecu, typ, members, sum, url, size, hasEcu, hasTyp, hasRes, hasSum, hasUrl, hasSize⟩,
      named, rfl, rfl, rfl, rfl⟩

section Agreement

variable {parser : CText → Option Json} {valueint : CText → Int}
  {curManifest : BsL1Manifest} {pkgUrl : PkgUrl}

private theorem dmcAccepts_iff {document first : Json} {items : List Json}
    (byName : PackagesByName document items) (isFirst : items[0]? = some first)
    (fits : WpcUrlFits first) :
    DmcAccepts (dmcMsgParse curManifest pkgUrl (some (CJson.ofJson valueint none document))) ↔
      NamesUrl first := by
  have walked := @firstPackage_ofJson valueint _ _ _ byName isFirst
  constructor
  · rintro ⟨parsed, outcome, isNew⟩
    rcases dmcMsgParse_cases curManifest pkgUrl (some (CJson.ofJson valueint none document)) with
      rejected | ⟨fault, _⟩ | ⟨tree, package, ecu, res, url, name, isTree, judged⟩
    · cases rejected.symm.trans outcome
      cases isNew
    · cases fault.symm.trans outcome
    · cases isTree
      cases walked.symm.trans judged.walked
      obtain ⟨_, ecuValue, hasEcu, rfl⟩ := lookup_of_getObjectItem judged.hasEcu
      obtain ⟨_, resValue, hasRes, rfl⟩ := lookup_of_getObjectItem judged.hasRes
      obtain ⟨_, urlValue, hasUrl, rfl⟩ := lookup_of_getObjectItem judged.hasUrl
      obtain ⟨ecuText, rfl⟩ := (CJson.isString_ofJson _ _).mp judged.ecuString
      obtain ⟨urlText, rfl⟩ := (CJson.isString_ofJson _ _).mp judged.urlString
      exact ⟨ecuText, resValue, urlText, hasEcu, hasRes, hasUrl⟩
  · rintro ⟨ecu, res, url, hasEcu, hasRes, hasUrl⟩
    have outcome := @dmcMsgParse_ofJson valueint _ _ _ _ _ _ curManifest pkgUrl byName isFirst
      hasEcu hasRes hasUrl
    by_cases wpc : CText.untilNul ecu = text "WPC"
    · have short := fits ecu res url hasEcu wpc hasRes hasUrl
      rw [if_pos wpc] at outcome
      unfold strcpyInto at outcome
      simp only [if_pos short] at outcome
      exact ⟨_, outcome, rfl⟩
    · rw [if_neg wpc] at outcome
      exact ⟨_, outcome, rfl⟩

private theorem dmcMsgParse_of_package {document first : Json} {items : List Json}
    (byName : PackagesByName document items) (isFirst : items[0]? = some first)
    (has : PackageMembers first) (fits : WpcUrlFits first) {parsed : ParsedManifest}
    (outcome : dmcMsgParse curManifest pkgUrl (some (CJson.ofJson valueint none document)) =
      .ok parsed) :
    (parsed.curManifest.devId = text "WPC" ↔ CText.untilNul has.ecu = text "WPC") ∧
      (CText.untilNul has.ecu = text "WPC" →
        parsed.curManifest.pkgCdnUrl = CText.untilNul has.url ∧
          (CText.untilNul has.url).length < pkgCdnUrlCapacity) := by
  have run := @dmcMsgParse_ofJson valueint _ _ _ _ _ _ curManifest pkgUrl byName isFirst
    has.hasEcu has.hasResources has.hasUrl
  by_cases wpc : CText.untilNul has.ecu = text "WPC"
  · have short := fits has.ecu _ has.url has.hasEcu wpc has.hasResources has.hasUrl
    rw [if_pos wpc] at run
    unfold strcpyInto at run
    simp only [if_pos short] at run
    cases run.symm.trans outcome
    exact ⟨by simp [wpc], fun _ => ⟨rfl, short⟩⟩
  · rw [if_neg wpc] at run
    cases run.symm.trans outcome
    refine ⟨?_, fun isWpc => absurd isWpc wpc⟩
    simp only [wpc, iff_false]
    decide

/-- On up to four packages found under their exact names, of which a first one for
the WPC has a URL that fits: `dmc_msg_parse` accepts by the ECU and the URL of the
first one alone, `bs_parse_l1_manifest` accepts of those what has the rest of its
members and only whole packages behind it, and both store the same. -/
theorem parsers_agree {json : CText} {document first : Json} {items : List Json}
    (l1Mani : BsL1ManifestT) (parsed : parser json = some document)
    (byName : PackagesByName document items) (isFirst : items[0]? = some first)
    (few : items.length ≤ bsMaxManiPkgNum) (fits : WpcUrlFits first) :
    (DmcAccepts (dmcMsgParse curManifest pkgUrl (CJson.parse valueint parser json)) ↔
        NamesUrl first) ∧
      (BsAccepts (bsParseL1Manifest l1Mani (CJson.parse valueint parser json)) ↔
        DmcAccepts (dmcMsgParse curManifest pkgUrl (CJson.parse valueint parser json)) ∧
          NamesRest first ∧ ∀ item ∈ items.tail, ∃ pkg, IsPackage valueint item pkg) ∧
      SamePackage (dmcMsgParse curManifest pkgUrl (CJson.parse valueint parser json))
        (bsParseL1Manifest l1Mani (CJson.parse valueint parser json)) := by
  have root : CJson.parse valueint parser json = some (CJson.ofJson valueint none document) := by
    unfold CJson.parse
    rw [parsed]
    rfl
  have accepted_iff (others : List Json) : Accepted parser valueint json others ↔
      others = items ∧ ∀ item ∈ items, ∃ pkg, IsPackage valueint item pkg := by
    constructor
    · intro accepted
      have is_ := accepted_hasPackages parsed byName.1 accepted
      exact ⟨is_.1, is_.2.2⟩
    · rintro ⟨rfl, all⟩
      exact ⟨document, parsed, byName.1, few, all⟩
  have all_iff : (∀ item ∈ items, ∃ pkg, IsPackage valueint item pkg) ↔
      (NamesUrl first ∧ NamesRest first) ∧
        ∀ item ∈ items.tail, ∃ pkg, IsPackage valueint item pkg := by
    cases items with
    | nil => cases isFirst
    | cons item others =>
        cases isFirst
        rw [List.forall_mem_cons, isPackage_iff, List.tail_cons]
  rcases @bsPackages_ofJson valueint document with ⟨others, name, has, found⟩ | ⟨missing, _⟩
  case inr => exact absurd byName.1 (missing items)
  cases hasPackages_unique has byName.1
  obtain ⟨code, after, run, accepts, stores, _⟩ :=
    @parsesL1_of_few parser valueint l1Mani _ _ _ _ parsed has few found
  have bsAccepts_iff : BsAccepts (.ok (code, after)) ↔
      ∀ item ∈ items, ∃ pkg, IsPackage valueint item pkg := by
    constructor
    · rintro ⟨_, ran⟩
      cases ran
      obtain ⟨others, accepted⟩ := accepts.mp rfl
      exact ((accepted_iff others).mp accepted).2
    · intro all
      exact ⟨after, by rw [accepts.mpr ⟨items, (accepted_iff items).mpr ⟨rfl, all⟩⟩]⟩
  rw [run, root, bsAccepts_iff, all_iff, dmcAccepts_iff byName isFirst fits, and_assoc]
  refine ⟨Iff.rfl, Iff.rfl, ?_⟩
  intro manifest entries outcome _ isOk
  cases isOk
  obtain ⟨others, accepted⟩ := accepts.mp rfl
  obtain ⟨rfl, _⟩ := (accepted_iff others).mp accepted
  obtain ⟨members, _, devId, url, _⟩ := (stores rfl _ accepted).2.1 0 first isFirst
  obtain ⟨isWpc, hasUrl⟩ := dmcMsgParse_of_package byName isFirst members fits outcome
  rw [devId, url, take_eq_wpc_iff, isWpc]
  refine ⟨Iff.rfl, fun wpc => ?_⟩
  obtain ⟨copied, short⟩ := hasUrl wpc
  have whole : (CText.untilNul members.url).take 128 = CText.untilNul members.url :=
    List.take_of_length_le (le_of_lt short)
  rw [copied, whole]

end Agreement

/-! ### A package both accept, and one that only one of them does -/

def documentOf (package : Json) : Json :=
  .object [(text "manifest", .object [(text "packages", .array [package])])]

/-- A package for the WPC with every member that is asked for. -/
def wholePackage : Json :=
  .object
    [(text "ecu", .string (text "WPC")), (text "deviceType", .string (text "can")),
      (text "resources", .object
        [(text "fullSize", .number (Json.decimal 12345)),
          (text "fullDownloadChecksum", .string (text "MD5")),
          (text "fullDownloadUrl", .string (text "u"))])]

/-- A package for the WPC with a URL, and nothing else. -/
def barePackage : Json :=
  .object
    [(text "ecu", .string (text "WPC")),
      (text "resources", .object [(text "fullDownloadUrl", .string (text "u"))])]

private theorem documentOf_byName (package : Json) : PackagesByName (documentOf package) [package] := by
  refine ⟨⟨_, rfl, rfl⟩, rfl, ?_⟩
  rintro manifest found
  cases found
  rfl

private theorem parse_documentOf {package : Json} (integral : Json.Integral package)
    (plain : Json.AllPlain package) :
    Json.parse (Json.splice (documentOf package)) = some (documentOf package) := by
  rw [Json.parse_splice_iff]
  · exact ⟨by decide, ⟨by decide, ⟨plain, trivial⟩, trivial⟩, trivial⟩
  · exact ⟨⟨⟨integral, trivial⟩, trivial⟩, trivial⟩

private theorem parse_wholePackage :
    Json.parse (Json.splice (documentOf wholePackage)) = some (documentOf wholePackage) :=
  parse_documentOf ⟨trivial, trivial, ⟨⟨12345, rfl⟩, trivial, trivial, trivial⟩, trivial⟩
    (by decide)

private theorem parse_barePackage :
    Json.parse (Json.splice (documentOf barePackage)) = some (documentOf barePackage) :=
  parse_documentOf ⟨trivial, ⟨trivial, trivial⟩, trivial⟩ (by decide)

theorem wholePackage_agrees :
    (DmcAccepts (dmcMsgParse { devId := [], pkgCdnUrl := [] } (.literal [])
        (CJson.parse (fun _ => 0) Json.parse (Json.splice (documentOf wholePackage)))) ↔
      NamesUrl wholePackage) ∧
    (BsAccepts (bsParseL1Manifest { pkgNum := 0, packages := fun _ => .zero }
        (CJson.parse (fun _ => 0) Json.parse (Json.splice (documentOf wholePackage)))) ↔
      DmcAccepts (dmcMsgParse { devId := [], pkgCdnUrl := [] } (.literal [])
        (CJson.parse (fun _ => 0) Json.parse (Json.splice (documentOf wholePackage)))) ∧
      NamesRest wholePackage ∧
        ∀ item ∈ [wholePackage].tail, ∃ pkg, IsPackage (fun _ => 0) item pkg) ∧
    SamePackage
      (dmcMsgParse { devId := [], pkgCdnUrl := [] } (.literal [])
        (CJson.parse (fun _ => 0) Json.parse (Json.splice (documentOf wholePackage))))
      (bsParseL1Manifest { pkgNum := 0, packages := fun _ => .zero }
        (CJson.parse (fun _ => 0) Json.parse (Json.splice (documentOf wholePackage)))) := by
  refine parsers_agree _ parse_wholePackage (documentOf_byName wholePackage) rfl (by decide) ?_
  intro ecu res url _ _ hasRes hasUrl
  cases hasRes
  cases hasUrl
  decide

/-- The agreement that both parsers accept the same texts and store the same. -/
def ParsersAgree (parser : CText → Option Json) (json : CText) : Prop :=
  ∀ valueint curManifest pkgUrl l1Mani,
    (DmcAccepts (dmcMsgParse curManifest pkgUrl (CJson.parse valueint parser json)) ↔
      BsAccepts (bsParseL1Manifest l1Mani (CJson.parse valueint parser json))) ∧
    SamePackage (dmcMsgParse curManifest pkgUrl (CJson.parse valueint parser json))
      (bsParseL1Manifest l1Mani (CJson.parse valueint parser json))

theorem barePackage_disagrees :
    ∃ document items, Json.parse (Json.splice (documentOf barePackage)) = some document ∧
      PackagesByName document items ∧ items.length = 1 ∧
      ¬ParsersAgree Json.parse (Json.splice (documentOf barePackage)) := by
  refine ⟨_, _, parse_barePackage, documentOf_byName barePackage, rfl, ?_⟩
  intro agree
  have root : CJson.parse (fun _ => 0) Json.parse (Json.splice (documentOf barePackage)) =
      some (CJson.ofJson (fun _ => 0) none (documentOf barePackage)) := by
    unfold CJson.parse
    rw [parse_barePackage]
    rfl
  have both := (agree (fun _ => 0) { devId := [], pkgCdnUrl := [] } (.literal [])
    { pkgNum := 0, packages := fun _ => .zero }).1
  rw [root] at both
  have accepted := both.mp ⟨_, rfl, rfl⟩
  obtain ⟨after, run⟩ := accepted
  have rejected : bsParseL1Manifest { pkgNum := 0, packages := fun _ => .zero }
      (some (CJson.ofJson (fun _ => 0) none (documentOf barePackage))) =
        .ok (.badDocument, BsL1ManifestT.clear { pkgNum := 0, packages := fun _ => .zero }) := rfl
  rw [rejected, Except.ok.injEq, Prod.mk.injEq] at run
  exact absurd run.1 (by decide)

end DlcServer
