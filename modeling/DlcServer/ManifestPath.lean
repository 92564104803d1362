/-
The two ways a received manifest may go.

The handler of the DMC connection parses a stub in the place of the payload, and
picks the stub by the words it finds in the text.  The call it keeps in a
comment parses the payload itself.  The two are compared by what they leave in
`g_stat`, `cur_manifest.dev_id` and behind `pkg_url`.
-/

import DlcServer.CoreState
import DlcServer.DmcStream
import DlcServer.ManifestAgreement

namespace DlcServer

open Library

/-- `core_state_handler(dmc_msg_parse(json))`, for the outcome `root` of
`cJSON_Parse`. -/
def handleManifest (shared : Shared) (root : Option CJson) : Except Fault Shared :=
  match dmcMsgParse shared.gCtx.curManifest shared.gCtx.pkgUrl root with
  | .error fault => .error fault
  | .ok parsed =>
      let stored :=
        { shared with
          gCtx :=
            { shared.gCtx with
              curManifest := parsed.curManifest
              pkgUrl := parsed.pkgUrl } }
      .ok (coreStateHandler stored parsed.nextStat shared.upgrade).shared

/-- MG_EV_RECV of `dmc_msg_handler`, for the text behind the length bytes. -/
def livePath (shared : Shared) (payload : CText) : Except Fault Shared :=
  match manifestNamed payload with
  | none => .ok shared
  | some stub => handleManifest shared (some stub.root)

/-- What the two ways are compared by. -/
structure ManifestState where
  gStat : Stat
  devId : CText
  pkgUrl : CText
  deriving DecidableEq

def Shared.manifestState (shared : Shared) : ManifestState :=
  { gStat := shared.gStat
    devId := shared.gCtx.curManifest.devId
    pkgUrl := shared.gCtx.pkgUrl.read shared.gCtx.curManifest }

/-- In every state the handler leaves what the call on the payload would. -/
def SamePath (payload : CText) (root : Option CJson) : Prop :=
  ∀ shared : Shared, (livePath shared payload).map Shared.manifestState =
    (handleManifest shared root).map Shared.manifestState

/-! ### What an accepted manifest leaves -/

/-- The first package of a parsed text. -/
def packageOf (root : Option CJson) : Option CJson :=
  match root.map firstPackage with
  | some (.ok package) => package
  | _ => none

/-- The texts of the ECU and the URL of the first package. -/
def firstEcu (root : Option CJson) : Option CText := do
  let package ← packageOf root
  let ecu ← package.getObjectItem (text "ecu")
  ecu.valuestring

def firstUrl (root : Option CJson) : Option CText := do
  let package ← packageOf root
  let res ← package.getObjectItem (text "resources")
  let url ← res.getObjectItem (text "fullDownloadUrl")
  url.valuestring

/-- What a package for the WPC with this URL leaves. -/
def wpcState (url : CText) : ManifestState :=
  { gStat := .dlcPkgDownloading, devId := text "WPC", pkgUrl := url }

/-- What any other package leaves. -/
def vdcmState : ManifestState :=
  { gStat := .dlcPkgDownloading, devId := text "VDCM", pkgUrl := [] }

private theorem judged_of_accepts {curManifest : BsL1Manifest} {pkgUrl : PkgUrl} {root : Option CJson}
    (accepts : DmcAccepts (dmcMsgParse curManifest pkgUrl root)) :
    ∃ tree package ecu res url name, root = some tree ∧
      Judged tree package ecu res url name := by
  obtain ⟨parsed, outcome, isNew⟩ := accepts
  rcases dmcMsgParse_cases curManifest pkgUrl root with rejected | ⟨failed, _⟩ | judged
  · rw [rejected] at outcome
    cases outcome
    contradiction
  · rw [failed] at outcome
    contradiction
  · exact judged

section Accepted

variable {tree package ecu res url : CJson} {name : CText}

private theorem firstEcu_of_judged (judged : Judged tree package ecu res url name) :
    firstEcu (some tree) = some name := by
  unfold firstEcu packageOf
  simp [judged.walked, judged.hasEcu, judged.named]

private theorem firstUrl_of_judged (judged : Judged tree package ecu res url name) :
    firstUrl (some tree) = url.valuestring := by
  unfold firstUrl packageOf
  simp [judged.walked, judged.hasRes, judged.hasUrl]

private theorem handleManifest_of_accepts {curManifest : BsL1Manifest} {pkgUrl : PkgUrl}
    {root : Option CJson} (accepts : DmcAccepts (dmcMsgParse curManifest pkgUrl root)) :
    (firstEcu root = some (text "WPC") ∧ ∃ url, firstUrl root = some url ∧
        ∀ shared, (handleManifest shared root).map Shared.manifestState = .ok (wpcState url)) ∨
      firstEcu root ≠ some (text "WPC") ∧
        ∀ shared, (handleManifest shared root).map Shared.manifestState = .ok vdcmState := by
  obtain ⟨tree, package, ecu, res, url, name, rfl, judged⟩ := judged_of_accepts accepts
  rw [firstEcu_of_judged judged, firstUrl_of_judged judged]
  by_cases wpc : name = text "WPC"
  · obtain ⟨parsed, outcome, _⟩ := accepts
    rw [dmcMsgParse_of_judged judged, if_pos wpc] at outcome
    cases copied : strcpyInto pkgCdnUrlCapacity url.valuestring with
    | error fault =>
        rw [copied] at outcome
        contradiction
    | ok value =>
        refine .inl ⟨congrArg some wpc, value, (strcpyInto_eq_ok copied).1, ?_⟩
        intro shared
        unfold handleManifest
        rw [dmcMsgParse_of_judged judged, if_pos wpc, copied]
        rfl
  · refine .inr ⟨fun same => wpc (Option.some.inj same), ?_⟩
    intro shared
    unfold handleManifest
    rw [dmcMsgParse_of_judged judged, if_neg wpc]
    rfl

end Accepted

/-! ### The comparison -/

/-- `strstr(payload, word) != NULL`. -/
def Mentions (payload : List UInt8) (word : String) : Prop :=
  (CText.untilNul payload).contains (text word) = true

private theorem manifestNamed_mani_iff (payload : List UInt8) :
    manifestNamed payload = some .mani ↔
      Mentions payload "fotaProtocolVersion" ∧ Mentions payload "WPC" :=
  namesWpc_iff payload

private theorem manifestNamed_maniVdcm_iff (payload : List UInt8) :
    manifestNamed payload = some .maniVdcm ↔
      Mentions payload "fotaProtocolVersion" ∧ ¬Mentions payload "WPC" ∧
        Mentions payload "VDCM" := by
  simp only [manifestNamed, Mentions]
  cases (CText.untilNul payload).contains (text "fotaProtocolVersion") <;>
    cases (CText.untilNul payload).contains (text "WPC") <;>
    cases (CText.untilNul payload).contains (text "VDCM") <;> simp

private theorem livePath_mani {payload : CText} (names : manifestNamed payload = some .mani)
    (shared : Shared) : (livePath shared payload).map Shared.manifestState =
      .ok (wpcState StubManifest.mani.fullDownloadUrl) := by
  unfold livePath
  rw [names]
  rfl

private theorem livePath_maniVdcm {payload : CText} (names : manifestNamed payload = some .maniVdcm)
    (shared : Shared) : (livePath shared payload).map Shared.manifestState = .ok vdcmState := by
  unfold livePath
  rw [names]
  rfl

private theorem not_samePath_of_none {payload : CText} {root : Option CJson} {url : CText}
    (names : manifestNamed payload = none)
    (outcome : ∀ shared, (handleManifest shared root).map Shared.manifestState =
        .ok (wpcState url) ∨
      (handleManifest shared root).map Shared.manifestState = .ok vdcmState) :
    ¬SamePath payload root := by
  intro same
  have atStart := same Shared.init
  have idle : Stat.statIdle ≠ .dlcPkgDownloading := by decide
  unfold livePath at atStart
  rw [names] at atStart
  rcases outcome Shared.init with wpc | vdcm
  · rw [wpc] at atStart
    exact absurd (congrArg ManifestState.gStat (Except.ok.inj atStart)) idle
  · rw [vdcm] at atStart
    exact absurd (congrArg ManifestState.gStat (Except.ok.inj atStart)) idle

section Comparison

variable {curManifest : BsL1Manifest} {pkgUrl : PkgUrl}

/-- The two ways agree in every state exactly on the payloads whose words say
what their first package is, and whose URL for the WPC is the stub's. -/
theorem samePath_iff {payload : CText} {root : Option CJson}
    (accepts : DmcAccepts (dmcMsgParse curManifest pkgUrl root)) :
    SamePath payload root ↔
      manifestNamed payload = some .mani ∧ firstEcu root = some (text "WPC") ∧
          firstUrl root = some StubManifest.mani.fullDownloadUrl ∨
        manifestNamed payload = some .maniVdcm ∧ firstEcu root ≠ some (text "WPC") := by
  have differ : ∀ url, wpcState url ≠ vdcmState := by
    intro url same
    have devices : text "WPC" = text "VDCM" := congrArg ManifestState.devId same
    exact absurd devices (by decide)
  rcases handleManifest_of_accepts accepts with ⟨isWpc, url, hasUrl, outcome⟩ | ⟨notWpc, outcome⟩
  · constructor
    · intro same
      cases names : manifestNamed payload with
      | none => exact absurd same (not_samePath_of_none names (fun shared => .inl (outcome shared)))
      | some stub =>
          have atStart := same Shared.init
          rw [outcome] at atStart
          cases stub with
          | mani =>
              rw [livePath_mani names] at atStart
              have urls := congrArg ManifestState.pkgUrl (Except.ok.inj atStart)
              exact .inl ⟨rfl, isWpc, hasUrl.trans (congrArg some urls.symm)⟩
          | maniVdcm =>
              rw [livePath_maniVdcm names] at atStart
              exact absurd (Except.ok.inj atStart).symm (differ url)
    · rintro (⟨names, _, sameUrl⟩ | ⟨_, notWpc⟩) shared
      · rw [hasUrl, Option.some.injEq] at sameUrl
        rw [livePath_mani names, outcome, sameUrl]
      · exact absurd isWpc notWpc
  · constructor
    · intro same
      cases names : manifestNamed payload with
      | none =>
          exact absurd same
            (@not_samePath_of_none _ _ [] names (fun shared => .inr (outcome shared)))
      | some stub =>
          have atStart := same Shared.init
          rw [outcome] at atStart
          cases stub with
          | mani =>
              rw [livePath_mani names] at atStart
              exact absurd (Except.ok.inj atStart) (differ _)
          | maniVdcm => exact .inr ⟨rfl, notWpc⟩
    · rintro (⟨_, isWpc, _⟩ | ⟨names, _⟩) shared
      · exact absurd isWpc notWpc
      · rw [livePath_maniVdcm names, outcome]

structure SaysFirst (payload : CText) (root : Option CJson) : Prop where
  version : Mentions payload "fotaProtocolVersion"
  wpc : Mentions payload "WPC" ↔ firstEcu root = some (text "WPC")
  vdcm : firstEcu root ≠ some (text "WPC") → Mentions payload "VDCM"

/-- On such payloads the handler leaves the state and the device of the manifest,
and the URL of the stub for the WPC. -/
theorem livePath_agrees {parser : CText → Option CJson} {payload : CText}
    (accepts : DmcAccepts (dmcMsgParse curManifest pkgUrl (parser payload)))
    (words : SaysFirst payload (parser payload)) (shared : Shared) :
    ∃ live intended,
      (livePath shared payload).map Shared.manifestState = .ok live ∧
        (handleManifest shared (parser payload)).map Shared.manifestState = .ok intended ∧
        live.gStat = intended.gStat ∧ live.devId = intended.devId ∧
        live.pkgUrl = (if firstEcu (parser payload) = some (text "WPC") then
          StubManifest.mani.fullDownloadUrl else intended.pkgUrl) ∧
        (firstEcu (parser payload) ≠ some (text "WPC") → live.devId ≠ text "WPC") := by
  rcases handleManifest_of_accepts accepts with ⟨isWpc, url, _, outcome⟩ | ⟨notWpc, outcome⟩
  · have names := (manifestNamed_mani_iff payload).mpr ⟨words.version, words.wpc.mpr isWpc⟩
    refine ⟨_, _, livePath_mani names shared, outcome shared, rfl, rfl, ?_, ?_⟩
    · rw [if_pos isWpc]
      rfl
    · exact fun notWpc => absurd isWpc notWpc
  · have noWpc : ¬Mentions payload "WPC" := fun mentions => notWpc (words.wpc.mp mentions)
    have names := (manifestNamed_maniVdcm_iff payload).mpr
      ⟨words.version, noWpc, words.vdcm notWpc⟩
    refine ⟨_, _, livePath_maniVdcm names shared, outcome shared, rfl, rfl, ?_, ?_⟩
    · rw [if_neg notWpc]
    · exact fun _ => by decide

end Comparison

/-! ### A payload that mentions another ECU -/

def remarkedDocument (remark : CText) : Json :=
  .object
    [(text "fotaProtocolVersion", .string (text "1")), (text "remark", .string remark),
      (text "manifest", .object [(text "packages", .array
        [.object
          [(text "ecu", .string (text "VDCM")),
            (text "resources", .object [(text "fullDownloadUrl", .string (text "u"))])]])])]

private theorem parse_remarkedDocument {remark : CText} (plain : Json.Plain remark) :
    Json.parse (Json.splice (remarkedDocument remark)) = some (remarkedDocument remark) := by
  rw [Json.parse_splice_iff]
  · exact ⟨by decide, by decide, by decide, plain, by decide⟩
  · exact ⟨trivial, trivial, ⟨⟨⟨trivial, ⟨trivial, trivial⟩, trivial⟩, trivial⟩, trivial⟩,
      trivial⟩

def remarkedPayload (remark : CText) : CText :=
  Json.splice (remarkedDocument remark)

private theorem remarkedPayload_root {remark : CText} (plain : Json.Plain remark) :
    CJson.parse (fun _ => 0) Json.parse (remarkedPayload remark) =
      some (CJson.ofJson (fun _ => 0) none (remarkedDocument remark)) := by
  unfold CJson.parse remarkedPayload
  rw [parse_remarkedDocument plain]
  rfl

private theorem remarkedPayload_accepted (remark : CText) (curManifest : BsL1Manifest)
    (pkgUrl : PkgUrl) :
    DmcAccepts (dmcMsgParse curManifest pkgUrl
      (some (CJson.ofJson (fun _ => 0) none (remarkedDocument remark)))) :=
  ⟨_, rfl, rfl⟩

theorem plain_payload_agrees :
    ∃ live intended,
      (livePath Shared.init (remarkedPayload (text "none"))).map Shared.manifestState =
          .ok live ∧
        (handleManifest Shared.init
            (CJson.parse (fun _ => 0) Json.parse (remarkedPayload (text "none")))).map
          Shared.manifestState = .ok intended ∧
        live.gStat = intended.gStat ∧ live.devId = intended.devId ∧
        live.pkgUrl =
          (if firstEcu (CJson.parse (fun _ => 0) Json.parse (remarkedPayload (text "none"))) =
              some (text "WPC") then
            StubManifest.mani.fullDownloadUrl else intended.pkgUrl) ∧
        (firstEcu (CJson.parse (fun _ => 0) Json.parse (remarkedPayload (text "none"))) ≠
          some (text "WPC") → live.devId ≠ text "WPC") := by
  have root := @remarkedPayload_root (text "none") (by decide)
  refine @livePath_agrees { devId := [], pkgCdnUrl := [] } (.literal [])
    (CJson.parse (fun _ => 0) Json.parse) _ ?_ ⟨?_, ?_, ?_⟩ Shared.init
  · rw [root]
    exact remarkedPayload_accepted _ _ _
  · unfold Mentions
    decide +kernel
  · have notWpc : firstEcu (CJson.parse (fun _ => 0) Json.parse (remarkedPayload (text "none"))) =
        some (text "VDCM") := by
      rw [root]
      rfl
    rw [notWpc]
    unfold Mentions
    decide +kernel
  · intro _
    unfold Mentions
    decide +kernel

theorem remark_starts_wpc :
    DmcAccepts (dmcMsgParse { devId := [], pkgCdnUrl := [] } (.literal [])
        (CJson.parse (fun _ => 0) Json.parse (remarkedPayload (text "not for the WPC")))) ∧
      firstEcu (CJson.parse (fun _ => 0) Json.parse
        (remarkedPayload (text "not for the WPC"))) = some (text "VDCM") ∧
      (livePath Shared.init (remarkedPayload (text "not for the WPC"))).map
          Shared.manifestState = .ok (wpcState StubManifest.mani.fullDownloadUrl) ∧
      ¬SamePath (remarkedPayload (text "not for the WPC"))
        (CJson.parse (fun _ => 0) Json.parse (remarkedPayload (text "not for the WPC"))) := by
  have root := @remarkedPayload_root (text "not for the WPC") (by decide)
  have names : manifestNamed (remarkedPayload (text "not for the WPC")) = some .mani := by
    decide +kernel
  rw [root]
  refine ⟨remarkedPayload_accepted _ _ _, rfl, livePath_mani names Shared.init, ?_⟩
  intro same
  have atStart := same Shared.init
  rw [livePath_mani names] at atStart
  have devices := congrArg (Except.map ManifestState.devId) atStart
  exact absurd devices (by decide +kernel)

end DlcServer
