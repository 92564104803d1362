/-
The manifests of the DMC: how one is parsed, and the two stub manifests that
are parsed in the place of a received one.
-/

import DlcServer.Records

namespace DlcServer

open Library

/-! ### Parsing -/

def findNamed : List CJson → CText → Except Fault (Option CJson)
  | [], _ => .ok none
  | iterator :: next, label =>
      match iterator.named label with
      | .error fault => .error fault
      | .ok true => .ok (some iterator)
      | .ok false => findNamed next label

def findJsonChild (root : CJson) (label : CText) : Except Fault (Option CJson) :=
  findNamed root.child label

def firstPackage (root : CJson) : Except Fault (Option CJson) :=
  match findJsonChild root (text "manifest") with
  | .error fault => .error fault
  | .ok none => .ok none
  | .ok (some manifest) =>
      match findJsonChild manifest (text "packages") with
      | .error fault => .error fault
      | .ok none => .ok none
      | .ok (some packages) => .ok (packages.getArrayItem 0)

/-- What `dmc_msg_parse` writes to `g_ctx`, and the state it returns. -/
structure ParsedManifest where
  curManifest : BsL1Manifest
  pkgUrl : PkgUrl
  nextStat : Stat

def dmcMsgParse (curManifest : BsL1Manifest) (pkgUrl : PkgUrl) (root : Option CJson) :
    Except Fault ParsedManifest :=
  let rejected := ParsedManifest.mk curManifest pkgUrl .statInvalid
  match root with
  | none => .ok rejected
  | some root =>
      match firstPackage root with
      | .error fault => .error fault
      | .ok none => .ok rejected
      | .ok (some package) =>
          match package.getObjectItem (text "ecu"), package.getObjectItem (text "resources") with
          | some ecu, some res =>
              match res.getObjectItem (text "fullDownloadUrl") with
              | none => .ok rejected
              | some url =>
                  if !ecu.isString || !url.isString then .ok rejected
                  else
                    match ecu.valuestring with
                    | none => .error .nullPointer
                    | some name =>
                        if name = text "WPC" then
                          (strcpyInto pkgCdnUrlCapacity url.valuestring).map fun copied =>
                            { curManifest := { devId := text "WPC", pkgCdnUrl := copied }
                              pkgUrl := .curManifest
                              nextStat := .dlcPkgNew }
                        else
                          .ok
                            { curManifest := { curManifest with devId := text "VDCM" }
                              pkgUrl := .literal []
                              nextStat := .dlcPkgNew }
          | _, _ => .ok rejected

/-! ### What the parser comes to -/

/-- The nodes an accepted manifest was judged by. -/
structure Judged (tree package ecu res url : CJson) (name : CText) : Prop where
  walked : firstPackage tree = .ok (some package)
  hasEcu : package.getObjectItem (text "ecu") = some ecu
  hasRes : package.getObjectItem (text "resources") = some res
  hasUrl : res.getObjectItem (text "fullDownloadUrl") = some url
  ecuString : ecu.isString = true
  urlString : url.isString = true
  named : ecu.valuestring = some name

theorem dmcMsgParse_of_judged {tree package ecu res url : CJson} {name : CText}
    (judged : Judged tree package ecu res url name) (curManifest : BsL1Manifest)
    (pkgUrl : PkgUrl) :
    dmcMsgParse curManifest pkgUrl (some tree) =
      if name = text "WPC" then
        (strcpyInto pkgCdnUrlCapacity url.valuestring).map fun copied =>
          { curManifest := { devId := text "WPC", pkgCdnUrl := copied }
            pkgUrl := .curManifest
            nextStat := .dlcPkgNew }
      else
        .ok
          { curManifest := { curManifest with devId := text "VDCM" }
            pkgUrl := .literal []
            nextStat := .dlcPkgNew } := by
  unfold dmcMsgParse
  simp only [judged.walked, judged.hasEcu, judged.hasRes, judged.hasUrl, judged.ecuString,
    judged.urlString, judged.named]
  rfl

private theorem findNamed_fault {items : List CJson} {label : CText} {fault : Fault}
    (failed : findNamed items label = .error fault) : fault = .nullPointer := by
  induction items with
  | nil => contradiction
  | cons iterator next ih =>
      simp only [findNamed, CJson.named] at failed
      cases named : iterator.string with
      | none =>
          simp only [named] at failed
          cases failed
          rfl
      | some name =>
          simp only [named] at failed
          cases same : name == label with
          | true => simp [same] at failed
          | false =>
              simp only [same] at failed
              exact ih failed

private theorem firstPackage_fault {tree : CJson} {fault : Fault}
    (failed : firstPackage tree = .error fault) : fault = .nullPointer := by
  unfold firstPackage at failed
  split at failed
  · rename_i first
    cases failed
    exact findNamed_fault first
  · contradiction
  · split at failed
    · rename_i second
      cases failed
      exact findNamed_fault second
    · contradiction
    · contradiction

/-- NULL is used in the search for the package or as the name of its ECU. -/
def UsesNull (tree : CJson) : Prop :=
  firstPackage tree = .error .nullPointer ∨
    ∃ package ecu, firstPackage tree = .ok (some package) ∧
      package.getObjectItem (text "ecu") = some ecu ∧ ecu.isString = true ∧
      ecu.valuestring = none

theorem dmcMsgParse_cases (curManifest : BsL1Manifest) (pkgUrl : PkgUrl)
    (root : Option CJson) :
    dmcMsgParse curManifest pkgUrl root = .ok ⟨curManifest, pkgUrl, .statInvalid⟩ ∨
      (dmcMsgParse curManifest pkgUrl root = .error .nullPointer ∧
        ∃ tree, root = some tree ∧ UsesNull tree) ∨
      ∃ tree package ecu res url name, root = some tree ∧
        Judged tree package ecu res url name := by
  unfold dmcMsgParse
  cases root with
  | none => exact .inl rfl
  | some tree =>
      cases walked : firstPackage tree with
      | error fault =>
          obtain rfl := firstPackage_fault walked
          exact .inr (.inl ⟨by simp only [walked], tree, rfl, .inl walked⟩)
      | ok found =>
          cases found with
          | none => exact .inl (by simp only [walked])
          | some package =>
              cases hasEcu : package.getObjectItem (text "ecu") with
              | none => exact .inl (by simp only [walked, hasEcu])
              | some ecu =>
                  cases hasRes : package.getObjectItem (text "resources") with
                  | none => exact .inl (by simp only [walked, hasEcu, hasRes])
                  | some res =>
                      cases hasUrl : res.getObjectItem (text "fullDownloadUrl") with
                      | none => exact .inl (by simp only [walked, hasEcu, hasRes, hasUrl])
                      | some url =>
                          simp only [walked, hasEcu, hasRes, hasUrl]
                          by_cases strings : ecu.isString = true ∧ url.isString = true
                          · simp only [strings.1, strings.2]
                            cases named : ecu.valuestring with
                            | none =>
                                exact .inr (.inl ⟨by simp, tree, rfl,
                                  .inr ⟨package, ecu, walked, hasEcu, strings.1, named⟩⟩)
                            | some name =>
                                exact .inr (.inr ⟨tree, package, ecu, res, url, name, rfl,
                                  ⟨walked, hasEcu, hasRes, hasUrl, strings.1, strings.2, named⟩⟩)
                          · have other : (!ecu.isString || !url.isString) = true := by
                              simpa [Decidable.imp_iff_not_or] using strings
                            rw [if_pos other]
                            exact .inl rfl

/-! ### The stub manifests -/

/-- `mani` and `mani_vdcm`. -/
inductive StubManifest
  | mani
  | maniVdcm
  deriving DecidableEq, Repr

namespace StubManifest

def object (name : CText) (members : List CJson) : CJson :=
  .node .object none 0 (some name) members

def string (name value : CText) : CJson :=
  .node .string (some value) 0 (some name) []

def ecu : StubManifest → CText
  | mani => text "WPC"
  | maniVdcm => text "VDCM"

def fullDownloadUrl : StubManifest → CText
  | mani => text "http://hhfota-q.bosch-mobility-solutions.cn/wpc/package/1.0/wpc.zip"
  | maniVdcm => text "download url"

/-- The nodes of the parsed stub that `dmc_msg_parse` looks at. -/
def root (stub : StubManifest) : CJson :=
  .node .object none 0 none
    [object (text "manifest")
      [.node .array none 0 (some (text "packages"))
        [.node .object none 0 none
          [string (text "ecu") stub.ecu,
            object (text "resources")
              [string (text "fullDownloadUrl") stub.fullDownloadUrl]]]]]

end StubManifest

end DlcServer
