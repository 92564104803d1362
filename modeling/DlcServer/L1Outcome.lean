/-
What the manifest parser of the device tools leaves behind.

The result is cleared first and filled package by package, each of them tested
before anything of it is stored.  A manifest that is rejected leaves the packages
in front of the one it was rejected for, and one that is accepted has every
string cut to its array and every size clamped to an `int`.
-/

import DlcServer.L1Manifest
import DlcServer.Library.DecimalDouble

namespace DlcServer

open Library

/-! ### Rejected manifests -/

section Rejected

variable {valueint : CText → Int}

private theorem bsParsePackages_rejected (name : Option CText) (items : List Json) (left i : Nat)
    (mani after : BsL1ManifestT) (inside : i + left ≤ items.length)
    (rejected : bsParsePackages (CJson.ofJson valueint name (.array items)) left i mani =
      .ok (.badDocument, after)) :
    ∃ k item, i ≤ k ∧ k < i + left ∧ items[k]? = some item ∧
      (∀ pkg, ¬ IsPackage valueint item pkg) ∧ after.pkgNum + i = mani.pkgNum + k ∧
      (∀ j, i ≤ j → j < k → ∃ stored, items[j]? = some stored ∧
        IsPackage valueint stored (after.packages j)) ∧
      ∀ j, j < i ∨ k ≤ j → after.packages j = mani.packages j := by
  induction left generalizing i mani with
  | zero => cases rejected
  | succ left ih =>
      have here : i < items.length := by omega
      have atI : items[i]? = some items[i] := List.getElem?_eq_getElem here
      have node : (CJson.ofJson valueint name (.array items)).getArrayItem i =
          some (CJson.ofJson valueint none items[i]) := by
        unfold CJson.getArrayItem
        rw [CJson.child_ofJson_array, List.getElem?_map, atI]
        rfl
      obtain ⟨found, parsed, isPackage⟩ := @bsParsePackage_ofJson valueint none items[i]
      unfold bsParsePackages at rejected
      rw [node] at rejected
      simp only [parsed] at rejected
      cases found with
      | none =>
          cases rejected
          refine ⟨i, items[i], le_refl i, by omega, atI, ?_, rfl, ?_, fun j _ => rfl⟩
          · intro pkg isPkg
            exact absurd ((isPackage pkg).mpr isPkg) nofun
          · intro j from_ to_
            omega
      | some pkg =>
          obtain ⟨k, item, from_, to_, atK, notPackage, count, entries, keeps⟩ :=
            ih (i + 1) (mani.store i pkg) (by omega) rejected
          rw [BsL1ManifestT.store_pkgNum] at count
          refine ⟨k, item, by omega, by omega, atK, notPackage, by omega, ?_, ?_⟩
          · intro j low high
            rcases Nat.eq_or_lt_of_le low with rfl | behind
            · refine ⟨items[i], atI, ?_⟩
              rw [keeps i (.inl (by omega)), BsL1ManifestT.store_same]
              exact (isPackage pkg).mp rfl
            · exact entries j behind high
          · intro j outside
            rw [keeps j (by omega), BsL1ManifestT.store_other mani pkg (by omega)]

/-- The result of a rejected manifest: its first packages, up to the item it was
rejected for, and nothing if it was rejected for something else. -/
structure LeavesPrefix (valueint : CText → Int) (parser : CText → Option Json) (json : CText)
    (after : BsL1ManifestT) : Prop where
  stored : ∀ i < after.pkgNum, ∃ document items item, parser json = some document ∧
    HasPackages document items ∧ items[i]? = some item ∧
      IsPackage valueint item (after.packages i)
  zero : ∀ i, after.pkgNum ≤ i → i < bsMaxManiPkgNum → after.packages i = .zero
  reason : after.pkgNum ≠ 0 → ∃ document items item, parser json = some document ∧
    HasPackages document items ∧ items[after.pkgNum]? = some item ∧
      ∀ pkg, ¬ IsPackage valueint item pkg

private theorem leavesPrefix_clear (parser : CText → Option Json) (json : CText)
    (l1Mani : BsL1ManifestT) : LeavesPrefix valueint parser json l1Mani.clear :=
  { stored := fun i inside => by cases inside
    zero := fun i _ inside => if_pos inside
    reason := fun some_ => absurd rfl some_ }

/-- A manifest that is not accepted leaves no more than the packages in front of
the one it was rejected for. -/
theorem rejected_leavesPrefix (valueint : CText → Int) (parser : CText → Option Json)
    (l1Mani : BsL1ManifestT) (json : CText) :
    ∃ code after, bsParseL1Manifest l1Mani (CJson.parse valueint parser json) =
        .ok (code, after) ∧
      (code ≠ .ok → LeavesPrefix valueint parser json after) := by
  cases parsed : parser json with
  | none =>
      refine ⟨.badDocument, l1Mani.clear, ?_, fun _ => leavesPrefix_clear parser json l1Mani⟩
      unfold bsParseL1Manifest CJson.parse
      rw [parsed]
      rfl
  | some document =>
      rcases @bsPackages_ofJson valueint document with ⟨items, name, has, found⟩ | ⟨_, missing⟩
      · have run := bsParseL1Manifest_ofJson name l1Mani parsed found
        by_cases many : (bsMaxManiPkgNum : Int) < Int.bmod items.length 4294967296
        · rw [if_pos many] at run
          exact ⟨_, _, run, fun _ => leavesPrefix_clear parser json l1Mani⟩
        · rw [if_neg many] at run
          have inside : 0 + (Int.bmod items.length 4294967296).toNat ≤ items.length := by
            have few := bmod_toNat_le items.length
            omega
          obtain ⟨code, after, looped, _⟩ := @bsParsePackages_ofJson valueint name items
            (Int.bmod items.length 4294967296).toNat 0 l1Mani.clear inside
          refine ⟨code, after, run.trans looped, ?_⟩
          intro failed
          have isBad : code = .badDocument := by
            cases code with
            | ok => exact absurd rfl failed
            | badDocument => rfl
          subst isBad
          obtain ⟨k, item, _, few, atK, notPackage, count, entries, keeps⟩ :=
            bsParsePackages_rejected name items _ 0 _ after inside looped
          have number : after.pkgNum = k := by
            have cleared : l1Mani.clear.pkgNum = 0 := rfl
            omega
          constructor
          · intro i below
            obtain ⟨stored, atI, isPackage⟩ := entries i (Nat.zero_le i) (by omega)
            exact ⟨document, items, stored, parsed, has, atI, isPackage⟩
          · intro i above small
            rw [keeps i (.inr (by omega))]
            exact if_pos small
          · intro _
            exact ⟨document, items, item, parsed, has, number ▸ atK, notPackage⟩
      · refine ⟨.badDocument, l1Mani.clear, ?_, fun _ => leavesPrefix_clear parser json l1Mani⟩
        unfold bsParseL1Manifest CJson.parse
        rw [parsed, Option.map_some, Option.bind_some, missing]

end Rejected

/-! ### Accepted manifests -/

def parseNumber (lexeme : CText) : Int :=
  saturate (nearestDouble (decimalValue lexeme))

/-- The string has room for it in an array of `limit` bytes and a terminator, and
is not cut short by a NUL of its own. -/
def FitsField (limit : Nat) (value : CText) : Prop :=
  value.length ≤ limit ∧ 0 ∉ value

/-- The number is an `int`. -/
def FitsInt (value : ℚ) : Prop :=
  ∃ whole : Int, value = whole ∧ intMin ≤ whole ∧ whole ≤ intMax

/-- The entry holds each value of the document exactly when its field has room. -/
structure HoldsWhatFits {item : Json} (has : PackageMembers item) (pkg : BsL1ManifestPkg) :
    Prop where
  devId : pkg.devId = has.ecu ↔ FitsField bsMaxDevIdLen has.ecu
  pkgUrl : pkg.pkgUrl = has.url ↔ FitsField bsMaxPkgUrlLen has.url
  chkSum : pkg.chkSum = has.sum ↔ FitsField bsPkgChkSumLen has.sum
  pkgSiz : (pkg.pkgSiz : ℚ) = decimalValue has.size ↔ FitsInt (decimalValue has.size)

private theorem untilNul_eq_iff (value : CText) : CText.untilNul value = value ↔ 0 ∉ value := by
  constructor
  · intro same nul
    rw [← same] at nul
    have other := List.mem_takeWhile_imp nul
    contradiction
  · exact CText.untilNul_of_not_mem

private theorem take_untilNul_eq_iff (limit : Nat) (value : CText) :
    (CText.untilNul value).take limit = value ↔ FitsField limit value := by
  have shorter : (CText.untilNul value).length ≤ value.length :=
    (List.takeWhile_prefix _).length_le
  constructor
  · intro same
    have lengths := congrArg List.length same
    rw [List.length_take] at lengths
    have whole : (CText.untilNul value).length = value.length := by omega
    refine ⟨by omega, ?_⟩
    rw [← untilNul_eq_iff]
    exact (List.takeWhile_prefix _).eq_of_length whole
  · rintro ⟨fits, noNul⟩
    rw [(untilNul_eq_iff value).mpr noNul, List.take_of_length_le fits]

private theorem holdsWhatFits_of_isPackage {item : Json} {pkg : BsL1ManifestPkg}
    (isPackage : IsPackage parseNumber item pkg) :
    ∃ has : PackageMembers item, HoldsWhatFits has pkg := by
  obtain ⟨has, _, devId, pkgUrl, chkSum, pkgSiz⟩ := isPackage
  refine ⟨has, ?_⟩
  constructor
  · rw [devId]
    exact take_untilNul_eq_iff 32 has.ecu
  · rw [pkgUrl]
    exact take_untilNul_eq_iff 128 has.url
  · rw [chkSum]
    exact take_untilNul_eq_iff 32 has.sum
  · rw [pkgSiz]
    exact saturate_nearestDouble_eq_iff (decimalValue has.size)

/-- Of an accepted manifest every package is kept, with each of its values in
full exactly when it has room, and cut to what has room otherwise. -/
theorem accepted_holdsWhatFits (parser : CText → Option Json) (l1Mani after : BsL1ManifestT)
    (json : CText)
    (accepted : bsParseL1Manifest l1Mani (CJson.parse parseNumber parser json) =
      .ok (.ok, after)) :
    ∃ document items, parser json = some document ∧ HasPackages document items ∧
      ∀ i < after.pkgNum, ∃ item, items[i]? = some item ∧
        IsPackage parseNumber item (after.packages i) ∧
          ∃ has : PackageMembers item, HoldsWhatFits has (after.packages i) := by
  cases parsed : parser json with
  | none =>
      unfold bsParseL1Manifest CJson.parse at accepted
      rw [parsed] at accepted
      cases accepted
  | some document =>
      rcases @bsPackages_ofJson parseNumber document with
        ⟨items, name, has, found⟩ | ⟨_, missing⟩
      · refine ⟨document, items, rfl, has, ?_⟩
        have run := bsParseL1Manifest_ofJson name l1Mani parsed found
        have few : 0 + (Int.bmod items.length 4294967296).toNat ≤ items.length := by
          have most := bmod_toNat_le items.length
          omega
        by_cases many : (bsMaxManiPkgNum : Int) < Int.bmod items.length 4294967296
        · rw [if_pos many] at run
          cases run.symm.trans accepted
        · rw [if_neg many] at run
          generalize (Int.bmod items.length 4294967296).toNat = left at run few
          obtain ⟨code, result, looped, _, stores, _⟩ :=
            @bsParsePackages_ofJson parseNumber name items left 0 l1Mani.clear few
          cases (run.trans looped).symm.trans accepted
          obtain ⟨count, entries⟩ := stores rfl
          have cleared : l1Mani.clear.pkgNum = 0 := rfl
          intro i below
          have atI : items[i]? = some items[i] := List.getElem?_eq_getElem (by omega)
          have isPackage := entries i (Nat.zero_le i) (by omega) _ atI
          exact ⟨items[i], atI, isPackage, holdsWhatFits_of_isPackage isPackage⟩
      · unfold bsParseL1Manifest CJson.parse at accepted
        rw [parsed, Option.map_some, Option.bind_some, missing] at accepted
        cases accepted

/-! ### Two manifests -/

def packageFor (ecu : CText) : Json :=
  .object
    [(text "ecu", .string ecu), (text "deviceType", .string (text "eth")),
      (text "resources", .object
        [(text "fullDownloadChecksum", .string (text "s")),
          (text "fullDownloadUrl", .string (text "u")),
          (text "fullSize", .number (Json.decimal 1))])]

def packageMembers (ecu : CText) : PackageMembers (packageFor ecu) where
  ecu := ecu
  typ := text "eth"
  members := _
  sum := text "s"
  url := text "u"
  size := Json.decimal 1
  hasEcu := rfl
  hasTyp := rfl
  hasResources := rfl
  hasSum := rfl
  hasUrl := rfl
  hasSize := rfl

def manifestOf (items : List Json) : Json :=
  .object [(text "manifest", .object [(text "packages", .array items)])]

private theorem parse_manifestOf {items : List Json} (integral : Json.IntegralItems items)
    (plain : Json.AllPlain (manifestOf items)) :
    Json.parse (Json.splice (manifestOf items)) = some (manifestOf items) :=
  (Json.parse_splice_iff (manifestOf items) ⟨⟨integral, trivial⟩, trivial⟩).mpr plain

private theorem packageFor_integral (ecu : CText) : Json.Integral (packageFor ecu) :=
  ⟨trivial, trivial, ⟨trivial, trivial, ⟨1, rfl⟩, trivial⟩, trivial⟩

def emptyResult : BsL1ManifestT :=
  { pkgNum := 0, packages := fun _ => .zero }

/-- A package for the ECU `e`, and behind it one that is `null`. -/
def secondRejected : List Json :=
  [packageFor (text "e"), .null]

theorem rejected_keeps_package :
    ¬ ∀ (l1Mani : BsL1ManifestT) (json : CText) (code : JcfgErr) (after : BsL1ManifestT),
      bsParseL1Manifest l1Mani (CJson.parse parseNumber Json.parse json) = .ok (code, after) →
        code ≠ .ok → after.pkgNum = 0 ∧ ∀ i < bsMaxManiPkgNum, after.packages i = .zero := by
  intro always
  have read := @parse_manifestOf secondRejected ⟨packageFor_integral _, trivial, trivial⟩
    (by decide)
  have ran : ∃ after, bsParseL1Manifest emptyResult
      (some (CJson.ofJson parseNumber none (manifestOf secondRejected))) =
        .ok (.badDocument, after) ∧ after.pkgNum = 1 := ⟨_, rfl, rfl⟩
  obtain ⟨after, outcome, one⟩ := ran
  have empty := always emptyResult (Json.splice (manifestOf secondRejected)) .badDocument after
  unfold CJson.parse at empty
  rw [read] at empty
  have none_ := (empty outcome nofun).1
  rw [one] at none_
  cases none_

/-- An ECU of 33 bytes. -/
def longEcu : CText :=
  List.replicate 33 97

theorem accepted_cuts_ecu :
    ¬ ∀ (l1Mani : BsL1ManifestT) (json : CText) (after : BsL1ManifestT),
      bsParseL1Manifest l1Mani (CJson.parse parseNumber Json.parse json) = .ok (.ok, after) →
        ∀ document items, Json.parse json = some document → HasPackages document items →
          ∀ i < after.pkgNum, ∀ item, items[i]? = some item → ∀ has : PackageMembers item,
            (after.packages i).devId = has.ecu ∧ (after.packages i).pkgUrl = has.url ∧
              (after.packages i).chkSum = has.sum ∧
                ((after.packages i).pkgSiz : ℚ) = decimalValue has.size := by
  intro always
  have read := @parse_manifestOf [packageFor longEcu] ⟨packageFor_integral _, trivial⟩
    (by decide)
  have ran : ∃ after, bsParseL1Manifest emptyResult
      (some (CJson.ofJson parseNumber none (manifestOf [packageFor longEcu]))) =
        .ok (.ok, after) ∧ after.pkgNum = 1 ∧
          (after.packages 0).devId = List.replicate 32 97 := ⟨_, rfl, rfl, rfl⟩
  obtain ⟨after, outcome, one, cut⟩ := ran
  have faithful := always emptyResult (Json.splice (manifestOf [packageFor longEcu])) after
  unfold CJson.parse at faithful
  rw [read] at faithful
  have whole := (faithful outcome _ _ rfl ⟨_, rfl, rfl⟩ 0 (by omega) _ rfl
    (packageMembers longEcu)).1
  rw [cut] at whole
  exact absurd (congrArg List.length whole) (by decide)

/-- A package whose values all have room is kept in full. -/
theorem short_package_kept :
    ∃ after, bsParseL1Manifest emptyResult
        (CJson.parse parseNumber Json.parse
          (Json.splice (manifestOf [packageFor (text "e")]))) = .ok (.ok, after) ∧
      ∃ document items, Json.parse (Json.splice (manifestOf [packageFor (text "e")])) =
          some document ∧ HasPackages document items ∧
        ∀ i < after.pkgNum, ∃ item, items[i]? = some item ∧
          IsPackage parseNumber item (after.packages i) ∧
            ∃ has : PackageMembers item, HoldsWhatFits has (after.packages i) := by
  have read := @parse_manifestOf [packageFor (text "e")] ⟨packageFor_integral _, trivial⟩
    (by decide)
  have outcome : ∃ after, bsParseL1Manifest emptyResult
      (CJson.parse parseNumber Json.parse
        (Json.splice (manifestOf [packageFor (text "e")]))) = .ok (.ok, after) := by
    unfold CJson.parse
    rw [read]
    exact ⟨_, rfl⟩
  obtain ⟨after, accepted⟩ := outcome
  exact ⟨after, accepted, accepted_holdsWhatFits _ _ _ _ accepted⟩

end DlcServer
