/-
The manifest parser of the device tools.

It looks every member up without regard to case, tests every type, and copies at
most the bytes an array has room for.  Its one weakness is the number of
packages, which `cJSON_GetArraySize` cuts to an `int`.
-/

import DlcServer.ParsedTree
import DlcServer.Library.JsonSplice

namespace DlcServer

open Library

/-! ### The parser -/

inductive BsDevType
  | none
  | eth
  | can
  | canFd
  deriving DecidableEq, Repr

inductive JcfgErr
  | ok
  | badDocument
  deriving DecidableEq, Repr

def bsMaxManiPkgNum : Nat := 4
def bsMaxDevIdLen : Nat := 32
def bsPkgChkSumLen : Nat := 32
def bsMaxPkgUrlLen : Nat := 128

structure BsL1ManifestPkg where
  devType : BsDevType
  devId : CText
  chkSum : CText
  pkgUrl : CText
  pkgSiz : Int
  deriving DecidableEq

def BsL1ManifestPkg.zero : BsL1ManifestPkg :=
  { devType := .none, devId := [], chkSum := [], pkgUrl := [], pkgSiz := 0 }

/-- `bs_l1_manifest_t`; the entries from `bsMaxManiPkgNum` on are the memory
behind it. -/
structure BsL1ManifestT where
  pkgNum : Nat
  packages : Nat → BsL1ManifestPkg

/-- `memset(l1_mani, 0, sizeof(bs_l1_manifest_t))`. -/
def BsL1ManifestT.clear (mani : BsL1ManifestT) : BsL1ManifestT :=
  { pkgNum := 0
    packages := fun i => if i < bsMaxManiPkgNum then .zero else mani.packages i }

/-- One entry more, stored at `i`. -/
def BsL1ManifestT.store (mani : BsL1ManifestT) (i : Nat) (pkg : BsL1ManifestPkg) :
    BsL1ManifestT :=
  { pkgNum := mani.pkgNum + 1
    packages := fun k => if k = i then pkg else mani.packages k }

@[simp] theorem BsL1ManifestT.store_pkgNum (mani : BsL1ManifestT) (i : Nat)
    (pkg : BsL1ManifestPkg) : (mani.store i pkg).pkgNum = mani.pkgNum + 1 :=
  rfl

@[simp] theorem BsL1ManifestT.store_same (mani : BsL1ManifestT) (i : Nat)
    (pkg : BsL1ManifestPkg) : (mani.store i pkg).packages i = pkg :=
  if_pos rfl

theorem BsL1ManifestT.store_other (mani : BsL1ManifestT) {i k : Nat} (pkg : BsL1ManifestPkg)
    (other : k ≠ i) : (mani.store i pkg).packages k = mani.packages k :=
  if_neg other

/-- `strncpy` into a cleared array of `limit` bytes and a terminator. -/
def strncpyInto (limit : Nat) (source : CText) : CText :=
  source.take limit

def devTypeNamed (typ : CText) : Option BsDevType :=
  if typ = text "eth" then some .eth
  else if typ = text "can" then some .can
  else if typ = text "can-fd" then some .canFd
  else none

/-- The nodes of a package that have passed their tests. -/
structure PackageItems where
  ecu : CJson
  typ : CJson
  sum : CJson
  url : CJson
  siz : CJson

def packageItems (jpkg : CJson) : Option PackageItems := do
  let ecu ← (jpkg.getObjectItem (text "ecu")).filter CJson.isString
  let typ ← (jpkg.getObjectItem (text "deviceType")).filter CJson.isString
  let res ← (jpkg.getObjectItem (text "resources")).filter CJson.isObject
  let sum ← (res.getObjectItem (text "fullDownloadChecksum")).filter CJson.isString
  let url ← (res.getObjectItem (text "fullDownloadUrl")).filter CJson.isString
  let siz ← (res.getObjectItem (text "fullSize")).filter CJson.isNumber
  some { ecu := ecu, typ := typ, sum := sum, url := url, siz := siz }

/-- The entry one package is stored as. -/
def bsParsePackage (jpkg : CJson) : Except Fault (Option BsL1ManifestPkg) :=
  match packageItems jpkg with
  | none => .ok none
  | some items =>
      match items.typ.valuestring with
      | none => .error .nullPointer
      | some typ =>
          match devTypeNamed typ with
          | none => .ok none
          | some devType =>
              match items.ecu.valuestring, items.url.valuestring, items.sum.valuestring with
              | some ecu, some url, some sum =>
                  .ok (some
                    { devType := devType
                      devId := strncpyInto bsMaxDevIdLen ecu
                      chkSum := strncpyInto bsPkgChkSumLen sum
                      pkgUrl := strncpyInto bsMaxPkgUrlLen url
                      pkgSiz := items.siz.valueint })
              | _, _, _ => .error .nullPointer

/-- The loop over the packages, with `left` of them to go from `i` on. -/
def bsParsePackages (packages : CJson) :
    Nat → Nat → BsL1ManifestT → Except Fault (JcfgErr × BsL1ManifestT)
  | 0, _, mani => .ok (.ok, mani)
  | left + 1, i, mani =>
      match packages.getArrayItem i with
      -- `assert(jpkg)`
      | none => .error .nullPointer
      | some jpkg =>
          match bsParsePackage jpkg with
          | .error fault => .error fault
          | .ok none => .ok (.badDocument, mani)
          | .ok (some pkg) =>
              bsParsePackages packages left (i + 1) (mani.store i pkg)

/-- `manifest.packages`, when both are of their types. -/
def bsPackages (root : CJson) : Option CJson := do
  let manifest ← (root.getObjectItem (text "manifest")).filter CJson.isObject
  (manifest.getObjectItem (text "packages")).filter CJson.isArray

/-- `bs_parse_l1_manifest`, for the outcome `root` of `cJSON_Parse`. -/
def bsParseL1Manifest (l1Mani : BsL1ManifestT) (root : Option CJson) :
    Except Fault (JcfgErr × BsL1ManifestT) :=
  match root.bind bsPackages with
  | none => .ok (.badDocument, l1Mani.clear)
  | some packages =>
      if bsMaxManiPkgNum < packages.getArraySize then .ok (.badDocument, l1Mani.clear)
      else bsParsePackages packages packages.getArraySize.toNat 0 l1Mani.clear

/-! ### What it should accept -/

/-- The members a package must have, of their types. -/
structure PackageMembers (item : Json) where
  ecu : CText
  typ : CText
  members : List (CText × Json)
  sum : CText
  url : CText
  size : CText
  hasEcu : lookup item (text "ecu") = some (.string ecu)
  hasTyp : lookup item (text "deviceType") = some (.string typ)
  hasResources : lookup item (text "resources") = some (.object members)
  hasSum : lookup (.object members) (text "fullDownloadChecksum") = some (.string sum)
  hasUrl : lookup (.object members) (text "fullDownloadUrl") = some (.string url)
  hasSize : lookup (.object members) (text "fullSize") = some (.number size)

def IsPackage (valueint : CText → Int) (item : Json) (pkg : BsL1ManifestPkg) : Prop :=
  ∃ has : PackageMembers item,
    devTypeNamed (CText.untilNul has.typ) = some pkg.devType ∧
      pkg.devId = (CText.untilNul has.ecu).take 32 ∧
      pkg.pkgUrl = (CText.untilNul has.url).take 128 ∧
      pkg.chkSum = (CText.untilNul has.sum).take 32 ∧
      pkg.pkgSiz = valueint has.size

/-- The document has an object `manifest` with this array `packages`. -/
def HasPackages (document : Json) (items : List Json) : Prop :=
  ∃ members, lookup document (text "manifest") = some (.object members) ∧
    lookup (.object members) (text "packages") = some (.array items)

section Texts

variable (parser : CText → Option Json) (valueint : CText → Int)

def Accepted (json : CText) (items : List Json) : Prop :=
  ∃ document, parser json = some document ∧ HasPackages document items ∧
    items.length ≤ bsMaxManiPkgNum ∧ ∀ item ∈ items, ∃ pkg, IsPackage valueint item pkg

/-- The text is parsed as it should be: accepted exactly when it is one of
those, with an entry for each package and zeros behind them, and with nothing
written behind the last entry. -/
def ParsesL1 (l1Mani : BsL1ManifestT) (json : CText) : Prop :=
  ∃ code after,
    bsParseL1Manifest l1Mani (CJson.parse valueint parser json) = .ok (code, after) ∧
      (code = .ok ↔ ∃ items, Accepted parser valueint json items) ∧
      (code = .ok → ∀ items, Accepted parser valueint json items →
        after.pkgNum = items.length ∧
          (∀ i item, items[i]? = some item → IsPackage valueint item (after.packages i)) ∧
          ∀ i, items.length ≤ i → i < bsMaxManiPkgNum → after.packages i = .zero) ∧
      ∀ i, bsMaxManiPkgNum ≤ i → after.packages i = l1Mani.packages i

/-- More packages than there is room for, whose number is small when cut to an
`int`, and the first that many of them packages indeed. -/
def CountWraps (items : List Json) : Prop :=
  bsMaxManiPkgNum < items.length ∧
    Int.bmod items.length 4294967296 ≤ bsMaxManiPkgNum ∧
    ∀ i < (Int.bmod items.length 4294967296).toNat, ∀ item, items[i]? = some item →
      ∃ pkg, IsPackage valueint item pkg

end Texts

/-! ### One package -/

section Packages

variable {valueint : CText → Int}

private theorem filter_bind_eq_none {α : Type} {is : CJson → Bool} {found : Option CJson}
    {next : CJson → Option α} (missing : found.filter is = none) :
    ((found.filter is).bind next) = none := by
  rw [missing, Option.bind_none]

private theorem packageItems_ofJson (name : Option CText) (item : Json) :
    (∃ has : PackageMembers item, ∃ items,
        packageItems (CJson.ofJson valueint name item) = some items ∧
          items.ecu.valuestring = some (CText.untilNul has.ecu) ∧
          items.typ.valuestring = some (CText.untilNul has.typ) ∧
          items.sum.valuestring = some (CText.untilNul has.sum) ∧
          items.url.valuestring = some (CText.untilNul has.url) ∧
          items.siz.valueint = valueint has.size) ∨
      IsEmpty (PackageMembers item) ∧
        packageItems (CJson.ofJson valueint name item) = none := by
  have string := @CJson.filter_getObjectItem_cases valueint _ _
    (@CJson.isString_ofJson valueint)
  have object := @CJson.filter_getObjectItem_cases valueint _ _
    (@CJson.isObject_ofJson valueint)
  have number := @CJson.filter_getObjectItem_cases valueint _ _
    (@CJson.isNumber_ofJson valueint)
  unfold packageItems
  simp only [Option.bind_eq_bind]
  rcases string name item (text "ecu") with
    ⟨ecuName, _, hasEcu, ⟨ecu, rfl⟩, foundEcu⟩ | ⟨noEcu, missing⟩
  case inr => exact .inr ⟨⟨fun has => noEcu _ has.hasEcu ⟨_, rfl⟩⟩, filter_bind_eq_none missing⟩
  rcases string name item (text "deviceType") with
    ⟨typName, _, hasTyp, ⟨typ, rfl⟩, foundTyp⟩ | ⟨noTyp, missing⟩
  case inr =>
    refine .inr ⟨⟨fun has => noTyp _ has.hasTyp ⟨_, rfl⟩⟩, ?_⟩
    rw [foundEcu, Option.bind_some, filter_bind_eq_none missing]
  rcases object name item (text "resources") with
    ⟨resName, _, hasResources, ⟨members, rfl⟩, foundRes⟩ | ⟨noResources, missing⟩
  case inr =>
    refine .inr ⟨⟨fun has => noResources _ has.hasResources ⟨_, rfl⟩⟩, ?_⟩
    rw [foundEcu, Option.bind_some, foundTyp, Option.bind_some, filter_bind_eq_none missing]
  have sameMembers (has : PackageMembers item) : has.members = members := by
    have same := has.hasResources.symm.trans hasResources
    simpa using same
  rw [foundEcu, Option.bind_some, foundTyp, Option.bind_some, foundRes, Option.bind_some]
  rcases string resName (.object members) (text "fullDownloadChecksum") with
    ⟨sumName, _, hasSum, ⟨sum, rfl⟩, foundSum⟩ | ⟨noSum, missing⟩
  case inr =>
    refine .inr ⟨⟨fun has => ?_⟩, filter_bind_eq_none missing⟩
    exact noSum _ (sameMembers has ▸ has.hasSum) ⟨_, rfl⟩
  rcases string resName (.object members) (text "fullDownloadUrl") with
    ⟨urlName, _, hasUrl, ⟨url, rfl⟩, foundUrl⟩ | ⟨noUrl, missing⟩
  case inr =>
    refine .inr ⟨⟨fun has => ?_⟩, ?_⟩
    · exact noUrl _ (sameMembers has ▸ has.hasUrl) ⟨_, rfl⟩
    · rw [foundSum, Option.bind_some, filter_bind_eq_none missing]
  rcases number resName (.object members) (text "fullSize") with
    ⟨sizName, _, hasSize, ⟨size, rfl⟩, foundSize⟩ | ⟨noSize, missing⟩
  case inr =>
    refine .inr ⟨⟨fun has => ?_⟩, ?_⟩
    · exact noSize _ (sameMembers has ▸ has.hasSize) ⟨_, rfl⟩
    · rw [foundSum, Option.bind_some, foundUrl, Option.bind_some, filter_bind_eq_none missing]
  refine .inl ⟨⟨ecu, typ, members, sum, url, size, hasEcu, hasTyp, hasResources, hasSum, hasUrl,
    hasSize⟩,
    { ecu := CJson.ofJson valueint ecuName (.string ecu)
      typ := CJson.ofJson valueint typName (.string typ)
      sum := CJson.ofJson valueint sumName (.string sum)
      url := CJson.ofJson valueint urlName (.string url)
      siz := CJson.ofJson valueint sizName (.number size) }, ?_, rfl, rfl, rfl, rfl, rfl⟩
  rw [foundSum, Option.bind_some, foundUrl, Option.bind_some, foundSize, Option.bind_some]

instance (item : Json) : Subsingleton (PackageMembers item) where
  allEq first second := by
    obtain ⟨_, _, _, _, _, _, hasEcu, hasTyp, hasResources, hasSum, hasUrl, hasSize⟩ := first
    obtain ⟨_, _, _, _, _, _, hasEcu', hasTyp', hasResources', hasSum', hasUrl', hasSize'⟩ := second
    cases hasEcu.symm.trans hasEcu'
    cases hasTyp.symm.trans hasTyp'
    cases hasResources.symm.trans hasResources'
    cases hasSum.symm.trans hasSum'
    cases hasUrl.symm.trans hasUrl'
    cases hasSize.symm.trans hasSize'
    rfl

/-- On a node of a document the tests of a package come to what it should be. -/
theorem bsParsePackage_ofJson (name : Option CText) (item : Json) :
    ∃ found, bsParsePackage (CJson.ofJson valueint name item) = .ok found ∧
      ∀ pkg, found = some pkg ↔ IsPackage valueint item pkg := by
  rcases @packageItems_ofJson valueint name item with
    ⟨has, items, found, ecu, typ, sum, url, siz⟩ | ⟨missing, none_⟩
  · unfold bsParsePackage IsPackage
    rw [found]
    simp only [ecu, typ, sum, url, siz]
    have only (other : PackageMembers item) : other = has := Subsingleton.elim other has
    cases named : devTypeNamed (CText.untilNul has.typ) with
    | none =>
        refine ⟨none, rfl, fun pkg => ⟨nofun, ?_⟩⟩
        rintro ⟨other, isType, _⟩
        rw [only other, named] at isType
        contradiction
    | some devType =>
        refine ⟨_, rfl, fun pkg => ⟨?_, ?_⟩⟩
        · rintro made
          cases made
          exact ⟨has, named, rfl, rfl, rfl, rfl⟩
        · rintro ⟨other, isType, devId, pkgUrl, chkSum, pkgSiz⟩
          rw [only other] at isType devId pkgUrl chkSum pkgSiz
          rw [named, Option.some.injEq] at isType
          obtain ⟨_, _, _, _, _⟩ := pkg
          simp only at isType devId pkgUrl chkSum pkgSiz
          rw [isType, devId, pkgUrl, chkSum, pkgSiz]
          rfl
  · unfold bsParsePackage
    rw [none_]
    exact ⟨none, rfl, fun pkg => ⟨nofun, fun ⟨has, _⟩ => missing.elim has⟩⟩

/-! ### The loop over the packages -/

/-- The item at this place, if there is one, is a package. -/
def PackageAt (valueint : CText → Int) (items : List Json) (k : Nat) : Prop :=
  ∀ item, items[k]? = some item → ∃ pkg, IsPackage valueint item pkg

/-- The loop stores the entries of the packages from `i` on as long as they are
packages, and touches no others. -/
theorem bsParsePackages_ofJson (name : Option CText) (items : List Json) (left i : Nat)
    (mani : BsL1ManifestT) (inside : i + left ≤ items.length) :
    ∃ code after,
      bsParsePackages (CJson.ofJson valueint name (.array items)) left i mani =
          .ok (code, after) ∧
        (code = .ok ↔ ∀ k, i ≤ k → k < i + left → PackageAt valueint items k) ∧
        (code = .ok → after.pkgNum = mani.pkgNum + left ∧
          ∀ k, i ≤ k → k < i + left → ∀ item, items[k]? = some item →
            IsPackage valueint item (after.packages k)) ∧
        ∀ k, k < i ∨ i + left ≤ k → after.packages k = mani.packages k := by
  induction left generalizing i mani with
  | zero =>
      refine ⟨.ok, mani, rfl, ⟨fun _ k _ _ => by omega, fun _ => rfl⟩, ?_, fun k _ => rfl⟩
      exact fun _ => ⟨rfl, fun k _ _ => by omega⟩
  | succ left ih =>
      have here : i < items.length := by omega
      have atI : items[i]? = some items[i] := List.getElem?_eq_getElem here
      have node : (CJson.ofJson valueint name (.array items)).getArrayItem i =
          some (CJson.ofJson valueint none items[i]) := by
        unfold CJson.getArrayItem
        rw [CJson.child_ofJson_array, List.getElem?_map, atI]
        rfl
      obtain ⟨found, parsed, isPackage⟩ :=
        @bsParsePackage_ofJson valueint none items[i]
      unfold bsParsePackages
      rw [node]
      simp only [parsed]
      cases found with
      | none =>
          refine ⟨.badDocument, mani, rfl, ⟨nofun, ?_⟩, nofun, fun k _ => rfl⟩
          intro all
          obtain ⟨pkg, isPkg⟩ := all i (le_refl i) (by omega) items[i] atI
          exact absurd ((isPackage pkg).mpr isPkg) nofun
      | some pkg =>
          have isPkg := (isPackage pkg).mp rfl
          obtain ⟨code, after, looped, accepts, stores, keeps⟩ :=
            ih (i + 1) (mani.store i pkg) (by omega)
          refine ⟨code, after, looped, ?_, ?_, ?_⟩
          · rw [accepts]
            constructor
            · intro later k from_ to_
              rcases Nat.eq_or_lt_of_le from_ with rfl | behind
              · intro item isItem
                rw [atI, Option.some.injEq] at isItem
                exact ⟨pkg, isItem ▸ isPkg⟩
              · exact later k behind (by omega)
            · intro all k from_ to_
              exact all k (by omega) (by omega)
          · intro isOk
            obtain ⟨count, entries⟩ := stores isOk
            rw [BsL1ManifestT.store_pkgNum] at count
            refine ⟨by omega, ?_⟩
            intro k from_ to_ item isItem
            rcases Nat.eq_or_lt_of_le from_ with rfl | behind
            · rw [atI, Option.some.injEq] at isItem
              rw [keeps i (.inl (by omega)), BsL1ManifestT.store_same]
              exact isItem ▸ isPkg
            · exact entries k behind (by omega) item isItem
          · intro k outside
            rw [keeps k (by omega), BsL1ManifestT.store_other mani pkg (by omega)]

/-! ### The whole manifest -/

theorem hasPackages_unique {document : Json} {first second : List Json}
    (one : HasPackages document first) (other : HasPackages document second) :
    first = second := by
  obtain ⟨_, hasManifest, hasPackages⟩ := one
  obtain ⟨_, hasManifest', hasPackages'⟩ := other
  cases hasManifest.symm.trans hasManifest'
  cases hasPackages.symm.trans hasPackages'
  rfl

theorem bsPackages_ofJson (document : Json) :
    (∃ items name, HasPackages document items ∧
        bsPackages (CJson.ofJson valueint none document) =
          some (CJson.ofJson valueint name (.array items))) ∨
      (∀ items, ¬HasPackages document items) ∧
        bsPackages (CJson.ofJson valueint none document) = none := by
  have object := @CJson.filter_getObjectItem_cases valueint _ _
    (@CJson.isObject_ofJson valueint)
  have array := @CJson.filter_getObjectItem_cases valueint _ _
    (@CJson.isArray_ofJson valueint)
  unfold bsPackages
  simp only [Option.bind_eq_bind]
  rcases object none document (text "manifest") with
    ⟨manifestName, _, hasManifest, ⟨members, rfl⟩, foundManifest⟩ | ⟨noManifest, missing⟩
  case inr =>
    refine .inr ⟨?_, filter_bind_eq_none missing⟩
    rintro items ⟨members, hasManifest, _⟩
    exact noManifest _ hasManifest ⟨_, rfl⟩
  rw [foundManifest, Option.bind_some]
  rcases array manifestName (.object members) (text "packages") with
    ⟨packagesName, _, hasPackages, ⟨items, rfl⟩, foundPackages⟩ | ⟨noPackages, missing⟩
  case inr =>
    refine .inr ⟨?_, missing⟩
    rintro items ⟨others, hasManifest', hasPackages⟩
    cases hasManifest.symm.trans hasManifest'
    exact noPackages _ hasPackages ⟨_, rfl⟩
  exact .inl ⟨items, packagesName, ⟨members, hasManifest, hasPackages⟩, foundPackages⟩

private theorem getArraySize_ofJson (name : Option CText) (items : List Json) :
    (CJson.ofJson valueint name (.array items)).getArraySize =
      Int.bmod items.length 4294967296 := by
  unfold CJson.getArraySize
  rw [CJson.child_ofJson_array, List.length_map]

private theorem bmod_of_few {count : Nat} (few : count ≤ bsMaxManiPkgNum) :
    Int.bmod count 4294967296 = count := by
  unfold bsMaxManiPkgNum at few
  refine Int.bmod_eq_of_le ?_ ?_ <;> omega

theorem bmod_toNat_le (count : Nat) : (Int.bmod count 4294967296).toNat ≤ count := by
  rw [Int.bmod_eq_emod]
  split <;> omega

end Packages

section Texts

variable {parser : CText → Option Json} {valueint : CText → Int}

theorem bsParseL1Manifest_ofJson {json : CText} {document : Json} (name : Option CText)
    {items : List Json} (l1Mani : BsL1ManifestT) (parsed : parser json = some document)
    (found : bsPackages (CJson.ofJson valueint none document) =
      some (CJson.ofJson valueint name (.array items))) :
    bsParseL1Manifest l1Mani (CJson.parse valueint parser json) =
      if (bsMaxManiPkgNum : Int) < Int.bmod items.length 4294967296 then
        .ok (.badDocument, l1Mani.clear)
      else
        bsParsePackages (CJson.ofJson valueint name (.array items))
          (Int.bmod items.length 4294967296).toNat 0 l1Mani.clear := by
  unfold bsParseL1Manifest CJson.parse
  rw [parsed, Option.map_some, Option.bind_some, found]
  simp only [getArraySize_ofJson]

private theorem parsesL1_of_rejected {l1Mani : BsL1ManifestT} {json : CText}
    (rejected : bsParseL1Manifest l1Mani (CJson.parse valueint parser json) =
      .ok (.badDocument, l1Mani.clear))
    (notAccepted : ∀ items, ¬Accepted parser valueint json items) :
    ParsesL1 parser valueint l1Mani json := by
  refine ⟨.badDocument, l1Mani.clear, rejected, ⟨nofun, ?_⟩, nofun, ?_⟩
  · rintro ⟨items, accepted⟩
    exact absurd accepted (notAccepted items)
  · intro i behind
    exact if_neg (by omega)

theorem accepted_hasPackages {json : CText} {document : Json} {items others : List Json}
    (parsed : parser json = some document) (has : HasPackages document items)
    (accepted : Accepted parser valueint json others) :
    others = items ∧ items.length ≤ bsMaxManiPkgNum ∧
      ∀ item ∈ items, ∃ pkg, IsPackage valueint item pkg := by
  obtain ⟨other, parsed', has', few, all⟩ := accepted
  cases parsed.symm.trans parsed'
  cases hasPackages_unique has has'
  exact ⟨rfl, few, all⟩

private theorem packageAt_iff {items : List Json} {count : Nat} (whole : items.length ≤ count) :
    (∀ k, 0 ≤ k → k < 0 + count → PackageAt valueint items k) ↔
      ∀ item ∈ items, ∃ pkg, IsPackage valueint item pkg := by
  constructor
  · intro all item member
    obtain ⟨k, inside, atK⟩ := List.mem_iff_getElem.mp member
    refine all k (Nat.zero_le k) (by omega) item ?_
    rw [List.getElem?_eq_getElem inside, atK]
  · intro all k _ _ item atK
    exact all item (List.mem_of_getElem? atK)

theorem parsesL1_of_few {l1Mani : BsL1ManifestT} {json : CText} {document : Json}
    {items : List Json} {name : Option CText} (parsed : parser json = some document)
    (has : HasPackages document items) (few : items.length ≤ bsMaxManiPkgNum)
    (found : bsPackages (CJson.ofJson valueint none document) =
      some (CJson.ofJson valueint name (.array items))) :
    ParsesL1 parser valueint l1Mani json := by
  have run := bsParseL1Manifest_ofJson name l1Mani parsed found
  rw [bmod_of_few few, if_neg (by omega), Int.toNat_natCast] at run
  obtain ⟨code, after, looped, accepts, stores, keeps⟩ :=
    @bsParsePackages_ofJson valueint name items items.length 0 l1Mani.clear
      (by omega)
  rw [packageAt_iff (le_refl _)] at accepts
  refine ⟨code, after, run.trans looped, ?_, ?_, ?_⟩
  · rw [accepts]
    constructor
    · intro all
      exact ⟨items, document, parsed, has, few, all⟩
    · rintro ⟨others, accepted⟩
      exact (accepted_hasPackages parsed has accepted).2.2
  · intro isOk others accepted
    rw [(accepted_hasPackages parsed has accepted).1]
    obtain ⟨count, entries⟩ := stores isOk
    refine ⟨count.trans (Nat.zero_add _), ?_, ?_⟩
    · intro i item atI
      have inside := (List.getElem?_eq_some_iff.mp atI).1
      exact entries i (Nat.zero_le i) (by omega) item atI
    · intro i behind inside
      rw [keeps i (.inr (by omega))]
      exact if_pos inside
  · intro i behind
    rw [keeps i (.inr (by omega))]
    exact if_neg (by omega)

private theorem parsesL1_iff_of_many {l1Mani : BsL1ManifestT} {json : CText} {document : Json}
    {items : List Json} {name : Option CText} (parsed : parser json = some document)
    (has : HasPackages document items) (many : bsMaxManiPkgNum < items.length)
    (found : bsPackages (CJson.ofJson valueint none document) =
      some (CJson.ofJson valueint name (.array items))) :
    ParsesL1 parser valueint l1Mani json ↔ ¬CountWraps valueint items := by
  have run := bsParseL1Manifest_ofJson name l1Mani parsed found
  have notAccepted : ∀ others, ¬Accepted parser valueint json others := by
    intro others accepted
    have few := (accepted_hasPackages parsed has accepted).2.1
    omega
  by_cases large : (bsMaxManiPkgNum : Int) < Int.bmod items.length 4294967296
  · rw [if_pos large] at run
    refine ⟨fun _ wraps => ?_, fun _ => parsesL1_of_rejected run notAccepted⟩
    have small := wraps.2.1
    omega
  · rw [if_neg large] at run
    obtain ⟨code, after, looped, accepts, _, keeps⟩ :=
      @bsParsePackages_ofJson valueint name items
        (Int.bmod items.length 4294967296).toNat 0 l1Mani.clear
        (by have few := bmod_toNat_le items.length; omega)
    have wraps_iff : code = .ok ↔ CountWraps valueint items := by
      rw [accepts]
      constructor
      · intro all
        exact ⟨many, by omega, fun i small => all i (Nat.zero_le i) (by omega)⟩
      · intro wraps k _ small
        exact wraps.2.2 k (by omega)
    rw [← wraps_iff]
    constructor
    · rintro ⟨code', after', run', accepted, _⟩ isOk
      cases (run.trans looped).symm.trans run'
      obtain ⟨others, accepted⟩ := accepted.mp isOk
      exact notAccepted others accepted
    · intro notOk
      refine ⟨code, after, run.trans looped, ?_, fun isOk => absurd isOk notOk, ?_⟩
      · refine ⟨fun isOk => absurd isOk notOk, ?_⟩
        rintro ⟨others, accepted⟩
        exact absurd accepted (notAccepted others)
      · intro i behind
        rw [keeps i (.inr (by unfold bsMaxManiPkgNum at *; omega))]
        exact if_neg (by omega)

end Texts

/-- A text is parsed as it should be exactly when its packages are not so many
that their number wraps to that of its first ones. -/
theorem parsesL1_iff (parser : CText → Option Json) (valueint : CText → Int)
    (l1Mani : BsL1ManifestT) (json : CText) :
    ParsesL1 parser valueint l1Mani json ↔
      ∀ document items, parser json = some document → HasPackages document items →
        ¬CountWraps valueint items := by
  cases parsed : parser json with
  | none =>
      have rejected : bsParseL1Manifest l1Mani (CJson.parse valueint parser json) =
          .ok (.badDocument, l1Mani.clear) := by
        unfold bsParseL1Manifest CJson.parse
        rw [parsed]
        rfl
      refine ⟨fun _ _ _ same => (nomatch same), fun _ => parsesL1_of_rejected rejected ?_⟩
      rintro items ⟨document, parsed', _⟩
      rw [parsed] at parsed'
      contradiction
  | some document =>
      rcases @bsPackages_ofJson valueint document with ⟨items, name, has, found⟩ | ⟨missing, none_⟩
      · have only : (∀ other others, some document = some other → HasPackages other others →
            ¬CountWraps valueint others) ↔ ¬CountWraps valueint items := by
          constructor
          · intro all
            exact all document items rfl has
          · intro fits other others same has'
            cases same
            rw [hasPackages_unique has' has]
            exact fits
        rw [only]
        by_cases few : items.length ≤ bsMaxManiPkgNum
        · refine ⟨fun _ wraps => ?_, fun _ => parsesL1_of_few parsed has few found⟩
          have many := wraps.1
          omega
        · exact parsesL1_iff_of_many parsed has (by omega) found
      · have rejected : bsParseL1Manifest l1Mani (CJson.parse valueint parser json) =
            .ok (.badDocument, l1Mani.clear) := by
          unfold bsParseL1Manifest CJson.parse
          rw [parsed, Option.map_some, Option.bind_some, none_]
        constructor
        · intro _ other items same has
          cases same
          exact absurd has (missing items)
        · intro _
          refine parsesL1_of_rejected rejected ?_
          rintro items ⟨other, parsed', has, _⟩
          rw [parsed] at parsed'
          cases parsed'
          exact missing items has

/-! ### Two thousand million packages -/

def manyPackages : List Json :=
  List.replicate 2147483648 .null

/-- A manifest whose packages are all `null`. -/
def manyDocument : Json :=
  .object [(text "manifest", .object [(text "packages", .array manyPackages)])]

private theorem manyDocument_hasPackages : HasPackages manyDocument manyPackages :=
  ⟨_, rfl, rfl⟩

private theorem manyDocument_integral : Json.Integral manyDocument := by
  have items : ∀ count, Json.IntegralItems (List.replicate count .null) := by
    intro count
    induction count with
    | zero => trivial
    | succ count ih => exact ⟨trivial, ih⟩
  exact ⟨⟨items 2147483648, trivial⟩, trivial⟩

private theorem manyDocument_allPlain : Json.AllPlain manyDocument := by
  have items : Json.AllPlainItems manyPackages := by
    rw [Json.allPlainItems_iff]
    intro item member
    rw [List.eq_of_mem_replicate member]
    trivial
  exact ⟨by decide, ⟨by decide, items, trivial⟩, trivial⟩

theorem many_packages_accepted :
    ¬ParsesL1 Json.parse (fun _ => 0) { pkgNum := 0, packages := fun _ => .zero }
      (Json.splice manyDocument) := by
  have parsed := (Json.parse_splice_iff manyDocument manyDocument_integral).mpr
    manyDocument_allPlain
  have length : manyPackages.length = 2147483648 := List.length_replicate
  have wrapped : Int.bmod (manyPackages.length : Int) 4294967296 = -2147483648 := by
    rw [length]
    rfl
  have found : bsPackages (CJson.ofJson (fun _ => 0) none manyDocument) =
      some (CJson.ofJson (fun _ => 0) (some (text "packages")) (.array manyPackages)) := rfl
  have many : bsMaxManiPkgNum < manyPackages.length := by
    rw [length]
    decide
  rw [parsesL1_iff_of_many parsed manyDocument_hasPackages many found, not_not]
  refine ⟨many, ?_, ?_⟩
  · rw [wrapped]
    decide
  · intro i small
    rw [wrapped] at small
    omega

end DlcServer
