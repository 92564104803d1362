/-
What a reader makes of the JSON texts the program builds.

The builders put the strings of the peers between quotes as they are.  Behind
the prefix of each message stands the text of an object with every string spliced
in, so that it is read back exactly when none of them has to be escaped.
-/

import DlcServer.Threads
import DlcServer.ParsedTree
import DlcServer.Library.JsonSplice

namespace DlcServer

open Library

/-! ### The text a builder has written -/

namespace Writer

/-- The bytes from behind the prefix up to the running index. -/
def written (writer : Writer) : CText :=
  (writer.msg.sent writer.pc).drop 4

/-- The object of a finished message, whose length counts one byte more. -/
def objectText (writer : Writer) : CText :=
  (writer.msg.sent (writer.pc - 1)).drop 4

private theorem sent_congr {first second : OutBuf} {length : Nat}
    (same : ∀ index < length, first.mem index = second.mem index) :
    first.sent length = second.sent length := by
  unfold OutBuf.sent
  refine List.map_congr_left ?_
  intro index member
  exact same index (List.mem_range.mp member)

theorem sent_add (buf : OutBuf) (length more : Nat) :
    buf.sent (length + more) =
      buf.sent length ++ (List.range more).map (fun i => buf.mem (length + i)) := by
  unfold OutBuf.sent
  rw [List.range_add, List.map_append, List.map_map]
  rfl

private theorem written_append {writer after : Writer} {source : CText} (started : 4 ≤ writer.pc)
    (moved : after.pc = writer.pc + source.length)
    (kept : ∀ index < writer.pc, after.msg.mem index = writer.msg.mem index)
    (stored : ∀ i < source.length, after.msg.mem (writer.pc + i) = source.getD i 0) :
    after.written = writer.written ++ source := by
  have behind : (List.range source.length).map (fun i => after.msg.mem (writer.pc + i)) =
      source := by
    refine List.ext_getElem (by simp) ?_
    intro i inside _
    rw [List.length_map, List.length_range] at inside
    rw [List.getElem_map, List.getElem_range, stored i inside]
    simp [inside]
  unfold written
  rw [moved, sent_add, behind, sent_congr kept, List.drop_append_of_le_length]
  rw [OutBuf.sent_length]
  exact started

private theorem written_putc {writer : Writer} (started : 4 ≤ writer.pc) (byte : UInt8) :
    (writer.putc byte).written = writer.written ++ [byte] := by
  refine written_append started rfl ?_ ?_
  · intro index before
    have other : index ≠ writer.pc := by omega
    exact if_neg other
  · intro i inside
    have zero : i = 0 := by
      rw [List.length_singleton] at inside
      omega
    subst zero
    exact if_pos rfl

private theorem written_puts {writer : Writer} (started : 4 ≤ writer.pc) (source : CText) :
    (writer.puts source).written = writer.written ++ source := by
  refine written_append started rfl ?_ ?_
  · intro index before
    exact if_pos before
  · intro i inside
    have behind : ¬writer.pc + i < writer.pc := by omega
    have within : writer.pc + i ≤ writer.pc + source.length := by omega
    have place : writer.pc + i - writer.pc = i := by omega
    simp only [puts, OutBuf.strcpy, if_neg behind, if_pos within, place]

private theorem objectText_finish {writer : Writer} (started : 4 ≤ writer.pc) :
    writer.finish.objectText = writer.written := by
  unfold objectText written
  have length : writer.finish.pc - 1 = writer.pc := rfl
  rw [length]
  refine List.ext_getElem (by simp) ?_
  intro i inside _
  rw [List.length_drop, OutBuf.sent_length] at inside
  simp only [List.getElem_drop, OutBuf.sent, List.getElem_map, List.getElem_range]
  have notFirst : 4 + i ≠ 0 := by omega
  have notSecond : 4 + i ≠ 1 := by omega
  have notThird : 4 + i ≠ 2 := by omega
  have notFourth : 4 + i ≠ 3 := by omega
  have notLast : 4 + i ≠ writer.pc + 1 := by omega
  simp only [finish, OutBuf.store, if_neg notFirst, if_neg notSecond, if_neg notThird,
    if_neg notFourth, if_neg notLast]

/-- The builder is behind its prefix and has written this text. -/
structure Wrote (writer : Writer) (source : CText) : Prop where
  started : 4 ≤ writer.pc
  text : writer.written = source

private theorem wrote_start (msg : OutBuf) : Wrote (.mk msg 4 0) [] where
  started := le_refl 4
  text := by
    unfold written
    rw [List.drop_eq_nil_iff, OutBuf.sent_length]

variable {writer : Writer} {source : CText}

theorem Wrote.putc (wrote : Wrote writer source) (byte : UInt8) :
    Wrote (writer.putc byte) (source ++ [byte]) where
  started := Nat.le_succ_of_le wrote.started
  text := by rw [written_putc wrote.started, wrote.text]

theorem Wrote.puts (wrote : Wrote writer source) (more : CText) :
    Wrote (writer.puts more) (source ++ more) where
  started := Nat.le_trans wrote.started (Nat.le_add_right _ _)
  text := by rw [written_puts wrote.started, wrote.text]

theorem Wrote.printf (wrote : Wrote writer source) (more : CText) :
    Wrote (writer.printf more) (source ++ more) where
  started := Nat.le_trans wrote.started (Nat.le_add_right _ _)
  text := (written_puts wrote.started more).trans (by rw [wrote.text])

theorem Wrote.finish (wrote : Wrote writer source) : writer.finish.objectText = source :=
  (objectText_finish wrote.started).trans wrote.text

end Writer

/-! ### The objects that should be read -/

def stringMember (label : String) (value : CText) : CText × Json :=
  (text label, .string value)

def numberMember (label : String) (value : Int) : CText × Json :=
  (text label, .number (Json.decimal value))

def checkNewPkgObject (info : BsPkgInfo) (uuid : CText) : Json :=
  .object
    [numberMember "func-id" 1, numberMember "category" 2,
      (text "response", .object
        [stringMember "door_module" info.doorModule, stringMember "dev_id" info.devId,
          stringMember "soft_id" info.softId, stringMember "release_notes" info.releaseNotes]),
      stringMember "uuid" uuid]

def startUpgradeObject (info : BsPkgInfo) (uuid : CText) : Json :=
  .object
    [numberMember "func-id" 2, numberMember "category" 2,
      (text "response", .object
        [stringMember "dev_id" info.devId, stringMember "soft_id" info.softId]),
      stringMember "uuid" uuid]

def upgradeStatObject (stat : BsEcuUpgradeStat) (uuid : CText) : Json :=
  .object
    [numberMember "func-id" 3, numberMember "category" 2, stringMember "id" (text "xxx"),
      stringMember "version" (text "1.0.0"),
      (text "response", .array
        [.object
          [stringMember "dev_id" stat.devId, stringMember "soft_id" stat.softId,
            stringMember "esti_time" stat.estiTime, stringMember "start_time" stat.startTime,
            stringMember "time_stamp" stat.timeStamp,
            stringMember "door_module" stat.doorModule, stringMember "status" stat.status,
            numberMember "progress_percent" (intOfFloat stat.progressPercent)]]),
      stringMember "uuid" uuid]

def pkgNewObject (manifest : BsL1Manifest) : Json :=
  .object
    [stringMember "dev_id" manifest.devId,
      (text "payload", .object [stringMember "url" manifest.pkgCdnUrl])]

/-! ### The builders write these objects, spliced -/

theorem objectText_checkNewPkg (info : BsPkgInfo) (msg : OutBuf) (uuid : CText) :
    (hmiRespCheckNewPkg info msg uuid).objectText =
      Json.splice (checkNewPkgObject info uuid) := by
  apply Eq.trans
  · apply Writer.Wrote.finish
    repeat first | exact Writer.wrote_start msg | apply Writer.Wrote.putc |
      apply Writer.Wrote.printf | apply Writer.Wrote.puts
  · simp only [member, memberComma, List.append_assoc, List.nil_append, List.cons_append,
      checkNewPkgObject, stringMember, numberMember, Json.splice, Json.spliceMembers,
      Json.spliceMember, Json.separated]
    rfl

theorem objectText_startUpgrade (info : BsPkgInfo) (msg : OutBuf) (uuid : CText) :
    (hmiRespStartUpgrade info msg uuid).objectText =
      Json.splice (startUpgradeObject info uuid) := by
  apply Eq.trans
  · apply Writer.Wrote.finish
    repeat first | exact Writer.wrote_start msg | apply Writer.Wrote.putc |
      apply Writer.Wrote.printf | apply Writer.Wrote.puts
  · simp only [member, memberComma, List.append_assoc, List.nil_append, List.cons_append,
      startUpgradeObject, stringMember, numberMember, Json.splice, Json.spliceMembers,
      Json.spliceMember, Json.separated]
    rfl

set_option maxRecDepth 4096 in
theorem objectText_upgradeStat (stat : BsEcuUpgradeStat) (msg : OutBuf) (uuid : CText) :
    (hmiRespUpgradeStat stat msg uuid).objectText =
      Json.splice (upgradeStatObject stat uuid) := by
  apply Eq.trans
  · apply Writer.Wrote.finish
    repeat first | exact Writer.wrote_start msg | apply Writer.Wrote.putc |
      apply Writer.Wrote.printf | apply Writer.Wrote.puts
  · simp only [member, memberComma, List.append_assoc, List.nil_append, List.cons_append,
      upgradeStatObject, stringMember, numberMember, Json.splice, Json.spliceItems,
      Json.spliceMembers, Json.spliceMember, Json.separated]
    rfl

private theorem cgwApiPayloadPkgNew_eq (manifest : BsL1Manifest) :
    cgwApiPayloadPkgNew manifest = Json.splice (pkgNewObject manifest) := by
  simp only [cgwApiPayloadPkgNew, List.append_assoc, pkgNewObject, stringMember, Json.splice,
    Json.spliceMembers, Json.spliceMember, Json.separated, List.cons_append]
  rfl

/-! ### Reading them back -/

/-- Every text that is built is an object of exactly the members it was built
from. -/
structure DecodesBack (info : BsPkgInfo) (stat : BsEcuUpgradeStat) (manifest : BsL1Manifest)
    (uuid : CText) (msg : OutBuf) : Prop where
  checkNewPkg : Json.parse (hmiRespCheckNewPkg info msg uuid).objectText =
    some (checkNewPkgObject info uuid)
  startUpgrade : Json.parse (hmiRespStartUpgrade info msg uuid).objectText =
    some (startUpgradeObject info uuid)
  upgradeStat : Json.parse (hmiRespUpgradeStat stat msg uuid).objectText =
    some (upgradeStatObject stat uuid)
  pkgNew : Json.parse (cgwApiPayloadPkgNew manifest) = some (pkgNewObject manifest)

/-- The strings that go into the texts. -/
def splicedStrings (info : BsPkgInfo) (stat : BsEcuUpgradeStat) (manifest : BsL1Manifest)
    (uuid : CText) : List CText :=
  [uuid, info.doorModule, info.devId, info.softId, info.releaseNotes, stat.devId, stat.softId,
    stat.estiTime, stat.startTime, stat.timeStamp, stat.doorModule, stat.status,
    manifest.devId, manifest.pkgCdnUrl]

section Reading

variable (info : BsPkgInfo) (stat : BsEcuUpgradeStat) (manifest : BsL1Manifest) (uuid : CText)

private theorem checkNewPkgObject_integral : Json.Integral (checkNewPkgObject info uuid) :=
  ⟨⟨1, rfl⟩, ⟨2, rfl⟩, ⟨trivial, trivial, trivial, trivial, trivial⟩, trivial, trivial⟩

private theorem startUpgradeObject_integral : Json.Integral (startUpgradeObject info uuid) :=
  ⟨⟨2, rfl⟩, ⟨2, rfl⟩, ⟨trivial, trivial, trivial⟩, trivial, trivial⟩

private theorem upgradeStatObject_integral : Json.Integral (upgradeStatObject stat uuid) :=
  ⟨⟨3, rfl⟩, ⟨2, rfl⟩, trivial, trivial, ⟨⟨trivial, trivial, trivial, trivial, trivial, trivial,
    trivial, ⟨intOfFloat stat.progressPercent, rfl⟩, trivial⟩, trivial⟩, trivial, trivial⟩

private theorem pkgNewObject_integral : Json.Integral (pkgNewObject manifest) :=
  ⟨trivial, ⟨trivial, trivial⟩, trivial⟩

end Reading

private theorem names_plain : ∀ name ∈ ["func-id", "category", "response", "door_module", "dev_id",
    "soft_id", "release_notes", "uuid", "id", "version", "esti_time", "start_time",
    "time_stamp", "status", "progress_percent", "payload", "url", "xxx", "1.0.0"],
    Json.Plain (text name) := by
  decide

section Plain

variable (info : BsPkgInfo) (stat : BsEcuUpgradeStat) (manifest : BsL1Manifest) (uuid : CText)

private theorem checkNewPkgObject_allPlain_iff : Json.AllPlain (checkNewPkgObject info uuid) ↔
    Json.Plain info.doorModule ∧ Json.Plain info.devId ∧ Json.Plain info.softId ∧
      Json.Plain info.releaseNotes ∧ Json.Plain uuid := by
  simp [checkNewPkgObject, stringMember, numberMember, Json.AllPlain, Json.AllPlainMembers,
    names_plain, and_assoc]

private theorem startUpgradeObject_allPlain_iff : Json.AllPlain (startUpgradeObject info uuid) ↔
    Json.Plain info.devId ∧ Json.Plain info.softId ∧ Json.Plain uuid := by
  simp [startUpgradeObject, stringMember, numberMember, Json.AllPlain, Json.AllPlainMembers,
    names_plain, and_assoc]

private theorem upgradeStatObject_allPlain_iff : Json.AllPlain (upgradeStatObject stat uuid) ↔
    Json.Plain stat.devId ∧ Json.Plain stat.softId ∧ Json.Plain stat.estiTime ∧
      Json.Plain stat.startTime ∧ Json.Plain stat.timeStamp ∧ Json.Plain stat.doorModule ∧
      Json.Plain stat.status ∧ Json.Plain uuid := by
  simp [upgradeStatObject, stringMember, numberMember, Json.AllPlain, Json.AllPlainMembers,
    Json.AllPlainItems, names_plain, and_assoc]

private theorem pkgNewObject_allPlain_iff : Json.AllPlain (pkgNewObject manifest) ↔
    Json.Plain manifest.devId ∧ Json.Plain manifest.pkgCdnUrl := by
  simp [pkgNewObject, stringMember, Json.AllPlain, Json.AllPlainMembers, names_plain]

end Plain

/-- The texts that are built are read back as what they were built from exactly
when no string that goes into them has to be escaped. -/
theorem decodesBack_iff (info : BsPkgInfo) (stat : BsEcuUpgradeStat) (manifest : BsL1Manifest)
    (uuid : CText) (msg : OutBuf) :
    DecodesBack info stat manifest uuid msg ↔
      ∀ value ∈ splicedStrings info stat manifest uuid, Json.Plain value := by
  have checkNewPkg := Json.parse_splice_iff _ (checkNewPkgObject_integral info uuid)
  have startUpgrade := Json.parse_splice_iff _ (startUpgradeObject_integral info uuid)
  have upgradeStat := Json.parse_splice_iff _ (upgradeStatObject_integral stat uuid)
  have pkgNew := Json.parse_splice_iff _ (pkgNewObject_integral manifest)
  rw [← objectText_checkNewPkg info msg, checkNewPkgObject_allPlain_iff] at checkNewPkg
  rw [← objectText_startUpgrade info msg, startUpgradeObject_allPlain_iff] at startUpgrade
  rw [← objectText_upgradeStat stat msg, upgradeStatObject_allPlain_iff] at upgradeStat
  rw [← cgwApiPayloadPkgNew_eq, pkgNewObject_allPlain_iff] at pkgNew
  simp only [splicedStrings, List.forall_mem_cons]
  constructor
  · intro back
    obtain ⟨door, dev, soft, notes, isUuid⟩ := checkNewPkg.mp back.checkNewPkg
    obtain ⟨statDev, statSoft, esti, start, stamp, statDoor, status, _⟩ :=
      upgradeStat.mp back.upgradeStat
    obtain ⟨manifestDev, url⟩ := pkgNew.mp back.pkgNew
    exact ⟨isUuid, door, dev, soft, notes, statDev, statSoft, esti, start, stamp, statDoor,
      status, manifestDev, url, by simp⟩
  · rintro ⟨isUuid, door, dev, soft, notes, statDev, statSoft, esti, start, stamp, statDoor,
      status, manifestDev, url, _⟩
    exact
      { checkNewPkg := checkNewPkg.mpr ⟨door, dev, soft, notes, isUuid⟩
        startUpgrade := startUpgrade.mpr ⟨dev, soft, isUuid⟩
        upgradeStat := upgradeStat.mpr ⟨statDev, statSoft, esti, start, stamp, statDoor, status,
          isUuid⟩
        pkgNew := pkgNew.mpr ⟨manifestDev, url⟩ }

/-! ### A uuid with a quote -/

/-- A CHECK_NEW_PACKAGE whose uuid holds an escaped quote. -/
def quotedRequest : CText :=
  text "\x7b\"func-id\":1,\"uuid\":\"a\\\"b\"\x7d"

theorem quoted_uuid_not_decoded :
    ((CJson.parse (fun _ => 1) Json.parse quotedRequest).map
        (fun root => hmiScan root.child [] 0)) = some (.ok (text "a\"b", some checkNewPackage)) ∧
      ∀ manifest msg, ¬DecodesBack initHmiPkgInfo initHmiUpgradeStat manifest (text "a\"b") msg := by
  refine ⟨by decide +kernel, ?_⟩
  intro manifest msg back
  have read := back.checkNewPkg
  rw [objectText_checkNewPkg, Json.parse_splice_iff _ (checkNewPkgObject_integral _ _),
    checkNewPkgObject_allPlain_iff] at read
  exact absurd read.2.2.2.2 (by decide)

end DlcServer
