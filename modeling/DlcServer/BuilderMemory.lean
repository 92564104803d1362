/-
Which bytes of its buffer a message builder writes, and which it sends.

The builders go through the buffer from front to back, up to the brace that
closes the message.  The terminator they add is stored one byte further than
they mean it to be, and the length they return covers the byte that is left out.
-/

import DlcServer.KeptStrings
import DlcServer.MessageTexts

namespace DlcServer

open Library

/-! ### A builder on its way -/

/-- The builder has left alone what lies behind its index, and has stored
nothing behind the terminator there. -/
structure Writer.Advanced (prior : OutBuf) (writer : Writer) : Prop where
  started : 4 ≤ writer.pc
  behind : ∀ index, writer.pc < index → writer.msg.mem index = prior.mem index
  kept : prior.top ≤ writer.msg.top
  top : writer.msg.top ≤ max prior.top (writer.pc + 1)

namespace Writer

@[simp] theorem putc_pc (writer : Writer) (byte : UInt8) :
    (writer.putc byte).pc = writer.pc + 1 :=
  rfl

@[simp] theorem puts_pc (writer : Writer) (source : CText) :
    (writer.puts source).pc = writer.pc + source.length :=
  rfl

@[simp] theorem printf_pc (writer : Writer) (formatted : CText) :
    (writer.printf formatted).pc = writer.pc + formatted.length :=
  rfl

@[simp] theorem finish_pc (writer : Writer) : writer.finish.pc = writer.pc + 1 :=
  rfl

@[simp] theorem putc_scratch (writer : Writer) (byte : UInt8) :
    (writer.putc byte).scratch = writer.scratch :=
  rfl

@[simp] theorem puts_scratch (writer : Writer) (source : CText) :
    (writer.puts source).scratch = writer.scratch :=
  rfl

@[simp] theorem printf_scratch (writer : Writer) (formatted : CText) :
    (writer.printf formatted).scratch = max writer.scratch (formatted.length + 1) :=
  rfl

@[simp] theorem finish_scratch (writer : Writer) : writer.finish.scratch = writer.scratch :=
  rfl

variable {prior : OutBuf} {writer : Writer}

private theorem advanced_start (prior : OutBuf) : Advanced prior (.mk prior 4 0) where
  started := Nat.le_refl 4
  behind := fun _ _ => rfl
  kept := Nat.le_refl _
  top := Nat.le_max_left _ _

theorem Advanced.putc (advanced : Advanced prior writer) (byte : UInt8) :
    Advanced prior (writer.putc byte) where
  started := Nat.le_succ_of_le advanced.started
  behind := by
    intro index after
    change writer.pc + 1 < index at after
    have other : index ≠ writer.pc := by omega
    exact (if_neg other).trans (advanced.behind index (by omega))
  kept := Nat.le_trans advanced.kept (Nat.le_max_left _ _)
  top := by
    have before := advanced.top
    simp only [Writer.putc, OutBuf.store]
    omega

theorem Advanced.puts (advanced : Advanced prior writer) (source : CText) :
    Advanced prior (writer.puts source) where
  started := Nat.le_trans advanced.started (Nat.le_add_right _ _)
  behind := by
    intro index after
    change writer.pc + source.length < index at after
    have notBefore : ¬ index < writer.pc := by omega
    have notWithin : ¬ index ≤ writer.pc + source.length := by omega
    simp only [Writer.puts, OutBuf.strcpy, if_neg notBefore, if_neg notWithin]
    exact advanced.behind index (by omega)
  kept := Nat.le_trans advanced.kept (Nat.le_max_left _ _)
  top := by
    have before := advanced.top
    simp only [Writer.puts, OutBuf.strcpy]
    omega

theorem Advanced.printf (advanced : Advanced prior writer) (formatted : CText) :
    Advanced prior (writer.printf formatted) where
  started := (advanced.puts formatted).started
  behind := (advanced.puts formatted).behind
  kept := (advanced.puts formatted).kept
  top := (advanced.puts formatted).top

/-! ### A finished message -/

/-- What `finish` stores in the four bytes of the length. -/
def lengthByte (pc : Nat) : Nat → UInt8
  | 0 => UInt8.ofNat (pc <<< 24 % 4294967296)
  | 1 => UInt8.ofNat (pc <<< 16 % 4294967296)
  | 2 => UInt8.ofNat (pc <<< 8 % 4294967296)
  | _ => UInt8.ofNat pc

/-- The message ends one byte before its length, and that byte is as it was
before the call. -/
structure Finished (prior : OutBuf) (writer : Writer) : Prop where
  started : 5 ≤ writer.pc
  lengthBytes : ∀ index < 4, writer.msg.mem index = lengthByte writer.pc index
  gap : writer.msg.mem (writer.pc - 1) = prior.mem (writer.pc - 1)
  top : writer.msg.top = max prior.top (writer.pc + 1)

private theorem finish_length (writer : Writer) (index : Nat) (small : index < 4) :
    writer.finish.msg.mem index = lengthByte writer.finish.pc index := by
  unfold finish OutBuf.store lengthByte
  match index, small with
  | 0, _ => simp only [if_pos, OfNat.zero_ne_ofNat, if_false, zero_ne_one]
  | 1, _ => simp only [if_pos, OfNat.one_ne_ofNat, if_false]
  | 2, _ => simp only [if_pos, Nat.reduceEqDiff, if_false]
  | 3, _ => simp only [if_pos]

private theorem finish_mem (writer : Writer) {index : Nat} (behind : 4 ≤ index)
    (other : index ≠ writer.pc + 1) : writer.finish.msg.mem index = writer.msg.mem index := by
  have notFirst : index ≠ 0 := by omega
  have notSecond : index ≠ 1 := by omega
  have notThird : index ≠ 2 := by omega
  have notFourth : index ≠ 3 := by omega
  simp only [Writer.finish, OutBuf.store, if_neg notFirst, if_neg notSecond, if_neg notThird,
    if_neg notFourth, if_neg other]

private theorem finish_top (writer : Writer) (started : 4 ≤ writer.pc) :
    writer.finish.msg.top = max writer.msg.top (writer.pc + 2) := by
  simp only [Writer.finish, OutBuf.store]
  omega

theorem Advanced.finish (advanced : Advanced prior writer) (brace : UInt8) :
    Finished prior (writer.putc brace).finish where
  started := by
    have before := (advanced.putc brace).started
    exact Nat.succ_le_succ before
  lengthBytes := finish_length _
  gap := by
    have before := advanced.started
    have place : (writer.putc brace).finish.pc - 1 = writer.pc + 1 := rfl
    have inText : 4 ≤ writer.pc + 1 := by omega
    have notLast : writer.pc + 1 ≠ (writer.putc brace).pc + 1 := by
      change writer.pc + 1 ≠ writer.pc + 1 + 1
      omega
    rw [place, finish_mem _ inText notLast]
    have notBrace : writer.pc + 1 ≠ writer.pc := by omega
    exact (if_neg notBrace).trans (advanced.behind _ (Nat.lt_succ_self _))
  top := by
    have before := (advanced.putc brace).top
    have kept := (advanced.putc brace).kept
    have started := (advanced.putc brace).started
    rw [finish_top _ started]
    have length : (writer.putc brace).finish.pc = (writer.putc brace).pc + 1 := rfl
    omega

end Writer

/-! ### Lengths -/

@[simp] theorem length_text (source : String) : (text source).length = source.length := by
  unfold text
  rw [List.length_map, String.length_toList]

@[simp] theorem length_member (label : String) (value : CText) :
    (member label value).length = label.length + value.length + 5 := by
  have quote : "\"".length = 1 := rfl
  have between : "\":\"".length = 3 := rfl
  simp only [member, List.length_append, length_text]
  omega

@[simp] theorem length_memberComma (label : String) (value : CText) :
    (memberComma label value).length = label.length + value.length + 6 := by
  have comma : ",".length = 1 := rfl
  simp only [memberComma, List.length_append, length_text, length_member]
  omega

/-! ### The messages to the HMI -/

/-- A message with what it is built from, its uuid apart. -/
inductive HmiResp
  | checkNewPkg (info : BsPkgInfo)
  | startUpgrade (info : BsPkgInfo)
  | upgradeStat (stat : BsEcuUpgradeStat)

/-- What stands between the length and the byte behind the closing brace. -/
def messageText (message : List UInt8) : CText :=
  message.dropLast.drop 4

namespace HmiResp

def build : HmiResp → OutBuf → CText → Writer
  | checkNewPkg info => hmiRespCheckNewPkg info
  | startUpgrade info => hmiRespStartUpgrade info
  | upgradeStat stat => hmiRespUpgradeStat stat

def object : HmiResp → CText → Json
  | checkNewPkg info => checkNewPkgObject info
  | startUpgrade info => startUpgradeObject info
  | upgradeStat stat => upgradeStatObject stat

/-- `msg[0 .. returned length)`. -/
def sent (resp : HmiResp) (prior : OutBuf) (uuid : CText) : List UInt8 :=
  (resp.build prior uuid).msg.sent (resp.build prior uuid).pc

/-- The index behind the brace that closes the message. -/
def gap (resp : HmiResp) (uuid : CText) : Nat :=
  4 + (Json.splice (resp.object uuid)).length

private theorem build_eq (resp : HmiResp) : ∃ front : OutBuf → Writer,
    (∀ prior, Writer.Advanced prior (front prior)) ∧
      (∀ prior uuid, resp.build prior uuid =
        (((front prior).printf (member "uuid" uuid)).putc closeBrace).finish) ∧
      ∀ first second, (front first).scratch = (front second).scratch := by
  cases resp with
  | checkNewPkg info =>
      refine ⟨fun prior => _, ?_, fun prior uuid => rfl, ?_⟩
      · intro prior
        repeat first | exact Writer.advanced_start prior | apply Writer.Advanced.putc |
          apply Writer.Advanced.printf | apply Writer.Advanced.puts
      · intro first second
        simp only [Writer.putc_scratch, Writer.puts_scratch, Writer.printf_scratch]
  | startUpgrade info =>
      refine ⟨fun prior => _, ?_, fun prior uuid => rfl, ?_⟩
      · intro prior
        repeat first | exact Writer.advanced_start prior | apply Writer.Advanced.putc |
          apply Writer.Advanced.printf | apply Writer.Advanced.puts
      · intro first second
        simp only [Writer.putc_scratch, Writer.puts_scratch, Writer.printf_scratch]
  | upgradeStat stat =>
      refine ⟨fun prior => _, ?_, fun prior uuid => rfl, ?_⟩
      · intro prior
        repeat first | exact Writer.advanced_start prior | apply Writer.Advanced.putc |
          apply Writer.Advanced.printf | apply Writer.Advanced.puts
      · intro first second
        simp only [Writer.putc_scratch, Writer.puts_scratch, Writer.printf_scratch]

theorem build_finished (resp : HmiResp) (prior : OutBuf) (uuid : CText) :
    Writer.Finished prior (resp.build prior uuid) := by
  rcases resp.build_eq with ⟨front, advanced, built, _⟩
  rw [built]
  exact ((advanced prior).printf _).finish closeBrace

theorem scratch_le (resp : HmiResp) (first second : OutBuf) {short long : CText}
    (shorter : short.length ≤ long.length) :
    (resp.build first short).scratch ≤ (resp.build second long).scratch := by
  rcases resp.build_eq with ⟨front, _, built, same⟩
  rw [built, built]
  change max (front first).scratch ((member "uuid" short).length + 1) ≤
    max (front second).scratch ((member "uuid" long).length + 1)
  rw [same first second, length_member, length_member]
  omega

private theorem objectText_build (resp : HmiResp) (prior : OutBuf) (uuid : CText) :
    (resp.build prior uuid).objectText = Json.splice (resp.object uuid) := by
  cases resp with
  | checkNewPkg info => exact objectText_checkNewPkg info prior uuid
  | startUpgrade info => exact objectText_startUpgrade info prior uuid
  | upgradeStat stat => exact objectText_upgradeStat stat prior uuid

theorem build_pc (resp : HmiResp) (prior : OutBuf) (uuid : CText) :
    (resp.build prior uuid).pc = resp.gap uuid + 1 := by
  have started := (resp.build_finished prior uuid).started
  have text := congrArg List.length (resp.objectText_build prior uuid)
  unfold Writer.objectText at text
  rw [List.length_drop, OutBuf.sent_length] at text
  unfold gap
  omega

private theorem build_text (resp : HmiResp) (prior : OutBuf) (uuid : CText) {index : Nat}
    (behind : 4 ≤ index) (before : index < resp.gap uuid) :
    (resp.build prior uuid).msg.mem index =
      (Json.splice (resp.object uuid)).getD (index - 4) 0 := by
  rw [← resp.objectText_build prior uuid]
  unfold Writer.objectText
  rw [resp.build_pc prior uuid, Nat.add_sub_cancel, List.getD_eq_getElem?_getD,
    List.getElem?_drop, ← List.getD_eq_getElem?_getD]
  have place : 4 + (index - 4) = index := by omega
  rw [place, OutBuf.sent_getD _ _ _ before]

theorem messageText_sent (resp : HmiResp) (prior : OutBuf) (uuid : CText) :
    messageText (resp.sent prior uuid) = Json.splice (resp.object uuid) := by
  rw [← resp.objectText_build prior uuid]
  unfold messageText sent Writer.objectText OutBuf.sent
  rw [resp.build_pc, List.range_succ, List.map_append, List.map_singleton, List.dropLast_concat,
    Nat.add_sub_cancel]

/-- Messages built over two memories are the same bytes exactly when the
memories agree in the gap. -/
theorem sent_eq_iff (resp : HmiResp) (uuid : CText) (first second : OutBuf) :
    resp.sent first uuid = resp.sent second uuid ↔
      first.mem (resp.gap uuid) = second.mem (resp.gap uuid) := by
  have one := resp.build_finished first uuid
  have two := resp.build_finished second uuid
  have gapOne := one.gap
  have gapTwo := two.gap
  rw [resp.build_pc, Nat.add_sub_cancel] at gapOne gapTwo
  unfold sent OutBuf.sent
  rw [resp.build_pc, resp.build_pc, List.map_inj_left, ← gapOne, ← gapTwo]
  constructor
  · intro same
    exact same _ (List.mem_range.mpr (Nat.lt_succ_self _))
  · intro same index member
    have inside := List.mem_range.mp member
    by_cases isLength : index < 4
    · rw [one.lengthBytes index isLength, two.lengthBytes index isLength, resp.build_pc,
        resp.build_pc]
    · by_cases isText : index < resp.gap uuid
      · rw [resp.build_text first uuid (by omega) isText,
          resp.build_text second uuid (by omega) isText]
      · have isGap : index = resp.gap uuid := by omega
        rw [isGap]
        exact same

private theorem uuid_last (resp : HmiResp) (prior : OutBuf) :
    ∃ front, ∀ uuid, (resp.build prior uuid).objectText =
      front ++ member "uuid" uuid ++ [closeBrace] := by
  rcases resp.build_eq with ⟨front, advanced, built, _⟩
  refine ⟨(front prior).written, ?_⟩
  intro uuid
  have wrote : Writer.Wrote (front prior) (front prior).written := ⟨(advanced prior).started, rfl⟩
  rw [built]
  exact ((wrote.printf _).putc closeBrace).finish

private theorem splice_object (resp : HmiResp) :
    ∃ before after, ∀ uuid, Json.splice (resp.object uuid) = before ++ uuid ++ after := by
  rcases resp.uuid_last ⟨fun _ => 0, 0⟩ with ⟨front, last⟩
  refine ⟨front ++ text "\"uuid\":\"", text "\"" ++ [closeBrace], ?_⟩
  intro uuid
  rw [← resp.objectText_build ⟨fun _ => 0, 0⟩, last]
  simp only [member, List.append_assoc]
  rfl

theorem splice_object_injective (resp : HmiResp) {first second : CText}
    (same : Json.splice (resp.object first) = Json.splice (resp.object second)) :
    first = second := by
  rcases resp.splice_object with ⟨before, after, shape⟩
  rw [shape, shape] at same
  exact List.append_cancel_left (List.append_cancel_right same)

theorem gap_eq (resp : HmiResp) (uuid : CText) : resp.gap uuid = resp.gap [] + uuid.length := by
  rcases resp.splice_object with ⟨before, after, shape⟩
  simp only [gap, shape, List.length_append, List.length_nil]
  omega

/-- Every byte that is sent was written by the call that built it. -/
def OwnBytes (resp : HmiResp) (uuid : CText) : Prop :=
  ∀ first second, resp.sent first uuid = resp.sent second uuid

/-- No message is: it ends with the byte that was in the gap. -/
theorem sent_keeps_gap (resp : HmiResp) (uuid : CText) :
    (∀ first second, resp.sent first uuid = resp.sent second uuid ↔
      first.mem (resp.gap uuid) = second.mem (resp.gap uuid)) ∧ ¬resp.OwnBytes uuid := by
  refine ⟨resp.sent_eq_iff uuid, ?_⟩
  intro own
  have same := own ⟨fun _ => 0, 0⟩ ⟨fun _ => 1, 0⟩
  rw [resp.sent_eq_iff] at same
  exact absurd same (by decide : (0 : UInt8) ≠ 1)

/-- The answer to START_UPGRADE behind one to CHECK_NEW_PACKAGE ends with a byte
of that one. -/
theorem startUpgrade_keeps_checkNewPkg : ¬∀ (resp : HmiResp) (uuid : CText), resp.OwnBytes uuid := by
  intro own
  have same := congrArg (fun bytes => bytes.getD 93 0)
    (own (.startUpgrade initHmiPkgInfo) (text "1") ⟨fun _ => 0, 0⟩
      (hmiRespCheckNewPkg initHmiPkgInfo ⟨fun _ => 0, 0⟩ (text "1")).msg)
  revert same
  decide +kernel

end HmiResp

/-! ### Room for a message -/

def releaseNotesCapacity : Nat := 256

structure BsPkgInfo.Terminated (info : BsPkgInfo) : Prop where
  doorModule : info.doorModule.length < doorModuleCapacity
  devId : info.devId.length < devIdCapacity
  softId : info.softId.length < softIdCapacity
  releaseNotes : info.releaseNotes.length < releaseNotesCapacity

structure BsL1Manifest.Terminated (manifest : BsL1Manifest) : Prop where
  devId : manifest.devId.length < devIdCapacity
  pkgCdnUrl : manifest.pkgCdnUrl.length < pkgCdnUrlCapacity

/-- Neither the message nor a string formatted for it goes past its array. -/
structure Writer.Within (prior : OutBuf) (capacity scratch : Nat) (writer : Writer) : Prop where
  msg : writer.msg.top ≤ max prior.top capacity
  buf : writer.scratch ≤ scratch

private theorem length_decimal {value : Int} (above : -2147483648 ≤ value) (below : value < 2147483648) :
    (text (toString value)).length ≤ 11 := by
  rw [length_text, Int.toString_eq_repr, Int.repr_eq_if]
  by_cases natural : 0 ≤ value
  · rw [if_pos natural]
    have digits : value.toNat.repr.length ≤ 10 := by
      rw [Nat.length_repr_le_iff (by decide)]
      omega
    omega
  · rw [if_neg natural, String.length_append]
    have digits : (-value).toNat.repr.length ≤ 10 := by
      rw [Nat.length_repr_le_iff (by decide)]
      omega
    have sign : "-".length = 1 := rfl
    omega

private theorem label_lengths : "door_module".length = 11 ∧ "dev_id".length = 6 ∧
    "soft_id".length = 7 ∧ "release_notes".length = 13 ∧ "esti_time".length = 9 ∧
    "start_time".length = 10 ∧ "time_stamp".length = 10 ∧ "status".length = 6 ∧
    "\"progress_percent\":".length = 19 ∧ "uuid".length = 4 := by
  decide

private theorem header_lengths :
    "\"func-id\":1,\"category\":2,\"response\":\x7b".length = 37 ∧
      "\"func-id\":2,\"category\":2,\"response\":\x7b".length = 37 ∧
      "\"func-id\":3,\"category\":2,\"id\":\"xxx\",\"version\":\"1.0.0\",".length = 54 ∧
      "\"response\":[".length = 12 := by
  decide

private theorem HmiResp.build_within (resp : HmiResp) {uuid : CText} {capacity scratch : Nat}
    (prior : OutBuf) (fits : (resp.build prior uuid).pc < capacity)
    (formats : (resp.build prior uuid).scratch ≤ scratch) :
    (resp.build prior uuid).Within prior capacity scratch where
  msg := by
    have top := (resp.build_finished prior uuid).top
    omega
  buf := formats

section Room

variable {info : BsPkgInfo} {stat : BsEcuUpgradeStat} {uuid : CText} (prior : OutBuf)

private theorem checkNewPkg_within (terminated : info.Terminated) (short : uuid.length < uuidCapacity) :
    (hmiRespCheckNewPkg info prior uuid).Within prior 1024 512 := by
  have doorModule : info.doorModule.length < 8 := terminated.doorModule
  have devId : info.devId.length < 32 := terminated.devId
  have softId : info.softId.length < 32 := terminated.softId
  have releaseNotes : info.releaseNotes.length < 256 := terminated.releaseNotes
  have uuidShort : uuid.length < 64 := short
  apply HmiResp.build_within (.checkNewPkg info)
  · simp only [HmiResp.build, hmiRespCheckNewPkg, Writer.finish_pc, Writer.putc_pc,
      Writer.puts_pc, Writer.printf_pc, length_member, length_memberComma, length_text,
      label_lengths, header_lengths]
    omega
  · simp only [HmiResp.build, hmiRespCheckNewPkg, Writer.finish_scratch, Writer.putc_scratch,
      Writer.puts_scratch, Writer.printf_scratch, length_member, length_memberComma,
      label_lengths, Nat.max_le]
    omega

private theorem startUpgrade_within (terminated : info.Terminated) (short : uuid.length < uuidCapacity) :
    (hmiRespStartUpgrade info prior uuid).Within prior 1024 128 := by
  have devId : info.devId.length < 32 := terminated.devId
  have softId : info.softId.length < 32 := terminated.softId
  have uuidShort : uuid.length < 64 := short
  apply HmiResp.build_within (.startUpgrade info)
  · simp only [HmiResp.build, hmiRespStartUpgrade, Writer.finish_pc, Writer.putc_pc,
      Writer.puts_pc, Writer.printf_pc, length_member, length_memberComma, length_text,
      label_lengths, header_lengths]
    omega
  · simp only [HmiResp.build, hmiRespStartUpgrade, Writer.finish_scratch, Writer.putc_scratch,
      Writer.puts_scratch, Writer.printf_scratch, length_member, length_memberComma,
      label_lengths, Nat.max_le]
    omega

private theorem upgradeStat_within (terminated : stat.Terminated) (short : uuid.length < uuidCapacity)
    (above : -2147483648 ≤ stat.progressPercent) (below : stat.progressPercent < 2147483648) :
    (hmiRespUpgradeStat stat prior uuid).Within prior 512 128 := by
  have devId : stat.devId.length < 32 := terminated.devId
  have softId : stat.softId.length < 32 := terminated.softId
  have estiTime : stat.estiTime.length < 64 := terminated.estiTime
  have startTime : stat.startTime.length < 32 := terminated.startTime
  have timeStamp : stat.timeStamp.length < 32 := terminated.timeStamp
  have doorModule : stat.doorModule.length < 8 := terminated.doorModule
  have status : stat.status.length < 15 := terminated.status
  have uuidShort : uuid.length < 64 := short
  have progress := length_decimal above below
  rw [length_text, ← intOfFloat_eq above below] at progress
  apply HmiResp.build_within (.upgradeStat stat)
  · simp only [HmiResp.build, hmiRespUpgradeStat, Writer.finish_pc, Writer.putc_pc,
      Writer.puts_pc, Writer.printf_pc, List.length_append, length_member, length_memberComma,
      length_text, label_lengths, header_lengths]
    omega
  · simp only [HmiResp.build, hmiRespUpgradeStat, Writer.finish_scratch, Writer.putc_scratch,
      Writer.puts_scratch, Writer.printf_scratch, List.length_append, length_member,
      length_memberComma, length_text, label_lengths, Nat.max_le]
    omega

private theorem length_pkgNew {manifest : BsL1Manifest} (terminated : manifest.Terminated) :
    (cgwApiPayloadPkgNew manifest).length < 256 := by
  have devId : manifest.devId.length < 32 := terminated.devId
  have url : manifest.pkgCdnUrl.length < 128 := terminated.pkgCdnUrl
  have opening : "\x7b\"dev_id\":\"".length = 11 := rfl
  have between : "\",\"payload\":\x7b\"url\":\"".length = 20 := rfl
  have closing : "\"\x7d\x7d".length = 3 := rfl
  simp only [cgwApiPayloadPkgNew, List.length_append, length_text]
  omega

end Room

/-- What the builders of the program are given, each string ending in its array. -/
structure Terminated (info : BsPkgInfo) (stat : BsEcuUpgradeStat) (manifest : BsL1Manifest)
    (uuid : CText) : Prop where
  hmiPkgInfo : info.Terminated
  hmiUpgradeStat : stat.Terminated
  curManifest : manifest.Terminated
  uuid : uuid.length < uuidCapacity

/-- No builder leaves its arrays: the answers have 1024 bytes, the progress
message of a status request 512, the body of a /pkg/new request 256. -/
structure BuildersWithin (info : BsPkgInfo) (stat : BsEcuUpgradeStat) (manifest : BsL1Manifest)
    (uuid : CText) (prior : OutBuf) : Prop where
  checkNewPkg : (hmiRespCheckNewPkg info prior uuid).Within prior 1024 512
  startUpgrade : (hmiRespStartUpgrade info prior uuid).Within prior 1024 128
  upgradeStat : (hmiRespUpgradeStat stat prior uuid).Within prior 512 128
  tdrStat : (hmiRespUpgradeStat stat prior progressUuid).Within prior 512 128
  pkgNew : (cgwApiPayloadPkgNew manifest).length + 1 ≤ 256

theorem Terminated.builders {info : BsPkgInfo} {stat : BsEcuUpgradeStat}
    {manifest : BsL1Manifest} {uuid : CText} (terminated : Terminated info stat manifest uuid)
    (prior : OutBuf) (above : -2147483648 ≤ stat.progressPercent)
    (below : stat.progressPercent < 2147483648) :
    BuildersWithin info stat manifest uuid prior where
  checkNewPkg := checkNewPkg_within prior terminated.hmiPkgInfo terminated.uuid
  startUpgrade := startUpgrade_within prior terminated.hmiPkgInfo terminated.uuid
  upgradeStat := upgradeStat_within prior terminated.hmiUpgradeStat terminated.uuid above below
  tdrStat := upgradeStat_within prior terminated.hmiUpgradeStat (by decide) above below
  pkgNew := length_pkgNew terminated.curManifest

private theorem initHmiPkgInfo_terminated : initHmiPkgInfo.Terminated :=
  ⟨by decide, by decide, by decide, by decide⟩

theorem buildersWithin_of_terminated (info : BsPkgInfo) (stat : BsEcuUpgradeStat)
    (manifest : BsL1Manifest) (uuid : CText) (prior : OutBuf)
    (terminated : Terminated info stat manifest uuid)
    (above : -2147483648 ≤ stat.progressPercent) (below : stat.progressPercent < 2147483648) :
    BuildersWithin info stat manifest uuid prior :=
  terminated.builders prior above below

theorem init_buildersWithin :
    BuildersWithin initHmiPkgInfo initHmiUpgradeStat { devId := [], pkgCdnUrl := [] } progressUuid
      ⟨fun _ => 0, 0⟩ :=
  buildersWithin_of_terminated _ _ _ _ _
    { hmiPkgInfo := initHmiPkgInfo_terminated
      hmiUpgradeStat :=
        ⟨by decide, by decide, by decide, by decide, by decide, by decide, by decide⟩
      curManifest := ⟨by decide, by decide⟩
      uuid := by decide }
    (by decide) (by decide)

/-- In every state of every run, whatever the message buffer holds, the program
builds what it has stored without leaving its arrays. -/
theorem buildersWithin_of_reachable {requests : List Api} {state : State}
    (reached : (systemWith requests).Reachable state)
    (above : -2147483648 ≤ state.shared.gCtx.hmiUpgradeStat.progressPercent)
    (below : state.shared.gCtx.hmiUpgradeStat.progressPercent < 2147483648) (prior : OutBuf) :
    BuildersWithin state.shared.gCtx.hmiPkgInfo state.shared.gCtx.hmiUpgradeStat
      state.shared.gCtx.curManifest state.shared.uuid prior := by
  have kept := terminated_of_reachable reached
  have terminated : Terminated state.shared.gCtx.hmiPkgInfo state.shared.gCtx.hmiUpgradeStat
      state.shared.gCtx.curManifest state.shared.uuid :=
    { hmiPkgInfo := by
        rw [hmiPkgInfo_of_reachable reached]
        exact initHmiPkgInfo_terminated
      hmiUpgradeStat := kept.hmiUpgradeStat
      curManifest := ⟨kept.devId, kept.pkgCdnUrl⟩
      uuid := kept.uuid }
  exact terminated.builders prior above below

def firstReport : List Move :=
  upgradeRuns ++ polls 7 [statusReply [statusMember (text "in progress"), progressMember 5]]

set_option maxRecDepth 4096 in
theorem firstReport_buildersWithin :
    ∃ state, system.run system.initial firstReport = some state ∧
      state.shared.gCtx.hmiUpgradeStat.progressPercent = 5 ∧
        ∀ prior, BuildersWithin state.shared.gCtx.hmiPkgInfo state.shared.gCtx.hmiUpgradeStat
          state.shared.gCtx.curManifest state.shared.uuid prior := by
  have ran : ∃ state, system.run system.initial firstReport = some state ∧
      state.shared.gCtx.hmiUpgradeStat.progressPercent = 5 := ⟨_, rfl, rfl⟩
  obtain ⟨state, ended, five⟩ := ran
  refine ⟨state, ended, five, fun prior => ?_⟩
  refine @buildersWithin_of_reachable [] state (Machine.Reachable.of_run ended) ?_ ?_ prior
  · rw [five]
    decide
  · rw [five]
    decide

end DlcServer
