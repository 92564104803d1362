/-
Do the length prefixes of the outgoing messages mean what the handlers of the
incoming ones would read from them?

The HMI builders count the prefix and one byte too many, and shift the length to
the left before they cut it to a byte, so that only its low byte is ever sent.
The two builders for the DMC write the length itself; there it is the decoder
that fails, on every byte of 128 or more.
-/

import DlcServer.Messages

namespace DlcServer

open Library

/-- The messages the program frames, with what they are built from. -/
inductive FramedMessage
  | checkNewPkg (info : BsPkgInfo) (uuid : CText)
  | startUpgrade (info : BsPkgInfo) (uuid : CText)
  | upgradeStat (stat : BsEcuUpgradeStat) (uuid : CText)
  | status (body : CText)
  | inventory

namespace FramedMessage

def ofWriter (writer : Writer) : List UInt8 :=
  writer.msg.sent writer.pc

def ofPair (built : OutBuf × Nat) : List UInt8 :=
  built.1.sent built.2

/-- The bytes handed to `mg_send`, built over the memory `prior`. -/
def bytes (prior : OutBuf) : FramedMessage → List UInt8
  | checkNewPkg info uuid => ofWriter (hmiRespCheckNewPkg info prior uuid)
  | startUpgrade info uuid => ofWriter (hmiRespStartUpgrade info prior uuid)
  | upgradeStat stat uuid => ofWriter (hmiRespUpgradeStat stat prior uuid)
  | status body => ofPair (cgwMonitorHandleStatus prior body)
  | inventory => ofPair (dmcRespInventory prior)

/-- The decoder of the handlers reads the number of bytes behind the prefix. -/
def Agrees (prior : OutBuf) (message : FramedMessage) : Prop :=
  decodedLength (message.bytes prior) + 4 = (message.bytes prior).length

instance (prior : OutBuf) (message : FramedMessage) : Decidable (message.Agrees prior) :=
  inferInstanceAs (Decidable (_ = _))

end FramedMessage

/-! ### The HMI builders -/

private theorem cut_of_shifted (pc shift : Nat) (byteOrMore : 8 ≤ shift) :
    UInt8.ofNat (pc <<< shift % 4294967296) = 0 := by
  apply UInt8.toNat.inj
  rw [ofNat_toNat_mod, Nat.shiftLeft_eq]
  obtain ⟨more, rfl⟩ := Nat.exists_eq_add_of_le byteOrMore
  rw [Nat.mod_mod_of_dvd _ (by decide : 256 ∣ 4294967296), Nat.pow_add,
    Nat.mul_left_comm]
  exact Nat.mul_mod_right 256 _

private theorem decodedLength_finish (writer : Writer) (started : 4 ≤ writer.pc) :
    decodedLength (FramedMessage.ofWriter writer.finish) =
      signedDecode 0 0 0 (UInt8.ofNat (writer.pc + 1)) := by
  have inside (index : Nat) (small : index < 4) : index < writer.finish.pc := by
    change index < writer.pc + 1
    omega
  unfold decodedLength FramedMessage.ofWriter
  rw [OutBuf.sent_getD _ _ 0 (inside 0 (by omega)), OutBuf.sent_getD _ _ 1 (inside 1 (by omega)),
    OutBuf.sent_getD _ _ 2 (inside 2 (by omega)), OutBuf.sent_getD _ _ 3 (inside 3 (by omega))]
  simp [Writer.finish, OutBuf.store, cut_of_shifted]

private theorem finish_disagrees (writer : Writer) (started : 4 ≤ writer.pc) :
    decodedLength (FramedMessage.ofWriter writer.finish) + 4 ≠
      (FramedMessage.ofWriter writer.finish).length := by
  rw [decodedLength_finish writer started, signedDecode_low_byte, ofNat_toNat_mod]
  change _ ≠ (writer.finish.msg.sent writer.finish.pc).length
  rw [OutBuf.sent_length]
  change _ ≠ writer.pc + 1
  split <;> omega

private theorem four_le_putc (writer : Writer) (byte : UInt8) (started : 4 ≤ writer.pc) :
    4 ≤ (writer.putc byte).pc :=
  Nat.le_succ_of_le started

private theorem four_le_puts (writer : Writer) (source : CText) (started : 4 ≤ writer.pc) :
    4 ≤ (writer.puts source).pc :=
  Nat.le_trans started (Nat.le_add_right _ _)

private theorem four_le_printf (writer : Writer) (source : CText)
    (started : 4 ≤ writer.pc) : 4 ≤ (writer.printf source).pc :=
  four_le_puts writer source started

private theorem checkNewPkg_disagrees (prior : OutBuf) (info : BsPkgInfo) (uuid : CText) :
    ¬ (FramedMessage.checkNewPkg info uuid).Agrees prior := by
  apply finish_disagrees
  repeat first | apply four_le_putc | apply four_le_printf | apply four_le_puts
  exact Nat.le_refl 4

private theorem startUpgrade_disagrees (prior : OutBuf) (info : BsPkgInfo) (uuid : CText) :
    ¬ (FramedMessage.startUpgrade info uuid).Agrees prior := by
  apply finish_disagrees
  repeat first | apply four_le_putc | apply four_le_printf | apply four_le_puts
  exact Nat.le_refl 4

private theorem upgradeStat_disagrees (prior : OutBuf) (stat : BsEcuUpgradeStat) (uuid : CText) :
    ¬ (FramedMessage.upgradeStat stat uuid).Agrees prior := by
  apply finish_disagrees
  repeat first | apply four_le_putc | apply four_le_printf | apply four_le_puts
  exact Nat.le_refl 4

/-! ### The builders for the DMC -/

private theorem decodedLength_lengthPrefixed (resp : OutBuf) (body : CText) :
    decodedLength (FramedMessage.ofPair (lengthPrefixed resp body)) =
      decodedLength (bigEndian (body.length % 4294967296)) := by
  have inside (index : Nat) (small : index < 4) :
      index < (lengthPrefixed resp body).2 := by
    change index < body.length % 4294967296 + 4
    omega
  unfold decodedLength FramedMessage.ofPair
  rw [OutBuf.sent_getD _ _ 0 (inside 0 (by omega)), OutBuf.sent_getD _ _ 1 (inside 1 (by omega)),
    OutBuf.sent_getD _ _ 2 (inside 2 (by omega)), OutBuf.sent_getD _ _ 3 (inside 3 (by omega))]
  simp [lengthPrefixed, OutBuf.store, bigEndian]

private theorem lengthPrefixed_agrees_iff (resp : OutBuf) (body : CText) :
    decodedLength (FramedMessage.ofPair (lengthPrefixed resp body)) + 4 =
        (FramedMessage.ofPair (lengthPrefixed resp body)).length ↔
      body.length % 256 < 128 ∧ body.length / 256 % 256 < 128 ∧
        body.length / 65536 % 256 < 128 := by
  have bound : body.length % 4294967296 < 4294967296 := Nat.mod_lt _ (by decide)
  have sent : (FramedMessage.ofPair (lengthPrefixed resp body)).length =
      body.length % 4294967296 + 4 := OutBuf.sent_length _ _
  have decoded := decodedLength_bigEndian_iff (body.length % 4294967296) [] bound
  rw [List.append_nil] at decoded
  rw [decodedLength_lengthPrefixed, sent, Nat.add_right_cancel_iff, decoded]
  omega

private theorem gStubInventory_length : gStubInventory.length = 1022 := by
  decide +kernel

private theorem inventory_disagrees (prior : OutBuf) : ¬ FramedMessage.inventory.Agrees prior := by
  intro agrees
  have low := ((lengthPrefixed_agrees_iff prior gStubInventory).mp agrees).1
  rw [gStubInventory_length] at low
  omega

/-! ### All messages -/

/-- The messages whose prefix is read back as the number of bytes behind it. -/
def FramedMessage.ShortBytes : FramedMessage → Prop
  | .status body =>
      body.length % 256 < 128 ∧ body.length / 256 % 256 < 128 ∧
        body.length / 65536 % 256 < 128
  | _ => False

theorem framedMessage_agrees_iff (prior : OutBuf) (message : FramedMessage) :
    message.Agrees prior ↔ message.ShortBytes := by
  cases message with
  | checkNewPkg info uuid =>
      exact iff_of_false (checkNewPkg_disagrees prior info uuid) id
  | startUpgrade info uuid =>
      exact iff_of_false (startUpgrade_disagrees prior info uuid) id
  | upgradeStat stat uuid =>
      exact iff_of_false (upgradeStat_disagrees prior stat uuid) id
  | status body => exact lengthPrefixed_agrees_iff prior body
  | inventory => exact iff_of_false (inventory_disagrees prior) id

/-- The first answer of a fresh program to START_UPGRADE. -/
theorem startUpgrade_frame_misread :
    ¬ ∀ (prior : OutBuf) (message : FramedMessage), message.Agrees prior := by
  intro always
  exact startUpgrade_disagrees _ _ _
    (always ⟨fun _ => 0, 0⟩ (.startUpgrade initHmiPkgInfo progressUuid))

end DlcServer
