/-
What `parse_wrq` and `parse_rrq` come to.

Both look for two strings behind the opcode and take the first for the name of a
file; what is behind the second matters to a write request only.
-/

import DlcServer.TftpServer

namespace DlcServer

open Library

namespace Tftp

variable {Address : Type}

/-! ### The strings of a request -/

/-- The file name and what is behind the mode, in a buffer with a request. -/
def requestIn (buffer : List UInt8) : Option (CText × List UInt8) :=
  match cString (buffer.drop 2) with
  | none => none
  | some (filename, afterName) => (cString afterName).map (fun found => (filename, found.2))

/-- Whether the option is seen behind the mode; `none` when the comparison leaves the
buffer. -/
def optionIn (tftp : Members Address) (ptr : List UInt8) : Option Bool :=
  if tftp.buffer.length - ptr.length < tftp.dataSize then strcmp ptr (text "blksize")
  else some false

theorem requestIn_eq_some {buffer ptr : List UInt8} {filename : CText}
    (found : requestIn buffer = some (filename, ptr)) :
    ∃ afterName mode, cString (buffer.drop 2) = some (filename, afterName) ∧
      cString afterName = some (mode, ptr) := by
  unfold requestIn at found
  cases named : cString (buffer.drop 2) with
  | none => simp [named] at found
  | some first =>
      rcases first with ⟨name, afterName⟩
      simp only [named] at found
      cases moded : cString afterName with
      | none => simp [moded] at found
      | some second =>
          rcases second with ⟨mode, behind⟩
          simp only [moded, Option.map_some, Option.some.injEq, Prod.mk.injEq] at found
          rcases found with ⟨rfl, rfl⟩
          exact ⟨afterName, mode, rfl, moded⟩

theorem requestIn_of_strings {buffer afterName ptr : List UInt8} {filename mode : CText}
    (named : cString (buffer.drop 2) = some (filename, afterName))
    (moded : cString afterName = some (mode, ptr)) :
    requestIn buffer = some (filename, ptr) := by
  simp only [requestIn, named, moded, Option.map_some]

/-! ### Write requests -/

/-- The members when `on_write` has opened the file. -/
def Members.created (tftp : Members Address) (filename : CText) : Members Address :=
  { tftp with
    files := Function.update tftp.files filename (some [])
    filefd := some filename }

inductive WrqCase (tftp : Members Address) : Bool → Parsed Address → Prop
  | missing {opens : Bool} (missing : requestIn tftp.buffer = none) : WrqCase tftp opens .fault
  | refused {filename : CText} {ptr : List UInt8}
      (found : requestIn tftp.buffer = some (filename, ptr)) :
      WrqCase tftp false
        (.refused (tftp.sendError errAccessViolation (text "cannot open file")))
  | leaves {filename : CText} {ptr : List UInt8}
      (found : requestIn tftp.buffer = some (filename, ptr))
      (leaves : optionIn tftp ptr = none) : WrqCase tftp true .fault
  | accepted {filename : CText} {ptr : List UInt8} {asked : Bool}
      (found : requestIn tftp.buffer = some (filename, ptr))
      (seen : optionIn tftp ptr = some asked) :
      WrqCase tftp true
        (.accepted ((tftp.created filename).sendto (if asked then blksizePacket else ackPacket 0)))

/-- `parse_wrq` by the strings it finds. -/
theorem parseWrq_eq (tftp : Members Address) (opens : Bool) :
    parseWrq tftp opens =
      match requestIn tftp.buffer with
      | none => .fault
      | some (filename, ptr) =>
          if opens then
            match optionIn tftp ptr with
            | none => .fault
            | some asked =>
                .accepted
                  ((tftp.created filename).sendto (if asked then blksizePacket else ackPacket 0))
          else .refused (tftp.sendError errAccessViolation (text "cannot open file")) := by
  unfold parseWrq requestIn
  cases named : cString (tftp.buffer.drop 2) with
  | none => rfl
  | some first =>
      rcases first with ⟨filename, afterName⟩
      dsimp only
      cases moded : cString afterName with
      | none => rfl
      | some second =>
          cases opens with
          | false => rfl
          | true =>
              simp only [Members.onWrite, if_true, Option.map_some, optionIn]
              by_cases options : tftp.buffer.length - second.2.length < tftp.dataSize
              · rw [if_pos options, if_pos options]
                cases strcmp second.2 (text "blksize") with
                | none => rfl
                | some asked =>
                    cases asked with
                    | false => rfl
                    | true => rfl
              · rw [if_neg options, if_neg options]
                rfl

theorem parseWrq_cases (tftp : Members Address) (opens : Bool) :
    WrqCase tftp opens (parseWrq tftp opens) := by
  rw [parseWrq_eq]
  cases found : requestIn tftp.buffer with
  | none => exact .missing found
  | some request =>
      rcases request with ⟨filename, ptr⟩
      cases opens with
      | false => exact .refused found
      | true =>
          dsimp only
          rw [if_pos rfl]
          cases seen : optionIn tftp ptr with
          | none => exact .leaves found seen
          | some asked => exact .accepted found seen

/-! ### Read requests -/

theorem onRead_eq_some {tftp opened : Members Address} {filename : CText} {opens : Bool} :
    tftp.onRead filename opens = some opened ↔
      ∃ content, tftp.files filename = some content ∧ opens = true ∧
        opened = { tftp with filefdR := content } := by
  unfold Members.onRead
  cases stored : tftp.files filename with
  | none => simp
  | some content =>
      cases opens with
      | false => simp
      | true => simp [eq_comm]

inductive RrqCase (tftp : Members Address) (opens : Bool) : Parsed Address → Prop
  | missing (missing : requestIn tftp.buffer = none) : RrqCase tftp opens .fault
  | refused {filename : CText} {ptr : List UInt8}
      (found : requestIn tftp.buffer = some (filename, ptr))
      (closed : tftp.onRead filename opens = none) :
      RrqCase tftp opens (.refused (tftp.sendError errFileNotFound (text "cannot open file")))
  | accepted {filename : CText} {ptr : List UInt8} {opened : Members Address}
      (found : requestIn tftp.buffer = some (filename, ptr))
      (read : tftp.onRead filename opens = some opened) : RrqCase tftp opens (.accepted opened)

/-- `parse_rrq` by the strings it finds. -/
theorem parseRrq_eq (tftp : Members Address) (opens : Bool) :
    parseRrq tftp opens =
      match requestIn tftp.buffer with
      | none => .fault
      | some (filename, _) =>
          match tftp.onRead filename opens with
          | none => .refused (tftp.sendError errFileNotFound (text "cannot open file"))
          | some opened => .accepted opened := by
  unfold parseRrq requestIn
  cases named : cString (tftp.buffer.drop 2) with
  | none => rfl
  | some first =>
      rcases first with ⟨filename, afterName⟩
      dsimp only
      cases moded : cString afterName with
      | none => rfl
      | some second => rfl

theorem parseRrq_cases (tftp : Members Address) (opens : Bool) :
    RrqCase tftp opens (parseRrq tftp opens) := by
  rw [parseRrq_eq]
  cases found : requestIn tftp.buffer with
  | none => exact .missing found
  | some request =>
      rcases request with ⟨filename, ptr⟩
      dsimp only
      cases read : tftp.onRead filename opens with
      | none => exact .refused found read
      | some opened => exact .accepted found read

end Tftp

end DlcServer
