/-
The messages the program builds for its peers.

The builders write through a pointer into a buffer that other messages were
built in before.  The model keeps the whole of that memory: what was there, what
is stored, the highest index stored to and the length of the longest string
formatted into the scratch buffer on the way.
-/

import DlcServer.Records
import DlcServer.Library.LengthPrefix

namespace DlcServer

open Library

/-! ### Writing into a buffer -/

/-- Memory behind a `char *`, and one past the highest index stored to. -/
structure OutBuf where
  mem : Nat → UInt8
  top : Nat

namespace OutBuf

def store (buf : OutBuf) (index : Nat) (byte : UInt8) : OutBuf :=
  { mem := fun i => if i = index then byte else buf.mem i
    top := max buf.top (index + 1) }

/-- `strcpy(msg + index, source)`: the string and its terminator. -/
def strcpy (buf : OutBuf) (index : Nat) (source : CText) : OutBuf :=
  { mem := fun i =>
      if i < index then buf.mem i
      else if i ≤ index + source.length then source.getD (i - index) 0
      else buf.mem i
    top := max buf.top (index + source.length + 1) }

/-- The bytes `mg_send(nc, msg, length)` takes. -/
def sent (buf : OutBuf) (length : Nat) : List UInt8 :=
  (List.range length).map buf.mem

@[simp] theorem sent_length (buf : OutBuf) (length : Nat) :
    (buf.sent length).length = length := by
  simp [sent]

@[simp] theorem sent_getD (buf : OutBuf) (length index : Nat) (inside : index < length) :
    (buf.sent length).getD index 0 = buf.mem index := by
  simp [sent, inside]

end OutBuf

/-- A builder on its way: the message, its running index `pc` and the longest
string, terminator included, formatted into the scratch array. -/
structure Writer where
  msg : OutBuf
  pc : Nat
  scratch : Nat

namespace Writer

/-- `msg[pc] = c; pc += 1;` -/
def putc (writer : Writer) (byte : UInt8) : Writer :=
  { writer with msg := writer.msg.store writer.pc byte, pc := writer.pc + 1 }

/-- `strcpy(msg + pc, s); pc += strlen(s);` -/
def puts (writer : Writer) (source : CText) : Writer :=
  { writer with
    msg := writer.msg.strcpy writer.pc source
    pc := writer.pc + source.length }

/-- `sprintf(buf, ...)` followed by the copy of `buf`. -/
def printf (writer : Writer) (formatted : CText) : Writer :=
  let copied := writer.puts formatted
  { copied with scratch := max copied.scratch (formatted.length + 1) }

/-- The end of the HMI builders: `msg[++pc] = 0`, then the four length bytes,
each cut to a `char`. -/
def finish (writer : Writer) : Writer :=
  let pc := writer.pc + 1
  { writer with
    pc := pc
    msg := ((((writer.msg.store pc 0).store 0 (UInt8.ofNat (pc <<< 24 % 4294967296))).store
      1 (UInt8.ofNat (pc <<< 16 % 4294967296))).store
      2 (UInt8.ofNat (pc <<< 8 % 4294967296))).store 3 (UInt8.ofNat pc) }

end Writer

/-! ### Messages to the HMI -/

def openBrace : UInt8 := 123
def closeBrace : UInt8 := 125
def closeBracket : UInt8 := 93
def comma : UInt8 := 44

/-- `sprintf(buf, "\"label\":\"%s\"", value)`. -/
def member (label : String) (value : CText) : CText :=
  text "\"" ++ text label ++ text "\":\"" ++ value ++ text "\""

def memberComma (label : String) (value : CText) : CText :=
  member label value ++ text ","

def hmiRespCheckNewPkg (info : BsPkgInfo) (msg : OutBuf) (uuid : CText) : Writer :=
  (((((((((((Writer.mk msg 4 0).putc openBrace).puts
    (text "\"func-id\":1,\"category\":2,\"response\":\x7b")).printf
    (memberComma "door_module" info.doorModule)).printf
    (memberComma "dev_id" info.devId)).printf
    (memberComma "soft_id" info.softId)).printf
    (member "release_notes" info.releaseNotes)).putc
    closeBrace).putc comma).printf
    (member "uuid" uuid)).putc
    closeBrace).finish

def hmiRespStartUpgrade (info : BsPkgInfo) (msg : OutBuf) (uuid : CText) : Writer :=
  (((((((((Writer.mk msg 4 0).putc openBrace).puts
    (text "\"func-id\":2,\"category\":2,\"response\":\x7b")).printf
    (memberComma "dev_id" info.devId)).printf
    (member "soft_id" info.softId)).putc
    closeBrace).putc comma).printf
    (member "uuid" uuid)).putc
    closeBrace).finish

/-- `(int)` of a stored progress.  Where that is no `int` the cast is undefined, and
the low 32 bits stand for whatever it gives. -/
def intOfFloat (value : Int) : Int :=
  Int.bmod value 4294967296

theorem intOfFloat_eq {value : Int} (above : -2147483648 ≤ value) (below : value < 2147483648) :
    intOfFloat value = value :=
  Int.bmod_eq_of_le above below

def hmiRespUpgradeStat (stat : BsEcuUpgradeStat) (msg : OutBuf) (uuid : CText) : Writer :=
  (((((((((((((((((Writer.mk msg 4 0).putc openBrace).puts
    (text "\"func-id\":3,\"category\":2,\"id\":\"xxx\",\"version\":\"1.0.0\"," ++
      text "\"response\":[")).putc openBrace).printf
    (memberComma "dev_id" stat.devId)).printf
    (memberComma "soft_id" stat.softId)).printf
    (memberComma "esti_time" stat.estiTime)).printf
    (memberComma "start_time" stat.startTime)).printf
    (memberComma "time_stamp" stat.timeStamp)).printf
    (memberComma "door_module" stat.doorModule)).printf
    (memberComma "status" stat.status)).printf
    (text "\"progress_percent\":" ++ text (toString (intOfFloat stat.progressPercent)))).putc
    closeBrace).putc closeBracket).putc comma).printf
    (member "uuid" uuid)).putc
    closeBrace).finish

def progressUuid : CText :=
  text "7950f8e2-6cd4-11ea-a9a9-571f576d565b"

/-! ### Messages to the DMC -/

/-- `strcpy(resp + 4, body)` and the four length bytes of its `strlen`, which is
an `unsigned int`; the second component is what `mg_send` is told to send. -/
def lengthPrefixed (resp : OutBuf) (body : CText) : OutBuf × Nat :=
  let len := body.length % 4294967296
  (((((resp.strcpy 4 body).store 0 (UInt8.ofNat (len / 16777216))).store
      1 (UInt8.ofNat (len / 65536))).store
      2 (UInt8.ofNat (len / 256))).store 3 (UInt8.ofNat len), len + 4)

/-- `cgw_monitor_handle_status`, for the C string that starts at `hm->body.p`. -/
def cgwMonitorHandleStatus (resp : OutBuf) (body : CText) : OutBuf × Nat :=
  lengthPrefixed resp body

-- kept in pieces, each short enough to be evaluated on its own
def gStubInventory : CText :=
  ["\x7b\"messageType\":\"xxxxxxx\",\"correlationId\":\"xxxxxxx\",",
    "\"payload\":\x7b\"fotaProtocolVersion\":\"HHFOTA-0.1\",",
    "\"vehicleVersion\":\x7b\"orchestrator\":\"0.1.0.0\",\"dlc\":\"0.1.0.0\"\x7d,",
    "\"inventory\":[\x7b\"ecu\":\"WPC\",\"softwareList\":[\x7b\"softwareId\":\"WPC\",",
    "\"version\":\"WPC_App_V1.0\",\"lastUpdated\":\"19000101 000000\",",
    "\"servicePack\":\"unknown\",\"campaign\":\"unknown\"\x7d]\x7d,",
    "\x7b\"ecu\":\"Test_VDCM1\",\"softwareList\":[\x7b\"softwareId\":\"Test_VDCM1\",",
    "\"version\":\"VDCM1_App_V1.0\",\"lastUpdated\":\"19000101 000000\",",
    "\"servicePack\":\"vdcm_pack\",\"campaign\":\"vdcm_camp\"\x7d]\x7d,",
    "\x7b\"ecu\":\"Test_VDCM2\",\"softwareList\":[\x7b\"softwareId\":\"Test_VDCM2\",",
    "\"version\":\"VDCM2_App_V1.0\",\"lastUpdated\":\"19000101 000000\",",
    "\"servicePack\":\"vdcm_pack\",\"campaign\":\"vdcm_camp\"\x7d]\x7d,",
    "\x7b\"ecu\":\"Test_VDCM3\",\"softwareList\":[\x7b\"softwareId\":\"Test_VDCM3\",",
    "\"version\":\"VDCM3_App_V1.0\",\"lastUpdated\":\"19000101 000000\",",
    "\"servicePack\":\"vdcm_pack\",\"campaign\":\"vdcm_camp\"\x7d]\x7d,",
    "\x7b\"ecu\":\"Test_VDCM4\",\"softwareList\":[\x7b\"softwareId\":\"Test_VDCM4\",",
    "\"version\":\"VDCM4_App_V1.0\",\"lastUpdated\":\"19000101 000000\",",
    "\"servicePack\":\"vdcm_pack\",\"campaign\":\"vdcm_camp\"\x7d]\x7d]\x7d\x7d"].flatMap text

def dmcRespInventory (resp : OutBuf) : OutBuf × Nat :=
  lengthPrefixed resp gStubInventory

end DlcServer
