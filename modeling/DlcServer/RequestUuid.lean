/-
Whose uuid does an answer to the HMI carry?

The parser keeps the uuid of a request in a static array that it never clears,
and builds its answers in a static buffer.  Both outlive the request, so that
an answer may show the uuid of an earlier one, and ends with a byte of one.
-/

import DlcServer.BuilderMemory

namespace DlcServer

open Library

/-! ### One request after the other -/

/-- `uuid` and `response` of `hmi_payload_parser`. -/
structure Statics where
  uuid : CText
  response : OutBuf

def Statics.init : Statics :=
  { uuid := [], response := { mem := fun _ => 0, top := 0 } }

/-- A request, with the context and the `g_stat` it finds. -/
structure Visit where
  root : Option CJson
  gCtx : BsContext
  gStat : Stat

/-- What the parser works on. -/
def Statics.enter (statics : Statics) (gCtx : BsContext) (gStat : Stat) : Shared :=
  { Shared.init with
    gStat := gStat
    gCtx := gCtx
    uuid := statics.uuid
    hmiResponse := statics.response }

def Event.toHmi : Event → Option (List UInt8)
  | .sent .hmi bytes => some bytes
  | _ => none

/-- The messages of a request; START_UPGRADE sends its own once it has been
through `core_state_handler`. -/
def HmiOutcome.messages : HmiOutcome → List (List UInt8)
  | (after, some respLen) => [after.hmiResponse.sent respLen]
  | (after, none) => after.past.filterMap Event.toHmi

/-- `hmi_payload_parser` with all that it sends. -/
def Statics.call (statics : Statics) (visit : Visit) :
    Except Fault (Statics × List (List UInt8)) :=
  (hmiPayloadParser (statics.enter visit.gCtx visit.gStat) visit.root).map fun outcome =>
    (⟨outcome.1.uuid, outcome.1.hmiResponse⟩, HmiOutcome.messages outcome)

/-- The requests of a run, each in whatever context it finds. -/
def requests : Machine Statics Visit where
  initial := .init
  step statics visit := (statics.call visit).toOption.map Prod.fst

/-! ### The answer a request calls for -/

def respOf (gCtx : BsContext) (code : Option Int) : Option HmiResp :=
  if code = some startUpgrade then some (.startUpgrade gCtx.hmiPkgInfo)
  else if code = some upgradeProgress then some (.upgradeStat gCtx.hmiUpgradeStat)
  else if code = some checkNewPackage then some (.checkNewPkg gCtx.hmiPkgInfo)
  else none

namespace HmiResp

/-- The answer is to show the uuid of the request. -/
def Identified : HmiResp → Prop
  | upgradeStat _ => False
  | _ => True

def identity : HmiResp → CText → CText
  | upgradeStat _, _ => progressUuid
  | _, uuid => uuid

/-- The scratch array of the builder. -/
def room : HmiResp → Nat
  | checkNewPkg _ => 512
  | _ => 128

/-- What becomes of an answer that is built: START_UPGRADE has to find the
package ready, the others are sent through a pointer that may be NULL. -/
def handOver (shared : Shared) (respLen : Nat) : HmiResp → Except Fault HmiOutcome
  | startUpgrade _ =>
      .ok (shared, if shared.gStat = .orchPkgReady then some respLen else none)
  | _ =>
      match shared.gCtx.hmi with
      | none => .error .nullPointer
      | some _ => .ok (shared.log (.sent .hmi (shared.hmiResponse.sent respLen)), none)

end HmiResp

private theorem hmiAnswerNow_handOver (shared : Shared) (written : Writer) (scratch : Nat)
    {resp : HmiResp} (now : ∀ info, resp ≠ .startUpgrade info) :
    hmiAnswerNow shared written scratch =
      match written.fit 1024 scratch with
      | .error fault => .error fault
      | .ok built => resp.handOver { shared with hmiResponse := built.1 } built.2 := by
  unfold hmiAnswerNow hmiAnswer
  cases written.fit 1024 scratch with
  | error fault => rfl
  | ok built =>
      cases resp with
      | startUpgrade info => exact absurd rfl (now info)
      | checkNewPkg info =>
          cases there : shared.gCtx.hmi with
          | none => simp [HmiResp.handOver, mgSend, there, bind, Except.bind, pure, Except.pure]
          | some nc => simp [HmiResp.handOver, mgSend, there, bind, Except.bind, pure, Except.pure]
      | upgradeStat stat =>
          cases there : shared.gCtx.hmi with
          | none => simp [HmiResp.handOver, mgSend, there, bind, Except.bind, pure, Except.pure]
          | some nc => simp [HmiResp.handOver, mgSend, there, bind, Except.bind, pure, Except.pure]

/-- A request whose members are walked over gets the answer of its code. -/
theorem hmiPayloadParser_eq {shared : Shared} {root : CJson} {uuid : CText} {code : Option Int}
    (scans : hmiScan root.child shared.uuid 0 = .ok (uuid, code)) :
    hmiPayloadParser shared (some root) =
      match respOf shared.gCtx code with
      | none => .ok ({ shared with uuid := uuid }, none)
      | some resp =>
          match (resp.build shared.hmiResponse (resp.identity uuid)).fit 1024 resp.room with
          | .error fault => .error fault
          | .ok built =>
              resp.handOver { shared with uuid := uuid, hmiResponse := built.1 } built.2 := by
  unfold hmiPayloadParser
  simp only [scans, bind, Except.bind, respOf]
  by_cases start : code = some startUpgrade
  · simp only [if_pos start, HmiResp.build, HmiResp.identity, HmiResp.room, HmiResp.handOver]
    generalize hmiRespStartUpgrade _ _ _ = written
    unfold hmiAnswer
    cases written.fit 1024 128 with
    | error fault => rfl
    | ok built => rfl
  · simp only [if_neg start]
    by_cases progress : code = some upgradeProgress
    · simp only [if_pos progress, HmiResp.build, HmiResp.identity, HmiResp.room]
      generalize hmiRespUpgradeStat _ _ _ = written
      exact hmiAnswerNow_handOver _ _ _ (fun info => HmiResp.noConfusion)
    · simp only [if_neg progress]
      by_cases check : code = some checkNewPackage
      · simp only [if_pos check, HmiResp.build, HmiResp.identity, HmiResp.room]
        generalize hmiRespCheckNewPkg _ _ _ = written
        exact hmiAnswerNow_handOver _ _ _ (fun info => HmiResp.noConfusion)
      · simp only [if_neg check]
        rfl

/-! ### The messages of a request -/

/-- Whether an answer that is built goes out; not at all through a NULL pointer. -/
def HmiResp.sends (gCtx : BsContext) (gStat : Stat) : HmiResp → Option Bool
  | startUpgrade _ => some (decide (gStat = .orchPkgReady))
  | _ => if gCtx.hmi = none then none else some true

/-- Neither array of the builder is left. -/
def HmiResp.Fits (resp : HmiResp) (prior : OutBuf) (uuid : CText) : Prop :=
  (resp.build prior uuid).msg.top ≤ 1024 ∧ (resp.build prior uuid).scratch ≤ resp.room

section Called

variable {statics : Statics} {root : CJson} {gCtx : BsContext} {gStat : Stat}
  {uuid : CText} {code : Option Int}

private theorem call_silent (scans : hmiScan root.child statics.uuid 0 = .ok (uuid, code))
    (silent : respOf gCtx code = none) :
    statics.call ⟨some root, gCtx, gStat⟩ = .ok (⟨uuid, statics.response⟩, []) := by
  have entered : hmiScan root.child (statics.enter gCtx gStat).uuid 0 = .ok (uuid, code) := scans
  have none_ : respOf (statics.enter gCtx gStat).gCtx code = none := silent
  unfold Statics.call
  rw [hmiPayloadParser_eq entered, none_]
  rfl

private theorem call_overrun {resp : HmiResp}
    (scans : hmiScan root.child statics.uuid 0 = .ok (uuid, code))
    (found : respOf gCtx code = some resp)
    (overrun : ¬resp.Fits statics.response (resp.identity uuid)) :
    statics.call ⟨some root, gCtx, gStat⟩ = .error .overrun := by
  have entered : hmiScan root.child (statics.enter gCtx gStat).uuid 0 = .ok (uuid, code) := scans
  have some_ : respOf (statics.enter gCtx gStat).gCtx code = some resp := found
  have response : (statics.enter gCtx gStat).hmiResponse = statics.response := rfl
  have left : (resp.build statics.response (resp.identity uuid)).fit 1024 resp.room =
      .error .overrun := if_neg overrun
  unfold Statics.call
  rw [hmiPayloadParser_eq entered, some_, response]
  simp only [left]
  rfl

private theorem call_built {resp : HmiResp}
    (scans : hmiScan root.child statics.uuid 0 = .ok (uuid, code))
    (found : respOf gCtx code = some resp)
    (fits : resp.Fits statics.response (resp.identity uuid)) :
    statics.call ⟨some root, gCtx, gStat⟩ =
      match resp.sends gCtx gStat with
      | none => .error .nullPointer
      | some sends =>
          .ok (⟨uuid, (resp.build statics.response (resp.identity uuid)).msg⟩,
            if sends then [resp.sent statics.response (resp.identity uuid)] else []) := by
  have entered : hmiScan root.child (statics.enter gCtx gStat).uuid 0 = .ok (uuid, code) := scans
  have some_ : respOf (statics.enter gCtx gStat).gCtx code = some resp := found
  have response : (statics.enter gCtx gStat).hmiResponse = statics.response := rfl
  have inside : (resp.build statics.response (resp.identity uuid)).fit 1024 resp.room =
      .ok ((resp.build statics.response (resp.identity uuid)).msg,
        (resp.build statics.response (resp.identity uuid)).pc) := if_pos fits
  unfold Statics.call HmiResp.sent
  rw [hmiPayloadParser_eq entered, some_, response]
  simp only [inside]
  generalize resp.build statics.response (resp.identity uuid) = written
  cases resp with
  | startUpgrade info =>
      by_cases ready : gStat = .orchPkgReady
      · simp [HmiResp.handOver, HmiResp.sends, ready, Except.map, HmiOutcome.messages,
          Statics.enter, Shared.init]
      · simp [HmiResp.handOver, HmiResp.sends, ready, Except.map, HmiOutcome.messages,
          Statics.enter, Shared.init]
  | checkNewPkg info =>
      cases there : gCtx.hmi with
      | none => simp [HmiResp.handOver, HmiResp.sends, there, Except.map, Statics.enter]
      | some nc =>
          simp [HmiResp.handOver, HmiResp.sends, there, Except.map, HmiOutcome.messages,
            Event.toHmi, Statics.enter, Shared.init]
  | upgradeStat stat =>
      cases there : gCtx.hmi with
      | none => simp [HmiResp.handOver, HmiResp.sends, there, Except.map, Statics.enter]
      | some nc =>
          simp [HmiResp.handOver, HmiResp.sends, there, Except.map, HmiOutcome.messages,
            Event.toHmi, Statics.enter, Shared.init]

end Called

def Shared.statics (shared : Shared) : Statics :=
  { uuid := shared.uuid, response := shared.hmiResponse }

private theorem handOver_statics {shared : Shared} {respLen : Nat} {resp : HmiResp}
    {outcome : HmiOutcome} (handed : resp.handOver shared respLen = .ok outcome) :
    outcome.1.statics = shared.statics ∧ resp.sends shared.gCtx shared.gStat ≠ none := by
  cases resp with
  | startUpgrade info =>
      cases handed
      exact ⟨rfl, Option.some_ne_none _⟩
  | checkNewPkg info =>
      cases there : shared.gCtx.hmi with
      | none =>
          simp only [HmiResp.handOver, there] at handed
          contradiction
      | some nc =>
          simp only [HmiResp.handOver, there, Except.ok.injEq] at handed
          subst handed
          simp [HmiResp.sends, there, Shared.statics]
  | upgradeStat stat =>
      cases there : shared.gCtx.hmi with
      | none =>
          simp only [HmiResp.handOver, there] at handed
          contradiction
      | some nc =>
          simp only [HmiResp.handOver, there, Except.ok.injEq] at handed
          subst handed
          simp [HmiResp.sends, there, Shared.statics]

/-- A request that a thread of the program handles is such a call. -/
theorem call_of_hmiPayloadParser {shared after : Shared} {root : Option CJson}
    {started : Option Nat} (parsed : hmiPayloadParser shared root = .ok (after, started)) :
    requests.step shared.statics ⟨root, shared.gCtx, shared.gStat⟩ = some after.statics := by
  change (shared.statics.call _).toOption.map Prod.fst = _
  cases root with
  | none =>
      cases parsed
      rfl
  | some root =>
      cases scans : hmiScan root.child shared.uuid 0 with
      | error fault =>
          simp only [hmiPayloadParser, scans, bind, Except.bind] at parsed
          contradiction
      | ok scanned =>
          rcases scanned with ⟨uuid, code⟩
          have entered : hmiScan root.child shared.statics.uuid 0 = .ok (uuid, code) := scans
          rw [hmiPayloadParser_eq scans] at parsed
          cases found : respOf shared.gCtx code with
          | none =>
              rw [found] at parsed
              cases parsed
              rw [call_silent entered found]
              rfl
          | some resp =>
              simp only [found] at parsed
              by_cases fits : resp.Fits shared.statics.response (resp.identity uuid)
              · have inside : (resp.build shared.hmiResponse (resp.identity uuid)).fit 1024
                    resp.room = .ok _ := if_pos fits
                simp only [inside] at parsed
                have handed := handOver_statics parsed
                rw [call_built entered found fits]
                cases sends : resp.sends shared.gCtx shared.gStat with
                | none => exact absurd sends handed.2
                | some sent => exact congrArg some handed.1.symm
              · have left : (resp.build shared.hmiResponse (resp.identity uuid)).fit 1024
                    resp.room = .error .overrun := if_neg fits
                simp only [left] at parsed
                contradiction

/-! ### The uuid a request gives -/

/-- The uuid of the request itself, the last one if there are several. -/
def ownUuid : List CJson → Option CText
  | [] => none
  | iterator :: next =>
      if iterator.string = some (text "func-id") ∧ iterator.isNumber = false then none
      else if iterator.string = some (text "uuid") then (ownUuid next).or iterator.valuestring
      else ownUuid next

private theorem hmiScan_own {items : List CJson} {uuid after : CText} {code : Int} {found : Option Int}
    (done : hmiScan items uuid code = .ok (after, found)) (other : CText) :
    hmiScan items other code = .ok ((ownUuid items).getD other, found) := by
  induction items generalizing uuid code other with
  | nil =>
      cases done
      rfl
  | cons iterator next ih =>
      unfold hmiScan at done ⊢
      unfold ownUuid
      cases named : iterator.string with
      | none =>
          simp only [named] at done
          contradiction
      | some name =>
          simp only [named, Option.some.injEq] at done ⊢
          by_cases leaves : name = text "func-id" ∧ iterator.isNumber = false
          · rw [if_pos leaves] at done ⊢
            cases done
            rw [if_pos leaves]
            rfl
          · rw [if_neg leaves] at done ⊢
            rw [if_neg leaves]
            by_cases isUuid : name = text "uuid"
            · rw [if_pos isUuid] at done ⊢
              rw [if_pos isUuid]
              cases copied : strcpyInto uuidCapacity iterator.valuestring with
              | error fault =>
                  simp only [copied] at done
                  contradiction
              | ok value =>
                  simp only [copied] at done ⊢
                  rw [ih done value, (strcpyInto_eq_ok copied).1]
                  cases ownUuid next with
                  | none => rfl
                  | some own => rfl
            · rw [if_neg isUuid] at done ⊢
              rw [if_neg isUuid]
              exact ih done other

private theorem hmiScan_after {items : List CJson} {uuid after : CText} {code : Int}
    {found : Option Int} (done : hmiScan items uuid code = .ok (after, found)) :
    after = (ownUuid items).getD uuid :=
  congrArg Prod.fst (Except.ok.inj (done.symm.trans (hmiScan_own done uuid)))

/-! ### Room for the first answer -/

/-- An answer that fits its arrays would also have fitted them as the first one,
with this uuid or a shorter one. -/
theorem HmiResp.Fits.first {resp : HmiResp} {prior : OutBuf} {short long : CText}
    (fits : resp.Fits prior long) (shorter : short.length ≤ long.length) :
    resp.Fits Statics.init.response short := by
  constructor
  · have top := (resp.build_finished prior long).top
    have first := (resp.build_finished Statics.init.response short).top
    have empty : Statics.init.response.top = 0 := rfl
    have inside := fits.1
    rw [resp.build_pc, resp.gap_eq] at top first
    omega
  · exact Nat.le_trans (resp.scratch_le _ prior shorter) fits.2

/-! ### The law -/

/-- The uuid the request gives itself. -/
def Visit.ownUuid (visit : Visit) : Option CText :=
  match visit.root with
  | none => none
  | some root => DlcServer.ownUuid root.child

/-- The answer that goes out, and the uuid it should show. -/
def Visit.answer (visit : Visit) : Option (HmiResp × CText) :=
  match visit.root with
  | none => none
  | some root =>
      match hmiScan root.child [] 0 with
      | .error _ => none
      | .ok (uuid, code) =>
          match respOf visit.gCtx code with
          | none => none
          | some resp =>
              if resp.sends visit.gCtx visit.gStat = some true then
                some (resp, resp.identity uuid)
              else none

/-- The messages are those the request would get as the first of all, and each
shows the uuid of the request itself. -/
structure OwnAnswer (statics : Statics) (visit : Visit) : Prop where
  asFirst : (statics.call visit).map Prod.snd = (Statics.init.call visit).map Prod.snd
  shows : ∀ next messages, statics.call visit = .ok (next, messages) →
    ∀ message ∈ messages, ∃ resp uuid, visit.answer = some (resp, uuid) ∧
      messageText message = Json.splice (resp.object uuid)

/-- Nothing that is left of earlier requests gets into the answer. -/
def Unmixed (statics : Statics) (visit : Visit) : Prop :=
  ∀ resp uuid, visit.answer = some (resp, uuid) →
    (resp.Identified → visit.ownUuid ≠ none ∨ statics.uuid = []) ∧
      statics.response.mem (resp.gap uuid) = 0

private theorem identity_eq_iff (resp : HmiResp) (own : Option CText) (kept : CText) :
    resp.identity (own.getD kept) = resp.identity (own.getD []) ↔
      (resp.Identified → own ≠ none ∨ kept = []) := by
  cases own with
  | none =>
      cases resp with
      | checkNewPkg info => simp [HmiResp.identity, HmiResp.Identified]
      | startUpgrade info => simp [HmiResp.identity, HmiResp.Identified]
      | upgradeStat stat => simp [HmiResp.identity, HmiResp.Identified]
  | some own => simp

private theorem identity_shorter (resp : HmiResp) (own : Option CText) (kept : CText) :
    (resp.identity (own.getD [])).length ≤ (resp.identity (own.getD kept)).length := by
  cases resp with
  | checkNewPkg info =>
      cases own with
      | none => exact Nat.zero_le _
      | some own => exact Nat.le_refl _
  | startUpgrade info =>
      cases own with
      | none => exact Nat.zero_le _
      | some own => exact Nat.le_refl _
  | upgradeStat stat => exact Nat.le_refl _

private theorem sent_eq_first_iff (resp : HmiResp) (prior : OutBuf) (kept own : CText) :
    resp.sent prior kept = resp.sent Statics.init.response own ↔
      kept = own ∧ prior.mem (resp.gap own) = 0 := by
  constructor
  · intro same
    have texts := congrArg messageText same
    rw [resp.messageText_sent, resp.messageText_sent] at texts
    have uuids := resp.splice_object_injective texts
    rw [uuids, resp.sent_eq_iff] at same
    exact ⟨uuids, same⟩
  · intro ⟨uuids, gap⟩
    rw [uuids, resp.sent_eq_iff]
    exact gap

section Calls

variable {statics next first : Statics} {visit : Visit}

private theorem ownAnswer_silent (called : statics.call visit = .ok (next, []))
    (fresh : Statics.init.call visit = .ok (first, [])) : OwnAnswer statics visit where
  asFirst := by
    rw [called, fresh]
    rfl
  shows := by
    intro after messages same message member
    rw [called] at same
    cases same
    cases member

private theorem ownAnswer_sent {resp : HmiResp} {kept own : CText}
    (called : statics.call visit = .ok (next, [resp.sent statics.response kept]))
    (fresh : Statics.init.call visit = .ok (first, [resp.sent Statics.init.response own]))
    (answer : visit.answer = some (resp, own)) :
    OwnAnswer statics visit ↔ kept = own ∧ statics.response.mem (resp.gap own) = 0 := by
  rw [← sent_eq_first_iff]
  constructor
  · intro ownAnswer
    have same := ownAnswer.asFirst
    rw [called, fresh] at same
    exact List.head_eq_of_cons_eq (Except.ok.inj same)
  · intro same
    rw [same] at called
    exact
      { asFirst := by
          rw [called, fresh]
          rfl
        shows := by
          intro after messages taken message member
          rw [called] at taken
          cases taken
          rw [List.mem_singleton.mp member]
          exact ⟨resp, own, answer, resp.messageText_sent _ own⟩ }

private theorem unmixed_of_unanswered (silent : visit.answer = none) : Unmixed statics visit := by
  intro resp uuid answer
  rw [silent] at answer
  contradiction

private theorem unmixed_iff {resp : HmiResp} {own : Option CText} (given : visit.ownUuid = own)
    (answer : visit.answer = some (resp, resp.identity (own.getD []))) :
    Unmixed statics visit ↔
      resp.identity (own.getD statics.uuid) = resp.identity (own.getD []) ∧
        statics.response.mem (resp.gap (resp.identity (own.getD []))) = 0 := by
  rw [identity_eq_iff, ← given]
  rw [← given] at answer
  constructor
  · intro unmixed
    exact unmixed _ _ answer
  · intro kept other uuid same
    rw [answer] at same
    cases same
    exact kept

end Calls

private theorem call_fault {statics : Statics} {root : CJson} {gCtx : BsContext} {gStat : Stat}
    {fault : Fault} (failed : hmiScan root.child statics.uuid 0 = .error fault) :
    statics.call ⟨some root, gCtx, gStat⟩ = .error fault := by
  have entered : hmiScan root.child (statics.enter gCtx gStat).uuid 0 = .error fault := failed
  simp only [Statics.call, hmiPayloadParser, entered, bind, Except.bind, Except.map]

private theorem ownAnswer_iff {statics next : Statics} {visit : Visit}
    (taken : requests.step statics visit = some next) :
    OwnAnswer statics visit ↔ Unmixed statics visit := by
  rcases visit with ⟨root, gCtx, gStat⟩
  change (statics.call ⟨root, gCtx, gStat⟩).toOption.map Prod.fst = some next at taken
  cases root with
  | none =>
      have silent : Visit.answer ⟨none, gCtx, gStat⟩ = none := rfl
      exact iff_of_true (ownAnswer_silent rfl rfl) (unmixed_of_unanswered silent)
  | some root =>
      cases scans : hmiScan root.child statics.uuid 0 with
      | error fault =>
          rw [call_fault scans] at taken
          contradiction
      | ok scanned =>
          rcases scanned with ⟨uuid, code⟩
          have fresh : hmiScan root.child Statics.init.uuid 0 = _ := hmiScan_own scans []
          rw [hmiScan_after scans] at scans
          cases found : respOf gCtx code with
          | none =>
              have silent : Visit.answer ⟨some root, gCtx, gStat⟩ = none := by
                simp only [Visit.answer, hmiScan_own scans [], found]
              exact iff_of_true
                (ownAnswer_silent (call_silent scans found) (call_silent fresh found))
                (unmixed_of_unanswered silent)
          | some resp =>
              by_cases fits : resp.Fits statics.response
                  (resp.identity ((ownUuid root.child).getD statics.uuid))
              · have firstFits := fits.first (identity_shorter resp (ownUuid root.child) _)
                have called : statics.call ⟨some root, gCtx, gStat⟩ = _ :=
                  call_built scans found fits
                have calledFirst : Statics.init.call ⟨some root, gCtx, gStat⟩ = _ :=
                  call_built fresh found firstFits
                cases sends : resp.sends gCtx gStat with
                | none =>
                    simp only [called, sends] at taken
                    contradiction
                | some sent =>
                    simp only [sends] at called calledFirst
                    cases sent with
                    | false =>
                        have silent : Visit.answer ⟨some root, gCtx, gStat⟩ = none := by
                          simp [Visit.answer, hmiScan_own scans [], found, sends]
                        exact iff_of_true (ownAnswer_silent called calledFirst)
                          (unmixed_of_unanswered silent)
                    | true =>
                        have answer : Visit.answer ⟨some root, gCtx, gStat⟩ =
                            some (resp, resp.identity ((ownUuid root.child).getD [])) := by
                          simp [Visit.answer, hmiScan_own scans [], found, sends]
                        rw [ownAnswer_sent called calledFirst answer, unmixed_iff rfl answer]
                        rfl
              · rw [call_overrun scans found fits] at taken
                contradiction

/-- Every answer of a run is its own request's exactly when each request that is
answered brings its uuid or finds none, and finds the byte behind its answer
clear. -/
theorem ownAnswers_iff (visits : List Visit) :
    requests.Along (fun statics visit _ => OwnAnswer statics visit) requests.initial visits ↔
      requests.Along (fun statics visit _ => Unmixed statics visit) requests.initial visits := by
  apply Machine.along_iff_of_forall
  intro statics visit next taken
  exact ownAnswer_iff taken

/-- A CHECK_NEW_PACKAGE without a uuid. -/
def bareRequest : CJson :=
  .node .object none 0 none [.node .number none checkNewPackage (some (text "func-id")) []]

/-- One that finds the HMI connected. -/
def checksPackage (root : CJson) : Visit :=
  { root := some root, gCtx := { Shared.init.gCtx with hmi := some 0 }, gStat := .statIdle }

private theorem checksPackage_run :
    (requests.run requests.initial [checksPackage (hmiRequest checkNewPackage)]).map
        Statics.uuid = some (text "1") ∧
      (requests.run requests.initial [checksPackage (hmiRequest checkNewPackage),
        checksPackage bareRequest]).isSome = true := by
  decide +kernel

/-- The uuid "1" of one request is shown in the answer to the next. -/
theorem bare_request_shows_earlier_uuid :
    ¬∀ visits, requests.Along (fun statics visit _ => OwnAnswer statics visit)
      requests.initial visits := by
  intro always
  have along := always [checksPackage (hmiRequest checkNewPackage), checksPackage bareRequest]
  have ran := checksPackage_run
  cases first : requests.step requests.initial (checksPackage (hmiRequest checkNewPackage)) with
  | none =>
      simp only [Machine.run, first] at ran
      cases ran.1
  | some statics =>
      cases second : requests.step statics (checksPackage bareRequest) with
      | none =>
          simp only [Machine.run, first, second] at ran
          cases ran.2
      | some next =>
          simp only [Machine.run, first, second] at ran
          have unmixed := (ownAnswer_iff second).mp ((along statics first).2 next second).1
          rcases (unmixed _ _ rfl).1 trivial with brings | clear
          · exact brings rfl
          · rw [Option.some.inj ran.1] at clear
            exact absurd clear (by decide)

end DlcServer
