/-
Do the strings kept from received messages stay inside their arrays?

Every one is copied with `strcpy` from a node of parsed JSON, whatever its
length.  From the first that is too long on, memory is not what the program
takes it for, and the run of this machine ends there.
-/

import DlcServer.Traffic

namespace DlcServer

open Library

/-! ### The strings and what is copied to them -/

/-- Text from a peer, as `cJSON_Parse` returns it: a request of the HMI, a reply
to a status request, a manifest. -/
inductive Arrival
  | request (root : Option CJson)
  | reply (body : Body)
  | manifest (root : Option CJson)

def Kept.receive (kept : Kept) : Arrival → Except Fault Kept
  | .request none => .ok kept
  | .request (some root) =>
      (hmiScan root.child kept.uuid 0).map fun scanned => { kept with uuid := scanned.1 }
  | .reply body =>
      match body.result with
      | none => .ok kept
      | some result =>
          (hmiRespUpgradeStatUpdate kept.hmiUpgradeStat result).map fun updated =>
            { kept with hmiUpgradeStat := updated.1 }
  | .manifest root =>
      (dmcMsgParse kept.curManifest kept.pkgUrl root).map fun parsed =>
        { kept with curManifest := parsed.curManifest, pkgUrl := parsed.pkgUrl }

inductive KeptMemory
  | intact (kept : Kept)
  /-- A copy has gone past the end of its array. -/
  | overrun

def KeptMemory.step : KeptMemory → Arrival → Option KeptMemory
  | .overrun, _ => none
  | .intact kept, arrival =>
      match kept.receive arrival with
      | .ok after => some (.intact after)
      | .error .overrun => some .overrun
      | .error .nullPointer => none

/-- The three peers in any order. -/
def keptStrings : Machine KeptMemory Arrival where
  initial := .intact Shared.init.kept
  step := KeptMemory.step

structure BsEcuUpgradeStat.Terminated (stat : BsEcuUpgradeStat) : Prop where
  devId : stat.devId.length < devIdCapacity
  softId : stat.softId.length < softIdCapacity
  estiTime : stat.estiTime.length < estiTimeCapacity
  startTime : stat.startTime.length < startTimeCapacity
  timeStamp : stat.timeStamp.length < timeStampCapacity
  doorModule : stat.doorModule.length < doorModuleCapacity
  status : stat.status.length < statusCapacity

/-- Every string ends inside its array. -/
structure Kept.Terminated (kept : Kept) : Prop where
  uuid : kept.uuid.length < uuidCapacity
  hmiUpgradeStat : kept.hmiUpgradeStat.Terminated
  pkgCdnUrl : kept.curManifest.pkgCdnUrl.length < pkgCdnUrlCapacity
  devId : kept.curManifest.devId.length < devIdCapacity

def KeptMemory.Terminated : KeptMemory → Prop
  | .intact kept => kept.Terminated
  | .overrun => False

/-! ### Requests -/

/-- The members of a request that are walked over: all before a function code
that is no number. -/
def requestReached (items : List CJson) : List CJson :=
  items.takeWhile fun item => item.string != some (text "func-id") || item.isNumber

def RequestFits (items : List CJson) : Prop :=
  ∀ item ∈ requestReached items, item.string = some (text "uuid") →
    ¬ Overlong uuidCapacity item.valuestring

private theorem requestFits_cons {iterator : CJson} {next : List CJson} {name : CText}
    (named : iterator.string = some name)
    (goesOn : ¬ (name = text "func-id" ∧ iterator.isNumber = false)) :
    RequestFits (iterator :: next) ↔
      (name = text "uuid" → ¬ Overlong uuidCapacity iterator.valuestring) ∧
        RequestFits next := by
  have passed :
      (iterator.string != some (text "func-id") || iterator.isNumber) = true := by
    rw [named]
    by_cases isCode : name = text "func-id"
    · simpa [isCode] using goesOn
    · simp [isCode]
  have reached : requestReached (iterator :: next) = iterator :: requestReached next :=
    List.takeWhile_cons_of_pos passed
  unfold RequestFits
  rw [reached, List.forall_mem_cons, named, Option.some.injEq]

private theorem hmiScan_fits (items : List CJson) (uuid : CText) (code : Int) :
    (∀ scanned, hmiScan items uuid code = .ok scanned →
        RequestFits items ∧ (uuid.length < uuidCapacity → scanned.1.length < uuidCapacity)) ∧
      (hmiScan items uuid code = .error .overrun → ¬ RequestFits items) := by
  induction items generalizing uuid code with
  | nil =>
      constructor
      · intro scanned done
        cases done
        exact ⟨by simp [RequestFits, requestReached], fun inside => inside⟩
      · intro failed
        contradiction
  | cons iterator next ih =>
      cases named : iterator.string with
      | none => simp [hmiScan, named]
      | some name =>
          by_cases leaves : name = text "func-id" ∧ iterator.isNumber = false
          · have stops : RequestFits (iterator :: next) := by
              simp [RequestFits, requestReached, named, leaves.1, leaves.2]
            constructor
            · intro scanned done
              simp only [hmiScan, named, if_pos leaves] at done
              cases done
              exact ⟨stops, fun inside => inside⟩
            · intro failed
              simp only [hmiScan, named, if_pos leaves] at failed
              contradiction
          · rw [requestFits_cons named leaves]
            simp only [hmiScan, named, if_neg leaves]
            generalize (if name = text "func-id" then iterator.valueint else code) = code
            by_cases isUuid : name = text "uuid"
            · simp only [if_pos isUuid]
              cases copied : strcpyInto uuidCapacity iterator.valuestring with
              | error fault =>
                  constructor
                  · intro scanned done
                    contradiction
                  · intro failed fits
                    cases failed
                    exact fits.1 isUuid (overlong_of_strcpyInto copied)
              | ok value =>
                  have inside := (strcpyInto_eq_ok copied).2
                  have later := ih value code
                  constructor
                  · intro scanned done
                    have rest := later.1 scanned done
                    exact ⟨⟨fun _ => not_overlong_of_strcpyInto copied, rest.1⟩,
                      fun _ => rest.2 inside⟩
                  · intro failed fits
                    exact later.2 failed fits.2
            · simp only [if_neg isUuid]
              have later := ih uuid code
              constructor
              · intro scanned done
                have rest := later.1 scanned done
                exact ⟨⟨fun same => absurd same isUuid, rest.1⟩, rest.2⟩
              · intro failed fits
                exact later.2 failed fits.2

/-! ### Reports -/

/-- The members of a report that are walked over, from a stored progress: all
before an error, and none after a progress of 100. -/
def reportReached : Int → List CJson → List CJson
  | _, [] => []
  | progress, item :: next =>
      if item.string = some (text "error") then []
      else
        let progress :=
          if item.string = some (text "progress_percent") then floatOfInt item.valueint
          else progress
        if 100 ≤ progress then [item] else item :: reportReached progress next

def ReportFits (progress : Int) (items : List CJson) : Prop :=
  ∀ item ∈ reportReached progress items, ∀ name capacity, item.string = some name →
    reportRoom name = some capacity → ¬ Overlong capacity item.valuestring

def MemberFits (name : CText) (item : CJson) : Prop :=
  ∀ capacity, reportRoom name = some capacity → ¬ Overlong capacity item.valuestring

private theorem reportFits_cons {progress : Int} {iterator : CJson} {next : List CJson} {name : CText}
    (named : iterator.string = some name) (notError : name ≠ text "error") {stored : Int}
    (stores : stored =
      if name = text "progress_percent" then floatOfInt iterator.valueint else progress) :
    ReportFits progress (iterator :: next) ↔
      MemberFits name iterator ∧ (¬ 100 ≤ stored → ReportFits stored next) := by
  have first (fits : ∀ found capacity, iterator.string = some found →
      reportRoom found = some capacity → ¬ Overlong capacity iterator.valuestring) :
      MemberFits name iterator :=
    fun capacity => fits name capacity named
  have back (fits : MemberFits name iterator) (found : CText) (capacity : Nat)
      (same : iterator.string = some found) :
      reportRoom found = some capacity → ¬ Overlong capacity iterator.valuestring := by
    cases named.symm.trans same
    exact fits capacity
  unfold ReportFits
  simp only [reportReached, named, Option.some.injEq, if_neg notError, ← stores]
  by_cases full : 100 ≤ stored
  · simp only [if_pos full, List.forall_mem_singleton]
    constructor
    · intro fits
      exact ⟨first (named ▸ fits), fun below => absurd full below⟩
    · intro fits
      exact named ▸ back fits.1
  · simp only [if_neg full, List.forall_mem_cons]
    constructor
    · intro fits
      exact ⟨first (named ▸ fits.1), fun _ => fits.2⟩
    · intro fits
      exact ⟨named ▸ back fits.1, fits.2 full⟩

private theorem put_terminated {stat : BsEcuUpgradeStat} {name value : CText} {capacity : Nat}
    (terminated : stat.Terminated) (room : reportRoom name = some capacity)
    (fits : value.length < capacity) : (stat.put name value).Terminated := by
  unfold reportRoom at room
  unfold BsEcuUpgradeStat.put
  split_ifs at room ⊢
  all_goals cases room
  · exact { terminated with estiTime := fits }
  · exact { terminated with startTime := fits }
  · exact { terminated with timeStamp := fits }
  · exact { terminated with status := fits }

private theorem assign_fits (stat : BsEcuUpgradeStat) (name : CText) (iterator : CJson) :
    (∀ assigned, stat.assign name iterator = .ok assigned →
        MemberFits name iterator ∧ (stat.Terminated → assigned.Terminated)) ∧
      (stat.assign name iterator = .error .overrun → ¬ MemberFits name iterator) := by
  rw [assign_eq]
  cases room : reportRoom name with
  | none =>
      constructor
      · intro assigned done
        cases done
        exact ⟨fun capacity some_ => by simp [room] at some_, fun terminated => { terminated with }⟩
      · intro failed
        contradiction
  | some capacity =>
      dsimp only
      cases copied : strcpyInto capacity iterator.valuestring with
      | error fault =>
          constructor
          · intro assigned done
            contradiction
          · intro failed fits
            cases failed
            exact fits capacity room (overlong_of_strcpyInto copied)
      | ok value =>
          constructor
          · intro assigned done
            cases done
            constructor
            · intro other same
              cases room.symm.trans same
              exact not_overlong_of_strcpyInto copied
            · intro terminated
              exact put_terminated terminated room (strcpyInto_eq_ok copied).2
          · intro failed
            contradiction

private theorem updateMembers_fits (stat : BsEcuUpgradeStat) (items : List CJson) :
    (∀ updated, updateMembers stat items = .ok updated →
        ReportFits stat.progressPercent items ∧ (stat.Terminated → updated.1.Terminated)) ∧
      (updateMembers stat items = .error .overrun → ¬ ReportFits stat.progressPercent items) := by
  induction items generalizing stat with
  | nil =>
      constructor
      · intro updated done
        cases done
        exact ⟨by simp [ReportFits, reportReached], fun terminated => terminated⟩
      · intro failed
        contradiction
  | cons iterator next ih =>
      cases named : iterator.string with
      | none => simp [updateMembers, named]
      | some name =>
          by_cases isError : name = text "error"
          · simp [updateMembers, named, isError, ReportFits, reportReached]
          · obtain ⟨assigns, overruns⟩ := assign_fits stat name iterator
            simp only [updateMembers, named, if_neg isError]
            cases stored : stat.assign name iterator with
            | error fault =>
                constructor
                · intro updated done
                  contradiction
                · intro failed fits
                  cases failed
                  rw [reportFits_cons named isError rfl] at fits
                  exact overruns stored fits.1
            | ok assigned =>
                obtain ⟨fits, terminates⟩ := assigns assigned stored
                rw [reportFits_cons named isError (assign_progress stored)]
                dsimp only
                by_cases full : 100 ≤ assigned.progressPercent
                · simp only [if_pos full]
                  constructor
                  · intro updated done
                    cases done
                    exact ⟨⟨fits, fun below => absurd full below⟩, terminates⟩
                  · intro failed
                    contradiction
                · simp only [if_neg full]
                  have later := ih assigned
                  constructor
                  · intro updated done
                    have rest := later.1 updated done
                    exact ⟨⟨fits, fun _ => rest.1⟩, fun was => rest.2 (terminates was)⟩
                  · intro failed all
                    exact later.2 failed (all.2 full)

/-! ### Manifests -/

/-- A first package for the WPC has a URL that has room. -/
def ManifestFits (root : Option CJson) : Prop :=
  ∀ tree package ecu res url, root = some tree →
    Judged tree package ecu res url (text "WPC") → ¬ Overlong pkgCdnUrlCapacity url.valuestring

theorem Judged.unique {tree package ecu res url package' ecu' res' url' : CJson}
    {name name' : CText} (judged : Judged tree package ecu res url name)
    (again : Judged tree package' ecu' res' url' name') : name = name' ∧ url = url' := by
  cases judged.walked.symm.trans again.walked
  cases judged.hasEcu.symm.trans again.hasEcu
  cases judged.hasRes.symm.trans again.hasRes
  cases judged.hasUrl.symm.trans again.hasUrl
  cases judged.named.symm.trans again.named
  exact ⟨rfl, rfl⟩

private theorem dmcMsgParse_fits (manifest : BsL1Manifest) (pkgUrl : PkgUrl) (root : Option CJson) :
    (∀ parsed, dmcMsgParse manifest pkgUrl root = .ok parsed →
        ManifestFits root ∧
          (manifest.pkgCdnUrl.length < pkgCdnUrlCapacity →
            parsed.curManifest.pkgCdnUrl.length < pkgCdnUrlCapacity) ∧
          (manifest.devId.length < devIdCapacity →
            parsed.curManifest.devId.length < devIdCapacity)) ∧
      (dmcMsgParse manifest pkgUrl root = .error .overrun → ¬ ManifestFits root) := by
  have wpcFits : (text "WPC").length < devIdCapacity := by decide
  have vdcmFits : (text "VDCM").length < devIdCapacity := by decide
  have copies {tree package ecu res url : CJson} (isTree : root = some tree)
      (judged : Judged tree package ecu res url (text "WPC")) {parsed : ParsedManifest}
      (done : dmcMsgParse manifest pkgUrl root = .ok parsed) :
      ∃ value, strcpyInto pkgCdnUrlCapacity url.valuestring = .ok value ∧
        parsed.curManifest = { devId := text "WPC", pkgCdnUrl := value } := by
    rw [isTree, dmcMsgParse_of_judged judged, if_pos rfl] at done
    cases copied : strcpyInto pkgCdnUrlCapacity url.valuestring with
    | error fault =>
        rw [copied] at done
        contradiction
    | ok value =>
        rw [copied] at done
        cases done
        exact ⟨value, rfl, rfl⟩
  constructor
  · intro parsed done
    constructor
    · intro tree package ecu res url isTree judged
      obtain ⟨value, copied, _⟩ := copies isTree judged done
      exact not_overlong_of_strcpyInto copied
    · rcases dmcMsgParse_cases manifest pkgUrl root with
        rejected | ⟨failed, _⟩ | ⟨tree, package, ecu, res, url, name, isTree, judged⟩
      · rw [rejected] at done
        cases done
        exact ⟨fun inside => inside, fun inside => inside⟩
      · rw [failed] at done
        contradiction
      · by_cases wpc : name = text "WPC"
        · subst wpc
          obtain ⟨value, copied, stored⟩ := copies isTree judged done
          rw [stored]
          exact ⟨fun _ => (strcpyInto_eq_ok copied).2, fun _ => wpcFits⟩
        · rw [isTree, dmcMsgParse_of_judged judged, if_neg wpc] at done
          cases done
          exact ⟨fun inside => inside, fun _ => vdcmFits⟩
  · intro failed fits
    rcases dmcMsgParse_cases manifest pkgUrl root with
      rejected | ⟨crashed, _⟩ | ⟨tree, package, ecu, res, url, name, isTree, judged⟩
    · rw [rejected] at failed
      contradiction
    · rw [crashed] at failed
      cases failed
    · rw [isTree, dmcMsgParse_of_judged judged] at failed
      by_cases wpc : name = text "WPC"
      · subst wpc
        rw [if_pos rfl] at failed
        cases copied : strcpyInto pkgCdnUrlCapacity url.valuestring with
        | error fault =>
            rw [copied] at failed
            cases failed
            exact fits tree package ecu res url isTree judged (overlong_of_strcpyInto copied)
        | ok value =>
            rw [copied] at failed
            contradiction
      · rw [if_neg wpc] at failed
        contradiction

/-! ### Runs -/

/-- The strings copied on the way through an arrival all have room. -/
def Kept.Fits (kept : Kept) : Arrival → Prop
  | .request root => ∀ tree ∈ root, RequestFits tree.child
  | .reply body =>
      ∀ result ∈ body.result, ReportFits kept.hmiUpgradeStat.progressPercent result.child
  | .manifest root => ManifestFits root

def KeptMemory.Fits : KeptMemory → Arrival → Prop
  | .intact kept, arrival => kept.Fits arrival
  | .overrun, _ => True

private theorem map_eq_overrun {α β : Type} {outcome : Except Fault α} {build : α → β}
    (failed : outcome.map build = .error .overrun) : outcome = .error .overrun := by
  cases outcome with
  | error fault =>
      cases failed
      rfl
  | ok value => contradiction

private theorem map_eq_ok {α β : Type} {outcome : Except Fault α} {build : α → β} {after : β}
    (done : outcome.map build = .ok after) : ∃ value, outcome = .ok value ∧ build value = after := by
  cases outcome with
  | error fault => contradiction
  | ok value =>
      cases done
      exact ⟨value, rfl, rfl⟩

private theorem receive_fits (kept : Kept) (arrival : Arrival) :
    (∀ after, kept.receive arrival = .ok after →
        kept.Fits arrival ∧ (kept.Terminated → after.Terminated)) ∧
      (kept.receive arrival = .error .overrun → ¬ kept.Fits arrival) := by
  cases arrival with
  | request root =>
      cases root with
      | none =>
          constructor
          · intro after done
            cases done
            exact ⟨by simp [Kept.Fits], fun terminated => terminated⟩
          · intro failed
            contradiction
      | some tree =>
          obtain ⟨scans, overruns⟩ := hmiScan_fits tree.child kept.uuid 0
          simp only [Kept.Fits, Option.mem_some_iff, forall_eq']
          constructor
          · intro after done
            obtain ⟨scanned, scan, rfl⟩ := map_eq_ok done
            obtain ⟨fits, inside⟩ := scans scanned scan
            exact ⟨fits, fun terminated => { terminated with uuid := inside terminated.uuid }⟩
          · intro failed
            exact overruns (map_eq_overrun failed)
  | reply body =>
      simp only [Kept.receive, Kept.Fits]
      cases carried : body.result with
      | none =>
          constructor
          · intro after done
            cases done
            exact ⟨by simp, fun terminated => terminated⟩
          · intro failed
            contradiction
      | some result =>
          obtain ⟨updates, overruns⟩ := updateMembers_fits kept.hmiUpgradeStat result.child
          simp only [Option.mem_some_iff, forall_eq']
          constructor
          · intro after done
            obtain ⟨updated, update, rfl⟩ := map_eq_ok done
            obtain ⟨fits, inside⟩ := updates updated update
            exact ⟨fits, fun terminated =>
              { terminated with hmiUpgradeStat := inside terminated.hmiUpgradeStat }⟩
          · intro failed
            exact overruns (map_eq_overrun failed)
  | manifest root =>
      obtain ⟨parses, overruns⟩ := dmcMsgParse_fits kept.curManifest kept.pkgUrl root
      constructor
      · intro after done
        obtain ⟨parsed, parse, rfl⟩ := map_eq_ok done
        obtain ⟨fits, url, device⟩ := parses parsed parse
        exact ⟨fits, fun terminated =>
          { terminated with
            pkgCdnUrl := url terminated.pkgCdnUrl
            devId := device terminated.devId }⟩
      · intro failed
        exact overruns (map_eq_overrun failed)

private theorem step_terminated_iff {before after : KeptMemory} {arrival : Arrival}
    (terminated : before.Terminated) (taken : before.step arrival = some after) :
    after.Terminated ↔ before.Fits arrival := by
  cases before with
  | overrun => exact terminated.elim
  | intact kept =>
      obtain ⟨copies, overruns⟩ := receive_fits kept arrival
      unfold KeptMemory.step at taken
      cases outcome : kept.receive arrival with
      | ok next =>
          simp only [outcome] at taken
          cases taken
          obtain ⟨fits, inside⟩ := copies next outcome
          exact iff_of_true (inside terminated) fits
      | error fault =>
          simp only [outcome] at taken
          cases fault with
          | nullPointer => contradiction
          | overrun =>
              cases taken
              exact iff_of_false (fun impossible => impossible) (overruns outcome)

private theorem init_terminated : Shared.init.kept.Terminated where
  uuid := by decide
  hmiUpgradeStat :=
    { devId := by decide
      softId := by decide
      estiTime := by decide
      startTime := by decide
      timeStamp := by decide
      doorModule := by decide
      status := by decide }
  pkgCdnUrl := by decide
  devId := by decide

/-- The strings end inside their arrays at the start and after every one of the
arrivals exactly when what is copied of these has room. -/
theorem stringsTerminated_iff (arrivals : List Arrival) :
    (keptStrings.initial.Terminated ∧
        keptStrings.Along (fun _ _ after => after.Terminated) keptStrings.initial arrivals) ↔
      keptStrings.Along (fun before arrival _ => before.Fits arrival) keptStrings.initial
        arrivals := by
  have start : keptStrings.initial.Terminated := init_terminated
  rw [and_iff_right start]
  refine Machine.along_iff_of_invariant ?_ ?_ start arrivals
  · intro before arrival after terminated taken
    exact step_terminated_iff terminated taken
  · intro before arrival after _ _ terminated
    exact terminated

def uuidRequest (uuid : CText) : CJson :=
  .node .object none 0 none
    [.node .number none checkNewPackage (some (text "func-id")) [],
      .node .string (some uuid) 0 (some (text "uuid")) []]

/-- A uuid of 64 bytes leaves no room for its terminator. -/
theorem long_uuid_overruns :
    ¬ ∀ arrivals : List Arrival,
      keptStrings.Along (fun _ _ after => after.Terminated) keptStrings.initial arrivals := by
  intro always
  have along := always [.request (some (uuidRequest (List.replicate 64 97)))]
  have overruns : keptStrings.step keptStrings.initial
      (.request (some (uuidRequest (List.replicate 64 97)))) = some .overrun := by rfl
  exact (along .overrun overruns).1

/-! ### The program -/

theorem kept_of_step {requests : List Api} {before after : State} {move : Move}
    (taken : (systemWith requests).step before move = some after) :
    after.shared.kept = before.shared.kept ∨
      ∃ arrival, before.shared.kept.receive arrival = .ok after.shared.kept := by
  obtain ⟨thread, done, _, performed, rfl⟩ := Pool.step_eq_some taken
  obtain ⟨self, act⟩ := move
  have dealing := Dealing.of_perform performed
  rw [Pool.apply_shared]
  generalize done.shared = left at dealing
  dsimp only at dealing
  cases dealing with
  | idle _ _ _ idle untouched => exact .inl untouched.kept
  | manifest root _ parsed parses kept peer silent =>
      refine .inr ⟨.manifest (some root), ?_⟩
      rw [kept]
      simp only [Kept.receive, Shared.kept, parses]
      rfl
  | requested root _ started nc there parses =>
      cases root with
      | none =>
          cases parses
          exact .inl rfl
      | some tree =>
          obtain ⟨uuid, code, scans, kept, _⟩ := hmiPayloadParser_traffic parses
          refine .inr ⟨.request (some tree), ?_⟩
          rw [kept]
          simp only [Kept.receive, Shared.kept, scans]
          rfl
  | reported _ body result reported _ verdict status carried settled untouched =>
      obtain ⟨stat, number, updates, kept, _⟩ := tdrStatReport_traffic settled
      refine .inr ⟨.reply body, ?_⟩
      have same : hmiRespUpgradeStatUpdate before.shared.kept.hmiUpgradeStat result =
          .ok (stat, number) := updates
      rw [untouched.kept, kept]
      simp only [Kept.receive, carried, same]
      rfl
  | _ => exact .inl rfl

private theorem receive_hmiPkgInfo {kept after : Kept} {arrival : Arrival}
    (receives : kept.receive arrival = .ok after) : after.hmiPkgInfo = kept.hmiPkgInfo := by
  cases arrival with
  | request root =>
      cases root with
      | none =>
          cases receives
          rfl
      | some tree =>
          obtain ⟨scanned, _, rfl⟩ := map_eq_ok receives
          rfl
  | reply body =>
      simp only [Kept.receive] at receives
      cases carried : body.result with
      | none =>
          rw [carried] at receives
          cases receives
          rfl
      | some result =>
          rw [carried] at receives
          obtain ⟨updated, _, rfl⟩ := map_eq_ok receives
          rfl
  | manifest root =>
      obtain ⟨parsed, _, rfl⟩ := map_eq_ok receives
      rfl

/-- Nothing that is received is copied to the package record. -/
theorem hmiPkgInfo_of_reachable {requests : List Api} {state : State}
    (reached : (systemWith requests).Reachable state) :
    state.shared.gCtx.hmiPkgInfo = initHmiPkgInfo := by
  induction reached with
  | initial => rfl
  | @step before move after _ _ taken unchanged =>
      have same : after.shared.kept.hmiPkgInfo = before.shared.kept.hmiPkgInfo := by
        rcases kept_of_step taken with same | ⟨arrival, receives⟩
        · rw [same]
        · exact receive_hmiPkgInfo receives
      exact same.trans unchanged

/-- In every state the program reaches without a fault, its strings end inside
their arrays. -/
theorem terminated_of_reachable {requests : List Api} {state : State}
    (reached : (systemWith requests).Reachable state) : state.shared.kept.Terminated := by
  induction reached with
  | initial => exact init_terminated
  | step _ _ taken terminated =>
      rcases kept_of_step taken with same | ⟨arrival, receives⟩
      · rw [same]
        exact terminated
      · exact ((receive_fits _ arrival).1 _ receives).2 terminated

end DlcServer
