/-
What a package has behind it when an upgrade goes on with it.

The states carry no package: they are about whatever the current manifest names.
The history says which package a command was started for, and a package that is
complete stays so, since no command is started for it any more.
-/

import DlcServer.StartUpgrade

namespace DlcServer

open Library

/-! ### The rule -/

/-- All download commands of the package have been started, and every one of
them has exited with 0. -/
structure Downloaded (past : List Event) (package : Nat) : Prop where
  begun : ∃ thread command, .downloadStarted package thread command 0 ∈ past
  exited : ∀ thread command left, .downloadStarted package thread command left ∈ past →
    .downloadExited thread command 0 ∈ past

/-- After that, an upload command was started for the package and has exited
with 0. -/
def UploadedSince (past : List Event) (package : Nat) : Prop :=
  ∃ later thread earlier, past = later ++ .uploadStarted package thread :: earlier ∧
    Downloaded earlier package ∧ .uploadExited thread 0 ∈ later

structure Uploaded (past : List Event) (package : Nat) : Prop where
  downloaded : Downloaded past package
  since : UploadedSince past package

/-- The step has logged the event. -/
def Logs (before after : Shared) (event : Event) : Prop :=
  ∃ new, after.past = new ++ before.past ∧ event ∈ new

/-- DLC_PKG_READY is entered for a package that is downloaded, the package of
ORCH_PKG_READY is downloaded and uploaded, and so is the one that a /tdr/run
request names. -/
structure TracesPackage (before after : Shared) : Prop where
  downloaded : Logs before after (.core .dlcPkgReady) → Downloaded before.past before.upgrade
  uploaded : after.gStat = .orchPkgReady → Uploaded after.past after.upgrade
  requested : ∀ package, Logs before after (.requested .tdrRun package) →
    Uploaded before.past package

/-! ### The condition -/

/-- The downloader begins in the upgrade it was started for, and reports in it
when all of its commands have exited with 0; the uploader ends in its upgrade
with an upload that has exited with 0; and START_UPGRADE and the request it
starts act in their upgrade, or with the package of the new one ready. -/
def Thread.StaysWithPackage (before : Shared) : Thread → Act → Prop
  | .downloader thread, .popen _ => thread.pc = .start → thread.upgrade = before.upgrade
  | .downloader thread, .tick =>
      thread.pc = .report → thread.exits.getLast? = some (some 0) →
        thread.upgrade = before.upgrade ∧ ∀ exit ∈ thread.exits, exit = some 0
  | .uploader thread, .tick =>
      thread.pc = .set → thread.upgrade = before.upgrade ∧ thread.exit = some 0
  | .hmi (.acting request), .tick =>
      request.upgrade = before.upgrade ∨ before.gStat = .orchPkgReady
  | .cgw thread, .tick =>
      thread.api = .tdrRun → thread.pc = .start →
        thread.upgrade = before.upgrade ∨ before.gStat = .orchPkgReady
  | _, _ => True

def StaysWithPackage (before : State) (move : Move) : Prop :=
  ∀ thread ∈ before.threads[move.1]?, thread.StaysWithPackage before.shared move.2

instance (before : Shared) (thread : Thread) (act : Act) :
    Decidable (thread.StaysWithPackage before act) :=
  match thread with
  | .main _ | .monitor _ => inferInstanceAs (Decidable True)
  | .hmi pc =>
      match pc with
      | .acting _ =>
          match act with
          | .tick => inferInstanceAs (Decidable (_ ∨ _))
          | .dmcAccept _ | .dmcManifest _ | .hmiAccept _ | .hmiRecv _ | .statusReport _
          | .connection _ | .popen _ | .eof | .exit _ _ => inferInstanceAs (Decidable True)
      | .start | .serving | .deaf | .waiting _ _ | .lock _ | .unlock _ =>
          inferInstanceAs (Decidable True)
  | .cgw _ =>
      match act with
      | .tick => inferInstanceAs (Decidable (_ → _ → _))
      | .dmcAccept _ | .dmcManifest _ | .hmiAccept _ | .hmiRecv _ | .statusReport _
      | .connection _ | .popen _ | .eof | .exit _ _ => inferInstanceAs (Decidable True)
  | .downloader _ =>
      match act with
      | .tick => inferInstanceAs (Decidable (_ → _ → _))
      | .popen _ => inferInstanceAs (Decidable (_ → _))
      | .dmcAccept _ | .dmcManifest _ | .hmiAccept _ | .hmiRecv _ | .statusReport _
      | .connection _ | .eof | .exit _ _ => inferInstanceAs (Decidable True)
  | .uploader _ =>
      match act with
      | .tick => inferInstanceAs (Decidable (_ → _))
      | .dmcAccept _ | .dmcManifest _ | .hmiAccept _ | .hmiRecv _ | .statusReport _
      | .connection _ | .popen _ | .eof | .exit _ _ => inferInstanceAs (Decidable True)

instance (before : State) (move : Move) : Decidable (StaysWithPackage before move) :=
  inferInstanceAs (Decidable (∀ thread ∈ before.threads[move.1]?, _))

/-! ### What a step logs -/

/-- Who logs the events that matter here. -/
def Event.LoggedBy (shared : Shared) (thread : Thread) (act : Act) : Event → Prop
  | .core .dlcPkgReady =>
      act = .tick ∧ ∃ found, thread = .downloader found ∧ found.pc = .report ∧
        found.exits.getLast? = some (some 0)
  | .requested api package =>
      act = .tick ∧ package = shared.upgrade ∧
        ∃ found, thread = .cgw found ∧ found.api = api ∧ found.pc = .start
  | .downloadStarted _ _ _ _ => ∃ found, thread = .downloader found
  | _ => True

/-- The past grows by events that the acting thread may log. -/
def GrowsBy (before after : List Event) (logged : Event → Prop) : Prop :=
  ∃ new, after = new ++ before ∧ ∀ event ∈ new, logged event

theorem GrowsBy.refl (past : List Event) (logged : Event → Prop) : GrowsBy past past logged :=
  ⟨[], rfl, by simp⟩

theorem GrowsBy.cons {before after : List Event} {logged : Event → Prop} {event : Event}
    (grows : GrowsBy before after logged) (by_ : logged event) :
    GrowsBy before (event :: after) logged := by
  obtain ⟨new, rfl, each⟩ := grows
  exact ⟨event :: new, rfl, List.forall_mem_cons.mpr ⟨by_, each⟩⟩

private theorem GrowsBy.of_logs {before after : Shared} {logged : Event → Prop} {event : Event}
    (grows : GrowsBy before.past after.past logged) (logs : Logs before after event) :
    logged event := by
  obtain ⟨new, same, each⟩ := grows
  obtain ⟨also, again, member⟩ := logs
  rw [same] at again
  exact each event (List.append_cancel_right again ▸ member)

theorem Keeps.grows {before after : Shared} (keeps : Keeps before after) {past : List Event}
    {logged : Event → Prop} (grows : GrowsBy past before.past logged)
    (sends : ∀ peer bytes, logged (.sent peer bytes)) : GrowsBy past after.past logged := by
  rcases keeps.past with same | ⟨peer, bytes, sent⟩
  · exact same ▸ grows
  · exact sent ▸ grows.cons (sends peer bytes)

theorem Handling.grows {shared : Shared} {self caller : Nat} {api : Api} {event : CgwEvent}
    {handled : Handled} (handling : Handling shared self caller api event handled)
    {before : Shared} {thread : Thread} {act : Act}
    (earlier : GrowsBy before.past shared.past (Event.LoggedBy before thread act)) :
    GrowsBy before.past handled.shared.past (Event.LoggedBy before thread act) := by
  cases handling with
  | tdrRunConnects failed =>
      refine GrowsBy.cons (earlier.cons ?_) ?_
      · exact trivial
      · exact trivial
  | tdrStatReports body result reported verdict carried settled =>
      obtain ⟨_, _, _, keeps, verdicts⟩ := tdrStatReport_keeps settled
      have reports := keeps.grows earlier (fun _ _ => trivial)
      rcases verdicts with ⟨_, rfl⟩ | ⟨_, rfl⟩ | ⟨_, rfl⟩
      · exact reports.cons trivial
      · refine GrowsBy.cons (reports.cons ?_) ?_
        · exact trivial
        · exact trivial
      · exact reports.cons trivial
  | _ => exact earlier

theorem Step.grows {shared : Shared} {self : Nat} {thread : Thread} {act : Act} {done : Done}
    (step : Step shared self thread act done) :
    GrowsBy shared.past done.shared.past (Event.LoggedBy shared thread act) := by
  have same := GrowsBy.refl shared.past (Event.LoggedBy shared thread act)
  have sends (peer : Peer) (bytes : List UInt8) :
      Event.LoggedBy shared thread act (.sent peer bytes) := trivial
  cases step with
  | mainAccepts nc after keeps => exact keeps.grows same sends
  | mainAnnounces nc after keeps => exact keeps.grows same sends
  | mainManifest root effect accepts =>
      rw [accepts.past]
      refine GrowsBy.cons (same.cons ?_) ?_
      · exact trivial
      · exact trivial
  | hmiServes act after keeps => exact keeps.grows same sends
  | hmiStarts root after respLen keeps => exact keeps.grows same sends
  | hmiActs request =>
      refine GrowsBy.cons (same.cons ?_) ?_
      · exact trivial
      · exact trivial
  | hmiUnlocks request after keeps => exact keeps.grows same sends
  | monitorServes act after keeps => exact keeps.grows same sends
  | cgwRequests thread here payload => exact same.cons ⟨rfl, rfl, thread, rfl, rfl, here⟩
  | cgwHandles thread here event conn had handled handling =>
      refine handling.grows ?_
      cases event with
      | connect failed => exact same.cons trivial
      | _ => exact same
  | downloaderStarts thread here rest => exact same.cons ⟨thread, rfl⟩
  | downloaderContinues thread command rest here => exact same.cons ⟨thread, rfl⟩
  | downloaderReports thread here succeeded =>
      refine GrowsBy.cons (same.cons ?_) ?_
      · exact ⟨rfl, thread, rfl, here, succeeded⟩
      · exact trivial
  | downloadExits thread command status running => exact same.cons trivial
  | uploaderStarts thread here => exact same.cons trivial
  | uploaderSets thread here => exact same.cons trivial
  | uploadExits thread status here running => exact same.cons trivial
  | _ => exact same

private theorem GrowsBy.mono {before after : List Event} {narrow wide : Event → Prop}
    (grows : GrowsBy before after narrow) (weaker : ∀ event, narrow event → wide event) :
    GrowsBy before after wide := by
  obtain ⟨new, same, each⟩ := grows
  exact ⟨new, same, fun event member => weaker event (each event member)⟩

theorem GrowsBy.mem {before after : List Event} {logged : Event → Prop} {event : Event}
    (grows : GrowsBy before after logged) (member : event ∈ before) : event ∈ after := by
  obtain ⟨new, rfl, _⟩ := grows
  exact List.mem_append_right new member

/-! ### Downloads -/

/-- All commands of the downloader have been started, or it has given up. -/
def DmcDownloaderThread.Spent (thread : DmcDownloaderThread) : Prop :=
  thread.pc ≠ .start ∧ ∀ rest, thread.pc ≠ .reading rest

def Event.StartsDownload : Event → Prop
  | .downloadStarted _ _ _ _ => True
  | _ => False

/-- What a step of a downloader does with the record of its commands. -/
inductive DownloadUse (shared : Shared) (self : Nat) (thread : DmcDownloaderThread)
    (done : Done) (next : DmcDownloaderThread) : Prop
  | opens (rest : List CText) (here : ¬ thread.Spent) (pc : next.pc = .reading rest)
      (package : next.package = thread.upgrade)
      (exits : next.exits = thread.exits ++ [none])
      (past : done.shared.past =
        .downloadStarted thread.upgrade self thread.exits.length rest.length :: shared.past)
  | exits (command status : Nat) (pc : next.pc = thread.pc)
      (package : next.package = thread.package)
      (exits : next.exits = thread.exits.set command (some status))
      (past : done.shared.past = .downloadExited self command status :: shared.past)
  | goes (spent : next.Spent) (exits : next.exits = thread.exits)
      (last : next.pc = .lock → thread.pc = .reading [])
      (reports : next.pc = .report → thread.pc = .lock)
      (past : GrowsBy shared.past done.shared.past (fun event => ¬ event.StartsDownload))

private theorem Step.downloadUse {shared : Shared} {self : Nat} {thread : DmcDownloaderThread}
    {act : Act} {done : Done} (step : Step shared self (.downloader thread) act done)
    (stays : (Thread.downloader thread).StaysWithPackage shared act)
    (reading : ∀ rest, thread.pc = .reading rest → thread.package = thread.upgrade) :
    ∃ next, done.thread = .downloader next ∧ next.upgrade = thread.upgrade ∧
      DownloadUse shared self thread done next := by
  have same := GrowsBy.refl shared.past (fun event => ¬ event.StartsDownload)
  cases step with
  | downloaderStarts _ here rest =>
      have own : thread.upgrade = shared.upgrade := stays here
      refine ⟨_, rfl, rfl, .opens rest ?_ rfl own.symm rfl (by simp [own])⟩
      exact fun spent => spent.1 here
  | downloaderContinues _ command rest here =>
      have own := reading _ here
      refine ⟨_, rfl, rfl, .opens rest ?_ rfl own rfl (by simp [own])⟩
      exact fun spent => spent.2 _ here
  | downloaderFails _ package here =>
      exact ⟨_, rfl, rfl, .goes ⟨by simp, by simp⟩ rfl (by simp) (by simp) same⟩
  | downloaderReads _ here =>
      exact ⟨_, rfl, rfl, .goes ⟨by simp, by simp⟩ rfl (fun _ => here) (by simp) same⟩
  | downloaderLocks _ here =>
      exact ⟨_, rfl, rfl, .goes ⟨by simp, by simp⟩ rfl (by simp) (fun _ => here) same⟩
  | downloaderReports _ here succeeded =>
      refine ⟨_, rfl, rfl, .goes ⟨by simp, by simp⟩ rfl (by simp) (by simp) ?_⟩
      exact GrowsBy.cons (same.cons id) id
  | downloaderGivesUp _ here failed =>
      exact ⟨_, rfl, rfl, .goes ⟨by simp, by simp⟩ rfl (by simp) (by simp) same⟩
  | downloaderUnlocks _ here =>
      exact ⟨_, rfl, rfl, .goes ⟨by simp, by simp⟩ rfl (by simp) (by simp) same⟩
  | downloadExits _ command status running =>
      exact ⟨_, rfl, rfl, .exits command status rfl rfl rfl rfl⟩

private theorem Step.downloaders {shared : Shared} {self : Nat} {thread : Thread} {act : Act}
    {done : Done} (step : Step shared self thread act done)
    (other : ∀ found, thread ≠ .downloader found) :
    (∀ found, done.thread ≠ .downloader found) ∧
      GrowsBy shared.past done.shared.past (fun event => ¬ event.StartsDownload) := by
  constructor
  · cases step with
    | downloaderStarts found => exact absurd rfl (other found)
    | downloaderContinues found => exact absurd rfl (other found)
    | downloaderFails found => exact absurd rfl (other found)
    | downloaderReads found => exact absurd rfl (other found)
    | downloaderLocks found => exact absurd rfl (other found)
    | downloaderReports found => exact absurd rfl (other found)
    | downloaderGivesUp found => exact absurd rfl (other found)
    | downloaderUnlocks found => exact absurd rfl (other found)
    | downloadExits found => exact absurd rfl (other found)
    | _ => simp
  · refine step.grows.mono ?_
    intro event logged starts
    cases event with
    | downloadStarted package index command left =>
        obtain ⟨found, same⟩ := logged
        exact other found same
    | _ => cases starts

private theorem Handling.started_not_downloader {shared : Shared} {self caller : Nat} {api : Api}
    {event : CgwEvent} {handled : Handled}
    (handling : Handling shared self caller api event handled) :
    ∀ found ∈ handled.started, ∀ thread, found ≠ .downloader thread := by
  intro found fresh thread
  rcases handling.started_cases fresh with ⟨_, rfl⟩ | ⟨_, rfl⟩
  · simp [Thread.uploaderStart]
  · simp [Thread.cgwStart]

private theorem Step.downloader_spawned {shared : Shared} {self : Nat} {thread : Thread} {act : Act}
    {done : Done} (step : Step shared self thread act done) :
    (∀ found ∈ done.spawned, ∀ thread, found ≠ .downloader thread) ∨
      done.spawned = [.downloaderStart (shared.upgrade + 1)] ∧
        done.shared.upgrade = shared.upgrade + 1 ∧ done.thread = .main .newPkg := by
  cases step with
  | mainManifest root effect accepts => exact .inr ⟨accepts.started, accepts.upgrade, rfl⟩
  | cgwHandles thread here event conn had handled handling =>
      exact .inl handling.started_not_downloader
  | _ => exact .inl (by simp [Thread.cgwStart])

/-- What is known of a downloader from the commands in the past. -/
structure DownloaderTrace (past : List Event) (index : Nat) (thread : DmcDownloaderThread) :
    Prop where
  reading : ∀ rest, thread.pc = .reading rest → thread.package = thread.upgrade ∧
    ∃ command, .downloadStarted thread.upgrade index command rest.length ∈ past
  finished : thread.pc = .lock ∨ thread.pc = .report →
    ∃ command, .downloadStarted thread.upgrade index command 0 ∈ past
  exited : ∀ command status, thread.exits[command]? = some (some status) →
    .downloadExited index command status ∈ past

private theorem DownloaderTrace.mono {past later : List Event} {index : Nat}
    {thread : DmcDownloaderThread} (trace : DownloaderTrace past index thread)
    (grows : ∀ event ∈ past, event ∈ later) : DownloaderTrace later index thread := by
  refine ⟨?_, ?_, ?_⟩
  · intro rest reads
    obtain ⟨own, command, member⟩ := trace.reading rest reads
    exact ⟨own, command, grows _ member⟩
  · intro after
    obtain ⟨command, member⟩ := trace.finished after
    exact ⟨command, grows _ member⟩
  · intro command status exit
    exact grows _ (trace.exited command status exit)

private theorem DownloadUse.trace {shared : Shared} {self : Nat} {thread next : DmcDownloaderThread}
    {done : Done} (use : DownloadUse shared self thread done next)
    (upgrade : next.upgrade = thread.upgrade)
    (trace : DownloaderTrace shared.past self thread) :
    DownloaderTrace done.shared.past self next := by
  cases use with
  | opens rest here pc package exits past =>
      refine ⟨?_, ?_, ?_⟩
      · intro other reads
        obtain rfl := DownloaderPc.reading.inj (pc.symm.trans reads)
        refine ⟨package.trans upgrade.symm, thread.exits.length, ?_⟩
        rw [past, upgrade]
        exact List.mem_cons_self
      · intro after
        simp [pc] at after
      · intro command status exit
        rw [exits, List.getElem?_append] at exit
        rw [past]
        split at exit
        · exact List.mem_cons_of_mem _ (trace.exited command status exit)
        · simp [List.getElem?_singleton] at exit
  | exits command status pc package exits past =>
      have older : DownloaderTrace done.shared.past self thread :=
        trace.mono (fun _ member => past ▸ List.mem_cons_of_mem _ member)
      refine ⟨?_, ?_, ?_⟩
      · intro rest reads
        rw [upgrade, package]
        exact older.reading rest (pc.symm.trans reads)
      · intro after
        rw [upgrade]
        exact older.finished (pc ▸ after)
      · intro other found exit
        rw [exits, List.getElem?_set] at exit
        split at exit
        · rename_i same
          split at exit
          · cases exit
            rw [past, same]
            exact List.mem_cons_self
          · contradiction
        · exact older.exited other found exit
  | goes spent exits last reports past =>
      have older := trace.mono (fun _ member => past.mem member)
      refine ⟨fun rest reads => absurd reads (spent.2 rest), ?_, ?_⟩
      · intro after
        rw [upgrade]
        rcases after with atLock | atReport
        · exact (older.reading [] (last atLock)).2
        · exact older.finished (.inl (reports atReport))
      · intro command status exit
        exact older.exited command status (exits ▸ exit)

/-! ### Complete packages -/

theorem Downloaded.grows {past later : List Event} {package : Nat}
    (downloaded : Downloaded past package)
    (grows : GrowsBy past later (fun event =>
      ∀ index command left, event ≠ .downloadStarted package index command left)) :
    Downloaded later package := by
  constructor
  · obtain ⟨index, command, member⟩ := downloaded.begun
    exact ⟨index, command, grows.mem member⟩
  · intro index command left member
    refine grows.mem (downloaded.exited index command left ?_)
    obtain ⟨new, rfl, each⟩ := grows
    rcases List.mem_append.mp member with fresh | old
    · exact absurd rfl (each _ fresh index command left)
    · exact old

theorem UploadedSince.grows {past later : List Event} {package : Nat} {logged : Event → Prop}
    (uploaded : UploadedSince past package) (grows : GrowsBy past later logged) :
    UploadedSince later package := by
  obtain ⟨new, rfl, _⟩ := grows
  obtain ⟨since, index, earlier, rfl, downloaded, exited⟩ := uploaded
  exact ⟨new ++ since, index, earlier, (List.append_assoc _ _ _).symm, downloaded,
    List.mem_append_right new exited⟩

/-- The package is downloaded, and nothing is left that would start another
command for it. -/
structure Complete (state : State) (package : Nat) : Prop where
  downloaded : Downloaded state.shared.past package
  known : package ≤ state.shared.upgrade
  spent : ∀ index found, state.At index (.downloader found) → found.upgrade = package → found.Spent

/-- The package is complete and uploaded. -/
structure Prepared (state : State) (package : Nat) : Prop where
  complete : Complete state package
  since : UploadedSince state.shared.past package

theorem Prepared.uploaded {state : State} {package : Nat} (prepared : Prepared state package) :
    Uploaded state.shared.past package :=
  ⟨prepared.complete.downloaded, prepared.since⟩

def DownloadsTraced (state : State) : Prop :=
  state.Each (fun index thread => ∀ found, thread = .downloader found →
    DownloaderTrace state.shared.past index found)

theorem DownloadsTraced.use {before : State} {index : Nat} {thread : DmcDownloaderThread}
    {act : Act} {done : Done} (traced : DownloadsTraced before)
    (here : before.At index (.downloader thread))
    (step : Step before.shared index (.downloader thread) act done)
    (stays : (Thread.downloader thread).StaysWithPackage before.shared act) :
    ∃ next, done.thread = .downloader next ∧ next.upgrade = thread.upgrade ∧
      DownloadUse before.shared index thread done next := by
  have trace := traced index _ here thread rfl
  exact step.downloadUse stays (fun rest reads => (trace.reading rest reads).1)

theorem Complete.apply {before : State} {index package : Nat} {thread : Thread} {act : Act}
    {done : Done} (complete : Complete before package) (tags : TagsBounded before)
    (traced : DownloadsTraced before) (here : before.At index thread)
    (step : Step before.shared index thread act done)
    (stays : thread.StaysWithPackage before.shared act) :
    Complete (before.apply index done) package := by
  have fresh (found : DmcDownloaderThread) (started : .downloader found ∈ done.spawned) :
      found.upgrade ≠ package := by
    have known := complete.known
    rcases step.downloader_spawned with none_ | ⟨only, _, _⟩
    · exact absurd rfl (none_ _ started found)
    · rw [only, List.mem_singleton] at started
      cases started
      exact Nat.ne_of_gt (Nat.lt_succ_of_le known)
  have known := Nat.le_trans complete.known (step.tags (tags index thread here)).1
  have apart (self : ∀ found, done.thread = .downloader found → found.upgrade = package →
      found.Spent) (position : Nat) (found : DmcDownloaderThread)
      (there : (before.apply index done).At position (.downloader found))
      (same : found.upgrade = package) : found.Spent := by
    rcases here.of_apply there with ⟨_, isSelf⟩ | ⟨_, old⟩ | ⟨_, started⟩
    · exact self found isSelf.symm same
    · exact complete.spent position found old same
    · exact absurd same (fresh found started)
  by_cases isDownloader : ∃ found, thread = .downloader found
  · obtain ⟨downloader, rfl⟩ := isDownloader
    obtain ⟨next, made, upgrade, use⟩ := traced.use here step stays
    have spent (same : downloader.upgrade = package) : downloader.Spent :=
      complete.spent index downloader here same
    cases use with
    | opens rest here_ pc own exits past =>
        have other : downloader.upgrade ≠ package := fun same => here_ (spent same)
        refine ⟨complete.downloaded.grows ⟨[_], past, ?_⟩, known, apart ?_⟩
        · simp [other]
        · intro found isNext same
          cases made.symm.trans isNext
          exact absurd (upgrade.symm.trans same) other
    | exits command status pc own exits past =>
        refine ⟨complete.downloaded.grows ⟨[_], past, by simp⟩, known, apart ?_⟩
        intro found isNext same
        cases made.symm.trans isNext
        have spentNow := spent (upgrade.symm.trans same)
        exact ⟨pc ▸ spentNow.1, pc ▸ spentNow.2⟩
    | goes spentNow exits last reports past =>
        refine ⟨complete.downloaded.grows (past.mono ?_), known, apart ?_⟩
        · rintro event none_ position command left rfl
          exact none_ trivial
        · intro found isNext same
          cases made.symm.trans isNext
          exact spentNow
  · obtain ⟨notMade, past⟩ := step.downloaders (fun found same => isDownloader ⟨found, same⟩)
    refine ⟨complete.downloaded.grows (past.mono ?_), known, apart ?_⟩
    · rintro event none_ position command left rfl
      exact none_ trivial
    · intro found isNext
      exact absurd isNext (notMade found)

/-! ### Uploads -/

structure UploaderTrace (shared : Shared) (index : Nat) (thread : CgwPkgUploadThread) :
    Prop where
  fresh : thread.pc = .start → thread.exit = none
  uploads : thread.pc ≠ .start → thread.upgrade = shared.upgrade →
    ∃ later earlier, shared.past = later ++ .uploadStarted thread.upgrade index :: earlier ∧
      Downloaded earlier thread.upgrade ∧
      ∀ status, thread.exit = some status → .uploadExited index status ∈ later

theorem UploaderTrace.grows {shared after : Shared} {index : Nat} {thread : CgwPkgUploadThread}
    {logged : Event → Prop} (trace : UploaderTrace shared index thread)
    (tag : thread.upgrade ≤ shared.upgrade) (upgrade : shared.upgrade ≤ after.upgrade)
    (grows : GrowsBy shared.past after.past logged) : UploaderTrace after index thread := by
  refine ⟨trace.fresh, ?_⟩
  intro begun current
  have same : thread.upgrade = shared.upgrade := by omega
  obtain ⟨new, past, _⟩ := grows
  obtain ⟨later, earlier, split, downloaded, exited⟩ := trace.uploads begun same
  refine ⟨new ++ later, earlier, ?_, downloaded, ?_⟩
  · rw [past, split, List.append_assoc]
  · intro status exit
    exact List.mem_append_right new (exited status exit)

private theorem UploaderTrace.uploadedSince {shared : Shared} {index : Nat}
    {thread : CgwPkgUploadThread} (trace : UploaderTrace shared index thread)
    (begun : thread.pc ≠ .start) (current : thread.upgrade = shared.upgrade)
    (exit : thread.exit = some 0) : UploadedSince shared.past shared.upgrade := by
  obtain ⟨later, earlier, split, downloaded, exited⟩ := trace.uploads begun current
  rw [← current]
  exact ⟨later, index, earlier, split, downloaded, exited 0 exit⟩

private theorem Step.uploaderTrace {shared : Shared} {self : Nat} {thread : CgwPkgUploadThread}
    {act : Act} {done : Done} (step : Step shared self (.uploader thread) act done)
    (downloaded : Downloaded shared.past thread.upgrade)
    (trace : UploaderTrace shared self thread) :
    ∃ next, done.thread = .uploader next ∧ UploaderTrace done.shared self next := by
  cases step with
  | uploaderStarts _ here =>
      refine ⟨_, rfl, by simp, ?_⟩
      intro _ current
      have same : shared.upgrade = thread.upgrade := current.symm
      refine ⟨[], shared.past, by simp [same], downloaded, ?_⟩
      intro status exit
      rw [trace.fresh here] at exit
      contradiction
  | uploaderReads _ here =>
      exact ⟨_, rfl, by simp, fun _ => trace.uploads (by simp [here])⟩
  | uploaderLocks _ here =>
      exact ⟨_, rfl, by simp, fun _ => trace.uploads (by simp [here])⟩
  | uploaderSets _ here =>
      refine ⟨_, rfl, by simp, ?_⟩
      intro _ current
      obtain ⟨later, earlier, split, was, exited⟩ := trace.uploads (by simp [here]) current
      refine ⟨.uploaded :: later, earlier, by simp [split], was, ?_⟩
      intro status exit
      exact List.mem_cons_of_mem _ (exited status exit)
  | uploaderUnlocks _ here =>
      exact ⟨_, rfl, by simp, fun _ => trace.uploads (by simp [here])⟩
  | uploadExits _ status here running =>
      refine ⟨_, rfl, fun start => absurd start here, ?_⟩
      intro _ current
      obtain ⟨later, earlier, split, was, exited⟩ := trace.uploads here current
      refine ⟨.uploadExited self status :: later, earlier, by simp [split], was, ?_⟩
      intro found exit
      cases exit
      exact List.mem_cons_self

/-! ### What each thread has behind it -/

/-- A /pkg/new request and an uploader belong to a complete package, START_UPGRADE
and a /tdr/run request to one that is prepared. -/
def Thread.Backed (complete prepared : Nat → Prop) : Thread → Prop
  | .cgw thread =>
      match thread.api with
      | .pkgNew => complete thread.upgrade
      | .tdrRun => prepared thread.upgrade
      | .pkgStat | .tdrStat => True
  | .uploader thread => complete thread.upgrade
  | .hmi (.waiting _ request) | .hmi (.lock request) | .hmi (.acting request) =>
      prepared request.upgrade
  | _ => True

private theorem Thread.Backed.mono {complete prepared completeLater preparedLater : Nat → Prop}
    {thread : Thread} (backed : thread.Backed complete prepared)
    (completes : ∀ package, complete package → completeLater package)
    (prepares : ∀ package, prepared package → preparedLater package) :
    thread.Backed completeLater preparedLater := by
  cases thread with
  | cgw thread =>
      obtain ⟨api, upgrade, pc, conn, postData⟩ := thread
      cases api with
      | pkgNew => exact completes _ backed
      | tdrRun => exact prepares _ backed
      | _ => trivial
  | uploader thread => exact completes _ backed
  | hmi pc =>
      cases pc with
      | waiting t request => exact prepares _ backed
      | lock request => exact prepares _ backed
      | acting request => exact prepares _ backed
      | _ => trivial
  | _ => trivial

private theorem Handling.started_backed {shared : Shared} {self : Nat} {thread : CgwMsgThread}
    {event : CgwEvent} {handled : Handled} {complete prepared : Nat → Prop}
    (handling : Handling shared self thread.upgrade thread.api event handled)
    (was : (Thread.cgw thread).Backed complete prepared) :
    ∀ found ∈ handled.started, found.Backed complete prepared := by
  intro found fresh
  rcases handling.started_cases fresh with ⟨uploads, rfl⟩ | ⟨_, rfl⟩
  · simp only [Thread.Backed, uploads] at was
    exact was
  · trivial

private theorem Step.backed {shared : Shared} {self : Nat} {thread : Thread} {act : Act} {done : Done}
    {complete prepared : Nat → Prop} (step : Step shared self thread act done)
    (was : thread.Backed complete prepared)
    (ready : shared.gStat = .orchPkgReady → prepared shared.upgrade)
    (reports : ∀ found, thread = .downloader found → act = .tick → found.pc = .report →
      found.exits.getLast? = some (some 0) → complete found.upgrade) :
    done.thread.Backed complete prepared ∧
      ∀ found ∈ done.spawned, found.Backed complete prepared := by
  cases step with
  | mainAccepts nc after keeps => simp [Thread.Backed]
  | mainAnnounces nc after keeps => simp [Thread.Backed]
  | mainManifest root effect accepts =>
      simp [accepts.started, Thread.downloaderStart, Thread.Backed]
  | hmiStarts root after respLen keeps atReady start => exact ⟨ready atReady, by simp⟩
  | hmiActs request => exact ⟨trivial, by simpa [Thread.cgwStart, Thread.Backed] using was⟩
  | cgwHandles thread here event conn had handled handling =>
      exact ⟨was, handling.started_backed was⟩
  | downloaderReports thread here succeeded =>
      have complete_ := reports thread rfl rfl here succeeded
      exact ⟨trivial, by simpa [Thread.cgwStart, Thread.Backed] using complete_⟩
  | _ => exact ⟨was, by simp⟩

private theorem Handling.not_ready {shared : Shared} {self caller : Nat} {api : Api} {event : CgwEvent}
    {handled : Handled} (handling : Handling shared self caller api event handled)
    (ready : handled.shared.gStat = .orchPkgReady) : shared.gStat = .orchPkgReady := by
  cases handling with
  | closed _ => exact ready
  | pkgStatReady body found => exact ready
  | tdrRunReplied body => exact ready
  | tdrStatBadJson body bad => exact ready
  | tdrStatReports body result reported verdict carried settled =>
      obtain ⟨_, _, _, _, verdicts⟩ := tdrStatReport_keeps settled
      rcases verdicts with ⟨_, rfl⟩ | ⟨_, rfl⟩ | ⟨_, rfl⟩ <;> cases ready
  | _ => cases ready

private theorem logConnect_gStat (shared : Shared) (api : Api) (event : CgwEvent) :
    (logConnect shared api event).gStat = shared.gStat := by
  cases event <;> rfl

/-- ORCH_PKG_READY is there already, or set by START_UPGRADE or an uploader. -/
theorem Step.ready {shared : Shared} {self : Nat} {thread : Thread} {act : Act} {done : Done}
    (step : Step shared self thread act done) (ready : done.shared.gStat = .orchPkgReady) :
    done.shared.upgrade = shared.upgrade ∧
      (shared.gStat = .orchPkgReady ∨
        act = .tick ∧ ((∃ request, thread = .hmi (.acting request)) ∨
          ∃ found, thread = .uploader found ∧ found.pc = .set)) := by
  cases step with
  | mainAccepts nc after keeps => exact ⟨keeps.upgrade, .inl (keeps.gStat.symm.trans ready)⟩
  | mainAnnounces nc after keeps => exact ⟨keeps.upgrade, .inl (keeps.gStat.symm.trans ready)⟩
  | mainManifest root effect accepts =>
      rw [accepts.gStat] at ready
      cases ready
  | mainDownloading => cases ready
  | hmiServes act after keeps => exact ⟨keeps.upgrade, .inl (keeps.gStat.symm.trans ready)⟩
  | hmiStarts root after respLen keeps atReady => exact ⟨keeps.upgrade, .inl atReady⟩
  | hmiActs request => exact ⟨rfl, .inr ⟨rfl, .inl ⟨request, rfl⟩⟩⟩
  | hmiUnlocks request after keeps => exact ⟨keeps.upgrade, .inl (keeps.gStat.symm.trans ready)⟩
  | monitorServes act after keeps => exact ⟨keeps.upgrade, .inl (keeps.gStat.symm.trans ready)⟩
  | cgwHandles thread here event conn had handled handling =>
      have was := handling.not_ready ready
      rw [logConnect_gStat] at was
      exact ⟨handling.frame.upgrade.trans (logConnect_frame _ _ _).upgrade, .inl was⟩
  | downloaderReports thread here succeeded => cases ready
  | uploaderSets thread here => exact ⟨rfl, .inr ⟨rfl, .inr ⟨thread, rfl, here⟩⟩⟩
  | _ => exact ⟨rfl, .inl ready⟩

/-! ### The invariant -/

def Thread.Downloads (package : Nat) : Thread → Prop
  | .downloader thread => thread.upgrade = package
  | _ => False

/-- Each upgrade has one downloader, to which all download commands of its
package belong; every thread is backed; and so is ORCH_PKG_READY. -/
structure TraceInvariant (state : State) : Prop where
  single : ∀ package, state.AtMostOne (Thread.Downloads package)
  started : ∀ package index command left,
    .downloadStarted package index command left ∈ state.shared.past →
      ∃ found, state.At index (.downloader found) ∧ found.upgrade = package ∧
        command < found.exits.length
  downloads : DownloadsTraced state
  backed : state.Each (fun _ thread => thread.Backed (Complete state) (Prepared state))
  uploads : state.Each (fun index thread => ∀ found, thread = .uploader found →
    UploaderTrace state.shared index found)
  ready : state.shared.gStat = .orchPkgReady → Prepared state state.shared.upgrade

theorem TraceInvariant.complete {state : State} {index : Nat} {thread : DmcDownloaderThread}
    (invariant : TraceInvariant state) (tags : TagsBounded state)
    (here : state.At index (.downloader thread)) (reports : thread.pc = .report)
    (exited : ∀ exit ∈ thread.exits, exit = some 0) : Complete state thread.upgrade := by
  have trace := invariant.downloads index _ here thread rfl
  have only (position : Nat) (found : DmcDownloaderThread)
      (there : state.At position (.downloader found)) (same : found.upgrade = thread.upgrade) :
      position = index ∧ found = thread := by
    have alike : position = index :=
      invariant.single thread.upgrade position index _ _ there here same rfl
    subst alike
    cases Pool.At.unique there here
    exact ⟨rfl, rfl⟩
  refine ⟨⟨?_, ?_⟩, tags index _ here, ?_⟩
  · obtain ⟨command, member⟩ := trace.finished (.inr reports)
    exact ⟨index, command, member⟩
  · intro position command left member
    obtain ⟨found, there, same, bound⟩ := invariant.started _ _ _ _ member
    obtain ⟨rfl, rfl⟩ := only position found there same
    refine trace.exited command 0 ?_
    rw [List.getElem?_eq_getElem bound, exited _ (List.getElem_mem bound)]
  · intro position found there same
    obtain ⟨rfl, rfl⟩ := only position found there same
    simp [DmcDownloaderThread.Spent, reports]

private theorem TraceInvariant.single_kept {before : State} {index : Nat} {thread : Thread} {act : Act}
    {done : Done} (invariant : TraceInvariant before) (tags : TagsBounded before)
    (here : before.At index thread) (step : Step before.shared index thread act done)
    (stays : thread.StaysWithPackage before.shared act) (package : Nat) :
    (before.apply index done).AtMostOne (Thread.Downloads package) := by
  have self (made : done.thread.Downloads package) : thread.Downloads package := by
    by_cases isDownloader : ∃ found, thread = .downloader found
    · obtain ⟨downloader, rfl⟩ := isDownloader
      obtain ⟨next, isNext, upgrade, _⟩ := invariant.downloads.use here step stays
      rw [isNext] at made
      exact upgrade.symm.trans made
    · have notMade := (step.downloaders (fun found same => isDownloader ⟨found, same⟩)).1
      cases same : done.thread with
      | downloader found => exact absurd same (notMade found)
      | _ =>
          rw [same] at made
          cases made
  rcases step.downloader_spawned with none_ | ⟨only, _, isMain⟩
  · refine (invariant.single package).keep here self ?_
    intro found started downloads
    cases found with
    | downloader found => exact none_ _ started found rfl
    | _ => cases downloads
  · by_cases fresh : package = before.shared.upgrade + 1
    · refine Pool.AtMostOne.pass here ?_ (by rw [isMain]; exact id) only
      intro other found _ there downloads
      cases found with
      | downloader found =>
          have tag : found.upgrade ≤ before.shared.upgrade := tags other _ there
          have same : found.upgrade = package := downloads
          omega
      | _ => cases downloads
    · refine (invariant.single package).keep here self ?_
      rw [only]
      intro found started downloads
      obtain rfl := List.mem_singleton.mp started
      exact fresh downloads.symm

private theorem TraceInvariant.started_kept {before : State} {index : Nat} {thread : Thread}
    {act : Act} {done : Done} (invariant : TraceInvariant before)
    (here : before.At index thread) (step : Step before.shared index thread act done)
    (stays : thread.StaysWithPackage before.shared act) {package position command left : Nat}
    (member : .downloadStarted package position command left ∈ done.shared.past) :
    ∃ found, (before.apply index done).At position (.downloader found) ∧
      found.upgrade = package ∧ command < found.exits.length := by
  by_cases isDownloader : ∃ found, thread = .downloader found
  · obtain ⟨downloader, rfl⟩ := isDownloader
    obtain ⟨next, made, upgrade, use⟩ := invariant.downloads.use here step stays
    have self : (before.apply index done).At index (.downloader next) := made ▸ here.apply_self
    have old (longer : downloader.exits.length ≤ next.exits.length)
        (was : .downloadStarted package position command left ∈ before.shared.past) :
        ∃ found, (before.apply index done).At position (.downloader found) ∧
          found.upgrade = package ∧ command < found.exits.length := by
      obtain ⟨found, there, same, bound⟩ := invariant.started _ _ _ _ was
      by_cases isSelf : position = index
      · subst isSelf
        cases Pool.At.unique there here
        exact ⟨next, self, upgrade.trans same, by omega⟩
      · exact ⟨found, there.apply_other isSelf, same, bound⟩
    cases use with
    | opens rest _ pc own exits past =>
        rw [past] at member
        rcases List.mem_cons.mp member with fresh | was
        · cases fresh
          exact ⟨next, self, upgrade, by simp [exits]⟩
        · exact old (by simp [exits]) was
    | exits found status pc own exits past =>
        rw [past] at member
        rcases List.mem_cons.mp member with fresh | was
        · cases fresh
        · exact old (by simp [exits]) was
    | goes spent exits last reports past =>
        obtain ⟨new, split, each⟩ := past
        rw [split] at member
        rcases List.mem_append.mp member with fresh | was
        · exact absurd trivial (each _ fresh)
        · exact old (by simp [exits]) was
  · obtain ⟨_, new, split, each⟩ := step.downloaders (fun found same => isDownloader ⟨found, same⟩)
    rw [split] at member
    rcases List.mem_append.mp member with fresh | was
    · exact absurd trivial (each _ fresh)
    · obtain ⟨found, there, same, bound⟩ := invariant.started _ _ _ _ was
      refine ⟨found, there.apply_other ?_, same, bound⟩
      intro isSelf
      subst isSelf
      exact isDownloader ⟨found, here.unique there⟩

private theorem TraceInvariant.downloads_kept {before : State} {index : Nat} {thread : Thread}
    {act : Act} {done : Done} (invariant : TraceInvariant before)
    (here : before.At index thread) (step : Step before.shared index thread act done)
    (stays : thread.StaysWithPackage before.shared act) :
    DownloadsTraced (before.apply index done) := by
  refine invariant.downloads.apply here ?_ ?_ ?_
  · intro found isNext
    by_cases isDownloader : ∃ found, thread = .downloader found
    · obtain ⟨downloader, rfl⟩ := isDownloader
      obtain ⟨next, made, upgrade, use⟩ := invariant.downloads.use here step stays
      cases made.symm.trans isNext
      exact use.trace upgrade (invariant.downloads index _ here downloader rfl)
    · exact absurd isNext
        ((step.downloaders (fun found same => isDownloader ⟨found, same⟩)).1 found)
  · intro other found _ _ was downloader same
    exact (was downloader same).mono (fun event member => step.grows.mem member)
  · intro other found _ fresh downloader same
    subst same
    rcases step.downloader_spawned with none_ | ⟨only, _, _⟩
    · exact absurd rfl (none_ _ fresh downloader)
    · rw [only, List.mem_singleton] at fresh
      cases fresh
      exact ⟨by simp, by simp, by simp⟩

private theorem Handling.started_uploader {shared : Shared} {self caller : Nat} {api : Api}
    {event : CgwEvent} {handled : Handled}
    (handling : Handling shared self caller api event handled) {thread : CgwPkgUploadThread}
    (started : .uploader thread ∈ handled.started) : thread.pc = .start ∧ thread.exit = none := by
  rcases handling.started_cases started with ⟨_, same⟩ | ⟨_, same⟩
  · cases same
    exact ⟨rfl, rfl⟩
  · cases same

private theorem Step.uploaders {shared : Shared} {self : Nat} {thread : Thread} {act : Act}
    {done : Done} (step : Step shared self thread act done) :
    (∀ found, done.thread = .uploader found → ∃ old, thread = .uploader old) ∧
      ∀ found, .uploader found ∈ done.spawned → found.pc = .start ∧ found.exit = none := by
  cases step with
  | mainManifest root effect accepts =>
      simp [accepts.started, Thread.downloaderStart]
  | cgwHandles thread here event conn had handled handling =>
      exact ⟨by simp, fun found started => handling.started_uploader started⟩
  | _ => simp [Thread.cgwStart]

private theorem TraceInvariant.uploads_kept {before : State} {index : Nat} {thread : Thread}
    {act : Act} {done : Done} (invariant : TraceInvariant before) (tags : TagsBounded before)
    (here : before.At index thread) (step : Step before.shared index thread act done) :
    (before.apply index done).Each (fun index thread => ∀ found, thread = .uploader found →
      UploaderTrace done.shared index found) := by
  obtain ⟨comes, starts⟩ := step.uploaders
  refine invariant.uploads.apply here ?_ ?_ ?_
  · intro found isNext
    obtain ⟨old, rfl⟩ := comes found isNext
    have complete : Complete before old.upgrade := invariant.backed index _ here
    obtain ⟨next, made, trace⟩ :=
      step.uploaderTrace complete.downloaded (invariant.uploads index _ here old rfl)
    cases made.symm.trans isNext
    exact trace
  · intro other found _ there was uploader same
    subst same
    exact (was uploader rfl).grows (tags other _ there) (step.tags (tags index _ here)).1
      step.grows
  · intro other found _ fresh uploader same
    subst same
    obtain ⟨start, exit⟩ := starts uploader fresh
    exact ⟨fun _ => exit, fun begun => absurd start begun⟩

theorem TraceInvariant.step {before : State} {index : Nat} {thread : Thread} {act : Act}
    {done : Done} (invariant : TraceInvariant before) (tags : TagsBounded before)
    (here : before.At index thread) (step : Step before.shared index thread act done)
    (stays : thread.StaysWithPackage before.shared act) :
    TraceInvariant (before.apply index done) := by
  have completes (package : Nat) (complete : Complete before package) :
      Complete (before.apply index done) package :=
    complete.apply tags invariant.downloads here step stays
  have prepares (package : Nat) (prepared : Prepared before package) :
      Prepared (before.apply index done) package :=
    ⟨completes package prepared.complete, prepared.since.grows step.grows⟩
  have backedHere := (invariant.backed index thread here).mono completes prepares
  obtain ⟨self, started⟩ := step.backed backedHere
    (fun atReady => prepares _ (invariant.ready atReady))
    (by
      intro downloader same tick reports succeeded
      subst same tick
      exact completes _ (invariant.complete tags here reports (stays reports succeeded).2))
  refine ⟨invariant.single_kept tags here step stays, ?_,
    invariant.downloads_kept here step stays, ?_, invariant.uploads_kept tags here step, ?_⟩
  · intro package position command left member
    exact invariant.started_kept here step stays member
  · refine invariant.backed.apply here self ?_ (fun _ found _ fresh => started found fresh)
    intro other found _ _ was
    exact was.mono completes prepares
  · intro atReady
    obtain ⟨upgrade, was | ⟨rfl, ⟨request, rfl⟩ | ⟨uploader, rfl, sets⟩⟩⟩ := step.ready atReady
    · rw [Pool.apply_shared, upgrade]
      exact prepares _ (invariant.ready was)
    · rw [Pool.apply_shared, upgrade]
      rcases stays with current | was
      · have prepared : Prepared before request.upgrade := invariant.backed index _ here
        exact current ▸ prepares _ prepared
      · exact prepares _ (invariant.ready was)
    · rw [Pool.apply_shared, upgrade]
      obtain ⟨current, exit⟩ := stays sets
      have complete : Complete before uploader.upgrade := invariant.backed index _ here
      have trace := invariant.uploads index _ here uploader rfl
      refine prepares _ ⟨current ▸ complete, ?_⟩
      exact trace.uploadedSince (by simp [sets]) current exit

/-! ### Runs -/

private theorem traceInvariant_of_reaches {state : State}
    (reached : system.Reaches StaysWithPackage state) : TraceInvariant state := by
  have start : TraceInvariant system.initial := by
    refine ⟨?_, ?_, ?_, ?_, ?_, ?_⟩
    · intro package first second left right atFirst atSecond _ _
      exact (system_initial_at atFirst).1.trans (system_initial_at atSecond).1.symm
    · intro package index command left member
      cases member
    · intro index thread there found same
      cases (system_initial_at there).2.symm.trans same
    · intro index thread there
      rw [(system_initial_at there).2]
      trivial
    · intro index thread there found same
      cases (system_initial_at there).2.symm.trans same
    · intro ready
      cases ready
  refine Machine.Reaches.invariant start ?_ reached
  intro before move after earlier invariant allowed taken
  obtain ⟨thread, done, here, step, rfl⟩ := Step.of_move taken
  exact invariant.step (tagsBounded_of_reaches earlier) here step (allowed thread here)

/-- In runs that stay with their packages every step traces the package it goes
on with. -/
theorem tracesPackage_of_staysWithPackage {before after : State} {move : Move}
    (reached : system.Reaches StaysWithPackage before) (stays : StaysWithPackage before move)
    (taken : system.step before move = some after) :
    TracesPackage before.shared after.shared := by
  have invariant := traceInvariant_of_reaches reached
  have tags := tagsBounded_of_reaches reached
  have later := traceInvariant_of_reaches (reached.step stays taken)
  obtain ⟨thread, done, here, step, rfl⟩ := Step.of_move taken
  have staysHere := stays thread here
  refine ⟨?_, fun ready => (later.ready ready).uploaded, ?_⟩
  · intro logs
    obtain ⟨tick, downloader, rfl, reports, succeeded⟩ := step.grows.of_logs logs
    rw [tick] at staysHere
    obtain ⟨current, exited⟩ := staysHere reports succeeded
    rw [← current]
    exact (invariant.complete tags here reports exited).downloaded
  · intro package logs
    obtain ⟨tick, named, request, rfl, isRun, starts⟩ := step.grows.of_logs logs
    rw [tick] at staysHere
    rw [named]
    rcases staysHere isRun starts with current | ready
    · obtain ⟨api, upgrade, pc, conn, postData⟩ := request
      dsimp only at isRun current
      subst isRun
      have prepared : Prepared before upgrade := invariant.backed move.1 _ here
      exact current ▸ prepared.uploaded
    · exact (invariant.ready ready).uploaded

/-- The first /tdr/run request of a first WPC package. -/
theorem firstRun_traces :
    ∃ before after, system.run system.initial (packageReady ++ hmiConnects ++ startUpgrades) =
        some before ∧
      system.step before (6, .tick) = some after ∧
        TracesPackage before.shared after.shared := by
  refine ⟨_, _, rfl, rfl, ?_⟩
  refine @tracesPackage_of_staysWithPackage _ _ (6, .tick) ?_ ?_ rfl
  · exact Machine.Reaches.of_run (packageReady ++ hmiConnects ++ startUpgrades) .initial
      (by decide) rfl
  · decide

def firstCommandFails : List Move :=
  manifestArrives StubManifest.maniVdcm.root ++
    [(3, .popen true), (3, .exit 0 22), (3, .popen true), (3, .exit 1 0), (3, .popen true),
      (3, .exit 2 0), (3, .eof), (3, .tick)]

theorem failed_download_ready :
    ¬ ∀ before move after, system.Reachable before → system.step before move = some after →
      TracesPackage before.shared after.shared := by
  intro always
  have ran : ∃ before after, system.run system.initial firstCommandFails = some before ∧
      system.step before (3, .tick) = some after ∧
        after.shared.past =
          [.started .pkgNew, .core .dlcPkgReady] ++ before.shared.past ∧
        .downloadStarted before.shared.upgrade 3 0 2 ∈ before.shared.past ∧
        .downloadExited 3 0 0 ∉ before.shared.past :=
    ⟨_, _, rfl, rfl, rfl, by decide, by decide⟩
  obtain ⟨before, after, earlier, taken, logs, started, failed⟩ := ran
  have traces := always before (3, .tick) after (Machine.Reachable.of_run earlier) taken
  have downloaded := traces.downloaded ⟨_, logs, by simp⟩
  exact failed (downloaded.exited 3 0 2 started)

end DlcServer
