/-
What a rejected manifest leads to.

`dmc_msg_parse` rejects with STAT_INVALID, which `core_state_handler` takes as
the order to keep the state.  It then goes on as after any other call, to the
branch of the state that is current.
-/

import DlcServer.ManifestPath

namespace DlcServer

open Library

/-- `core_state_handler(dmc_msg_parse(json))`, with the threads it starts. -/
def coreOnManifest (shared : Shared) (root : Option CJson) : Except Fault Effect :=
  match dmcMsgParse shared.gCtx.curManifest shared.gCtx.pkgUrl root with
  | .error fault => .error fault
  | .ok parsed =>
      let stored :=
        { shared with
          gCtx :=
            { shared.gCtx with
              curManifest := parsed.curManifest
              pkgUrl := parsed.pkgUrl } }
      .ok (coreStateHandler stored parsed.nextStat shared.upgrade)

theorem handleManifest_eq (shared : Shared) (root : Option CJson) :
    handleManifest shared root = (coreOnManifest shared root).map Effect.shared := by
  unfold handleManifest coreOnManifest
  cases dmcMsgParse shared.gCtx.curManifest shared.gCtx.pkgUrl root with
  | error fault => rfl
  | ok parsed => rfl

/-- The text is one `dmc_msg_parse` returns STAT_INVALID for. -/
def Rejected (shared : Shared) (root : Option CJson) : Prop :=
  ∃ parsed, dmcMsgParse shared.gCtx.curManifest shared.gCtx.pkgUrl root = .ok parsed ∧
    parsed.nextStat = .statInvalid

/-- State and context are as they were, and nothing has been started. -/
structure NoEffect (before : Shared) (effect : Effect) : Prop where
  gStat : effect.shared.gStat = before.gStat
  gCtx : effect.shared.gCtx = before.gCtx
  started : effect.started = []

/-- The state has a branch in `core_state_handler` that does something. -/
def Dispatches (shared : Shared) : Prop :=
  match shared.gStat with
  | .dlcPkgNew | .dlcPkgReady | .orchPkgReady | .orchTdrRun => True
  | .orchPkgDownloading => shared.nc .pkgStat = none
  | _ => False

private theorem coreOnManifest_of_rejected {shared : Shared} {root : Option CJson}
    (rejected : Rejected shared root) :
    coreOnManifest shared root = .ok (coreStateHandler shared .statInvalid shared.upgrade) := by
  obtain ⟨parsed, parses, invalid⟩ := rejected
  rcases dmcMsgParse_cases shared.gCtx.curManifest shared.gCtx.pkgUrl root with
    unstored | ⟨failed, _⟩ | ⟨tree, package, ecu, res, url, name, rfl, judged⟩
  · unfold coreOnManifest
    rw [unstored]
  · rw [failed] at parses
    cases parses
  · rw [dmcMsgParse_of_judged judged] at parses
    by_cases wpc : name = text "WPC"
    · rw [if_pos wpc] at parses
      cases copied : strcpyInto pkgCdnUrlCapacity url.valuestring with
      | error fault =>
          rw [copied] at parses
          cases parses
      | ok value =>
          rw [copied] at parses
          cases parses
          cases invalid
    · rw [if_neg wpc] at parses
      cases parses
      cases invalid

private theorem noEffect_invalid_iff (shared : Shared) (caller : Nat) :
    NoEffect shared (coreStateHandler shared .statInvalid caller) ↔ ¬ Dispatches shared := by
  have entered : (coreEnter shared .statInvalid).gStat = shared.gStat := rfl
  have connections : (coreEnter shared .statInvalid).nc .pkgStat = shared.nc .pkgStat := rfl
  have starts {effect : Effect} (some_ : effect.started ≠ []) (acts : Dispatches shared) :
      NoEffect shared effect ↔ ¬ Dispatches shared :=
    ⟨fun none_ => absurd none_.started some_, fun idle => absurd acts idle⟩
  have keeps (idle : ¬ Dispatches shared) :
      NoEffect shared { shared := coreEnter shared .statInvalid, started := [] } ↔
        ¬ Dispatches shared :=
    ⟨fun _ => idle, fun _ => ⟨rfl, rfl, rfl⟩⟩
  unfold coreStateHandler
  simp only [entered, connections]
  cases state : shared.gStat with
  | dlcPkgNew => exact starts (by simp) (by simp [Dispatches, state])
  | dlcPkgReady => exact starts (by simp) (by simp [Dispatches, state])
  | orchPkgReady => exact starts (by simp) (by simp [Dispatches, state])
  | orchTdrRun => exact starts (by simp) (by simp [Dispatches, state])
  | orchPkgDownloading =>
      by_cases free : shared.nc .pkgStat = none
      · simp only [if_pos free]
        exact starts (by simp) (by simp [Dispatches, state, free])
      · simp only [if_neg free]
        exact keeps (by simp [Dispatches, state, free])
  | _ => exact keeps (by simp [Dispatches, state])

/-- A rejected manifest has no effect exactly in the states for which
`core_state_handler` has nothing to do. -/
theorem rejected_noEffect_iff {shared : Shared} {root : Option CJson}
    (rejected : Rejected shared root) :
    (∃ effect, coreOnManifest shared root = .ok effect ∧ NoEffect shared effect) ↔
      ¬ Dispatches shared := by
  rw [coreOnManifest_of_rejected rejected]
  constructor
  · rintro ⟨effect, same, none_⟩
    cases same
    exact (noEffect_invalid_iff shared shared.upgrade).mp none_
  · intro idle
    exact ⟨_, rfl, (noEffect_invalid_iff shared shared.upgrade).mpr idle⟩

/-- The package is being downloaded, and its state has been asked for. -/
def askedPkgStat : Shared :=
  (Shared.init.setStat .orchPkgDownloading).setNc .pkgStat (some 3)

/-- An object without a manifest. -/
theorem rejected_while_downloading :
    ∃ effect, coreOnManifest askedPkgStat
        (CJson.parse (fun _ => 1) Json.parse (text "\x7b\x7d")) = .ok effect ∧
      NoEffect askedPkgStat effect ∧
      handleManifest askedPkgStat
        (CJson.parse (fun _ => 1) Json.parse (text "\x7b\x7d")) = .ok effect.shared := by
  have root : CJson.parse (fun _ => 1) Json.parse (text "\x7b\x7d") =
      some (CJson.ofJson (fun _ => 1) none (.object [])) := by rfl
  have rejected : Rejected askedPkgStat
      (CJson.parse (fun _ => 1) Json.parse (text "\x7b\x7d")) := by
    rw [root]
    exact ⟨_, rfl, rfl⟩
  have idle : ¬ Dispatches askedPkgStat := fun free => absurd free (Option.some_ne_none 3)
  obtain ⟨effect, called, none_⟩ := (rejected_noEffect_iff rejected).mpr idle
  refine ⟨effect, called, none_, ?_⟩
  rw [handleManifest_eq, called]
  rfl

/-- A text that is no JSON, while an upgrade runs. -/
theorem rejected_while_running :
    ¬ ∀ (shared : Shared) (root : Option CJson), Rejected shared root →
      ∃ effect, coreOnManifest shared root = .ok effect ∧ NoEffect shared effect := by
  intro always
  obtain ⟨effect, called, none_⟩ :=
    always (Shared.init.setStat .orchTdrRun) none ⟨_, rfl, rfl⟩
  cases called
  have started := none_.started
  contradiction

end DlcServer
