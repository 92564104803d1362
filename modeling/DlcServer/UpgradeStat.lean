/-
How a status report of the orchestrator changes the upgrade record, and what is
concluded from it.

The record outlives the report: after every member that is not an error, the
progress stored in it is tested, whether this report wrote it or an earlier one.
-/

import DlcServer.Records
import DlcServer.Library.SingleFloat

namespace DlcServer

open Library

/-- The assignments of one member; members of other names are passed over. -/
def BsEcuUpgradeStat.assign (stat : BsEcuUpgradeStat) (name : CText) (iterator : CJson) :
    Except Fault BsEcuUpgradeStat :=
  if name = text "esti_time" then
    (strcpyInto estiTimeCapacity iterator.valuestring).map
      (fun copied => { stat with estiTime := copied })
  else if name = text "start_time" then
    (strcpyInto startTimeCapacity iterator.valuestring).map
      (fun copied => { stat with startTime := copied })
  else if name = text "time_stamp" then
    (strcpyInto timeStampCapacity iterator.valuestring).map
      (fun copied => { stat with timeStamp := copied })
  else if name = text "status" then
    (strcpyInto statusCapacity iterator.valuestring).map
      (fun copied => { stat with status := copied })
  else if name = text "progress_percent" then
    .ok { stat with progressPercent := floatOfInt iterator.valueint }
  else .ok stat

/-- The loop of `hmi_resp_upgrade_stat_update`, with its result: -1 for an
error, 1 for a progress of 100, 0 while in progress. -/
def updateMembers : BsEcuUpgradeStat → List CJson → Except Fault (BsEcuUpgradeStat × Int)
  | stat, [] => .ok (stat, 0)
  | stat, iterator :: next =>
      match iterator.string with
      | none => .error .nullPointer
      | some name =>
          if name = text "error" then .ok (stat, -1)
          else
            match stat.assign name iterator with
            | .error fault => .error fault
            | .ok assigned =>
                if 100 ≤ assigned.progressPercent then .ok (assigned, 1)
                else updateMembers assigned next

def hmiRespUpgradeStatUpdate (stat : BsEcuUpgradeStat) (json : CJson) :
    Except Fault (BsEcuUpgradeStat × Int) :=
  updateMembers stat json.child

/-! ### Reports that say 100 percent -/

/-- The report itself carries a progress of 100 or more. -/
def CarriesFull (json : CJson) : Prop :=
  ∃ item ∈ json.child, item.string = some (text "progress_percent") ∧ 100 ≤ item.valueint

/-- The first member of the report settles what stale progress would: there is
none, it is the error, or it is the progress itself. -/
def SettlesProgress (json : CJson) : Prop :=
  ∀ item ∈ json.child.head?, item.string = some (text "error") ∨
    item.string = some (text "progress_percent")

/-- The size of the array a member of a report is copied to. -/
def reportRoom (name : CText) : Option Nat :=
  if name = text "esti_time" then some estiTimeCapacity
  else if name = text "start_time" then some startTimeCapacity
  else if name = text "time_stamp" then some timeStampCapacity
  else if name = text "status" then some statusCapacity
  else none

/-- The record with a member of a report in its array. -/
def BsEcuUpgradeStat.put (stat : BsEcuUpgradeStat) (name value : CText) : BsEcuUpgradeStat :=
  if name = text "esti_time" then { stat with estiTime := value }
  else if name = text "start_time" then { stat with startTime := value }
  else if name = text "time_stamp" then { stat with timeStamp := value }
  else if name = text "status" then { stat with status := value }
  else stat

theorem assign_eq (stat : BsEcuUpgradeStat) (name : CText) (iterator : CJson) :
    stat.assign name iterator =
      match reportRoom name with
      | some capacity => (strcpyInto capacity iterator.valuestring).map (stat.put name)
      | none =>
          .ok
            { stat with
              progressPercent :=
                if name = text "progress_percent" then floatOfInt iterator.valueint
                else stat.progressPercent } := by
  unfold BsEcuUpgradeStat.assign reportRoom BsEcuUpgradeStat.put
  by_cases esti : name = text "esti_time"
  · simp only [if_pos esti]
  by_cases start : name = text "start_time"
  · simp only [if_neg esti, if_pos start]
  by_cases stamp : name = text "time_stamp"
  · simp only [if_neg esti, if_neg start, if_pos stamp]
  by_cases status : name = text "status"
  · simp only [if_neg esti, if_neg start, if_neg stamp, if_pos status]
  simp only [if_neg esti, if_neg start, if_neg stamp, if_neg status]
  by_cases progress : name = text "progress_percent"
  · simp only [if_pos progress]
  · simp only [if_neg progress]

private theorem put_progress (stat : BsEcuUpgradeStat) (name value : CText) :
    (stat.put name value).progressPercent = stat.progressPercent := by
  unfold BsEcuUpgradeStat.put
  split_ifs <;> rfl

theorem reportRoom_progress : reportRoom (text "progress_percent") = none := by
  decide

theorem assign_progress {stat assigned : BsEcuUpgradeStat} {name : CText} {iterator : CJson}
    (done : stat.assign name iterator = .ok assigned) :
    assigned.progressPercent =
      if name = text "progress_percent" then floatOfInt iterator.valueint
      else stat.progressPercent := by
  rw [assign_eq] at done
  cases room : reportRoom name with
  | none =>
      simp only [room] at done
      rw [← Except.ok.inj done]
  | some capacity =>
      have isString : name ≠ text "progress_percent" := by
        rintro rfl
        rw [reportRoom_progress] at room
        contradiction
      simp only [room] at done
      cases copied : strcpyInto capacity iterator.valuestring with
      | error fault =>
          rw [copied] at done
          contradiction
      | ok value =>
          rw [copied] at done
          rw [← Except.ok.inj done, put_progress, if_neg isString]

/-- One member, unfolded: an error ends the report, any other member is stored
and followed by the test of the stored progress. -/
theorem updateMembers_cons {stat after : BsEcuUpgradeStat} {verdict : Int}
    {iterator : CJson} {next : List CJson}
    (done : updateMembers stat (iterator :: next) = .ok (after, verdict)) :
    ∃ name, iterator.string = some name ∧
      (name = text "error" ∧ after = stat ∧ verdict = -1 ∨
        name ≠ text "error" ∧ ∃ assigned, stat.assign name iterator = .ok assigned ∧
          (100 ≤ assigned.progressPercent ∧ after = assigned ∧ verdict = 1 ∨
            assigned.progressPercent < 100 ∧
              updateMembers assigned next = .ok (after, verdict))) := by
  unfold updateMembers at done
  cases named : iterator.string with
  | none =>
      rw [named] at done
      contradiction
  | some name =>
      rw [named] at done
      refine ⟨name, rfl, ?_⟩
      by_cases error : name = text "error"
      · simp only [if_pos error] at done
        have pair := Except.ok.inj done
        exact .inl ⟨error, (Prod.mk.inj pair).1.symm, (Prod.mk.inj pair).2.symm⟩
      · simp only [if_neg error] at done
        refine .inr ⟨error, ?_⟩
        cases stored : stat.assign name iterator with
        | error fault =>
            rw [stored] at done
            contradiction
        | ok assigned =>
            rw [stored] at done
            refine ⟨assigned, rfl, ?_⟩
            by_cases full : 100 ≤ assigned.progressPercent
            · simp only [if_pos full] at done
              have pair := Except.ok.inj done
              exact .inl ⟨full, (Prod.mk.inj pair).1.symm, (Prod.mk.inj pair).2.symm⟩
            · simp only [if_neg full] at done
              exact .inr ⟨by omega, done⟩

/-- From a stored progress below 100 a report reaches the verdict 1 only
through a progress of its own. -/
theorem carriesFull_of_updateMembers {stat after : BsEcuUpgradeStat} {items : List CJson}
    (low : stat.progressPercent < 100)
    (done : updateMembers stat items = .ok (after, 1)) :
    ∃ item ∈ items, item.string = some (text "progress_percent") ∧ 100 ≤ item.valueint := by
  induction items generalizing stat with
  | nil =>
      have pair := Prod.mk.inj (Except.ok.inj done)
      omega
  | cons iterator next ih =>
      obtain ⟨name, named, ⟨_, _, verdict⟩ | ⟨_, assigned, stored, full | later⟩⟩ :=
        updateMembers_cons done
      · omega
      · have progress := assign_progress stored
        by_cases isProgress : name = text "progress_percent"
        · rw [if_pos isProgress] at progress
          rw [progress, le_floatOfInt_iff 100 _ (by omega) (by omega)] at full
          exact ⟨iterator, List.mem_cons_self, isProgress ▸ named, full.1⟩
        · rw [if_neg isProgress] at progress
          omega
      · obtain ⟨item, member, facts⟩ := ih later.1 later.2
        exact ⟨item, List.mem_cons_of_mem iterator member, facts⟩

/-- A report is taken for the end of the upgrade without saying so exactly when
100 percent were stored before it and its first member neither is the error nor
overwrites them. -/
theorem verdict_needs_full_iff {stat after : BsEcuUpgradeStat} {json : CJson} {verdict : Int}
    (done : hmiRespUpgradeStatUpdate stat json = .ok (after, verdict)) :
    (verdict = 1 → CarriesFull json) ↔
      stat.progressPercent < 100 ∨ SettlesProgress json ∨ CarriesFull json := by
  unfold hmiRespUpgradeStatUpdate at done
  unfold CarriesFull SettlesProgress
  cases items : json.child with
  | nil =>
      rw [items] at done
      have pair := Prod.mk.inj (Except.ok.inj done)
      have notOne : verdict ≠ 1 := by omega
      simp [notOne]
  | cons iterator next =>
      rw [items] at done
      obtain ⟨name, named, ⟨isError, _, verdictIs⟩ | ⟨notError, assigned, stored, rest⟩⟩ :=
        updateMembers_cons done
      · simp [named, isError, verdictIs]
      · have progress := assign_progress stored
        constructor
        · intro needs
          by_cases low : stat.progressPercent < 100
          · exact .inl low
          · by_cases isProgress : name = text "progress_percent"
            · exact .inr (.inl (by simp [named, isProgress]))
            · rw [if_neg isProgress] at progress
              rcases rest with ⟨_, _, isOne⟩ | ⟨below, _⟩
              · exact .inr (.inr (needs isOne))
              · omega
        · intro settled isOne
          subst isOne
          rcases settled with low | settles | carries
          · exact carriesFull_of_updateMembers low done
          · have isProgress : name = text "progress_percent" := by
              have first := settles iterator (by simp)
              rw [named] at first
              rcases first with error | percent
              · exact absurd (Option.some.inj error) notError
              · exact Option.some.inj percent
            rw [if_pos isProgress] at progress
            rcases rest with ⟨full, _⟩ | ⟨below, later⟩
            · rw [progress, le_floatOfInt_iff 100 _ (by omega) (by omega)] at full
              exact ⟨iterator, List.mem_cons_self, isProgress ▸ named, full⟩
            · obtain ⟨item, member, facts⟩ := carriesFull_of_updateMembers below later
              exact ⟨item, List.mem_cons_of_mem iterator member, facts⟩
          · exact carries

end DlcServer
