/-
Status reports with their members in another order.

A member is stored into the field of its name, so two members of different names
do not disturb each other.  What the order decides is which members are still
reached: the walk ends at an error, and after any member that leaves a progress
of 100 or more in the record, stored by this report or before it.
-/

import DlcServer.UpgradeStat
import Mathlib.Data.List.Nodup

namespace DlcServer

open Library

attribute [ext] BsEcuUpgradeStat

/-! ### One member -/

def CJson.IsError (item : CJson) : Prop :=
  item.string = some (text "error")

def CJson.IsProgress (item : CJson) : Prop :=
  item.string = some (text "progress_percent")

instance (item : CJson) : Decidable item.IsError :=
  inferInstanceAs (Decidable (_ = _))

instance (item : CJson) : Decidable item.IsProgress :=
  inferInstanceAs (Decidable (_ = _))

/-- The member carries a progress of 100 or more. -/
def CJson.IsFull (item : CJson) : Prop :=
  item.IsProgress ∧ 100 ≤ item.valueint

/-- A string is given where one is copied. -/
def CJson.Typed (item : CJson) : Prop :=
  ∃ name, item.string = some name ∧ (reportRoom name ≠ none → item.valuestring ≠ none)

/-- What is copied has room in its array. -/
def CJson.HasRoom (item : CJson) : Prop :=
  ∀ name capacity, item.string = some name → reportRoom name = some capacity →
    ∃ value, item.valuestring = some value ∧ value.length < capacity

/-- The record with the member in the field of its name. -/
def BsEcuUpgradeStat.store (stat : BsEcuUpgradeStat) (item : CJson) : BsEcuUpgradeStat :=
  { stat with
    estiTime :=
      if item.string = some (text "esti_time") then item.valuestring.getD stat.estiTime
      else stat.estiTime
    startTime :=
      if item.string = some (text "start_time") then item.valuestring.getD stat.startTime
      else stat.startTime
    timeStamp :=
      if item.string = some (text "time_stamp") then item.valuestring.getD stat.timeStamp
      else stat.timeStamp
    status :=
      if item.string = some (text "status") then item.valuestring.getD stat.status
      else stat.status
    progressPercent :=
      if item.IsProgress then floatOfInt item.valueint else stat.progressPercent }

/-- The fields named by the member show its value. -/
structure Shows (stat : BsEcuUpgradeStat) (item : CJson) : Prop where
  estiTime : item.string = some (text "esti_time") → item.valuestring = some stat.estiTime
  startTime : item.string = some (text "start_time") → item.valuestring = some stat.startTime
  timeStamp : item.string = some (text "time_stamp") → item.valuestring = some stat.timeStamp
  status : item.string = some (text "status") → item.valuestring = some stat.status
  progressPercent : item.IsProgress → stat.progressPercent = item.valueint

private theorem store_progress (stat : BsEcuUpgradeStat) {item : CJson} (other : ¬ item.IsProgress) :
    (stat.store item).progressPercent = stat.progressPercent :=
  if_neg other

private theorem full_store_iff (stat : BsEcuUpgradeStat) {item : CJson} (progress : item.IsProgress) :
    100 ≤ (stat.store item).progressPercent ↔ item.IsFull := by
  have stored : (stat.store item).progressPercent = floatOfInt item.valueint := if_pos progress
  rw [stored, le_floatOfInt_iff 100 _ (by omega) (by omega)]
  exact ⟨fun full => ⟨progress, full⟩, fun full => full.2⟩

private theorem store_comm (stat : BsEcuUpgradeStat) {first second : CJson}
    (different : first.string ≠ second.string) :
    (stat.store first).store second = (stat.store second).store first := by
  have apart (name : CText) (one : first.string = some name) : second.string ≠ some name :=
    fun two => different (one.trans two.symm)
  ext1
  · rfl
  · rfl
  · by_cases one : first.string = some (text "esti_time")
    · simp [BsEcuUpgradeStat.store, one, apart _ one]
    · simp [BsEcuUpgradeStat.store, one]
  · by_cases one : first.string = some (text "start_time")
    · simp [BsEcuUpgradeStat.store, one, apart _ one]
    · simp [BsEcuUpgradeStat.store, one]
  · by_cases one : first.string = some (text "time_stamp")
    · simp [BsEcuUpgradeStat.store, one, apart _ one]
    · simp [BsEcuUpgradeStat.store, one]
  · rfl
  · by_cases one : first.string = some (text "status")
    · simp [BsEcuUpgradeStat.store, one, apart _ one]
    · simp [BsEcuUpgradeStat.store, one]
  · by_cases one : first.IsProgress
    · have two : ¬ second.IsProgress := apart _ one
      simp [BsEcuUpgradeStat.store, one, two]
    · simp [BsEcuUpgradeStat.store, one]

private theorem store_eq_self {stat : BsEcuUpgradeStat} {first second : CJson}
    (different : first.string ≠ second.string) (same : stat.store first = stat.store second) :
    stat.store first = stat := by
  have apart (name : CText) (one : first.string = some name) : second.string ≠ some name :=
    fun two => different (one.trans two.symm)
  ext1
  · rfl
  · rfl
  · by_cases one : first.string = some (text "esti_time")
    · rw [same]
      exact if_neg (apart _ one)
    · exact if_neg one
  · by_cases one : first.string = some (text "start_time")
    · rw [same]
      exact if_neg (apart _ one)
    · exact if_neg one
  · by_cases one : first.string = some (text "time_stamp")
    · rw [same]
      exact if_neg (apart _ one)
    · exact if_neg one
  · rfl
  · by_cases one : first.string = some (text "status")
    · rw [same]
      exact if_neg (apart _ one)
    · exact if_neg one
  · by_cases one : first.IsProgress
    · rw [same]
      exact if_neg (apart _ one)
    · exact if_neg one

/-! ### The assignment and the record it leaves -/

private theorem put_eq_store {stat : BsEcuUpgradeStat} {item : CJson} {name value : CText}
    (named : item.string = some name) (copied : reportRoom name ≠ none)
    (given : item.valuestring = some value) : stat.put name value = stat.store item := by
  unfold BsEcuUpgradeStat.put BsEcuUpgradeStat.store
  unfold reportRoom at copied
  by_cases esti : name = text "esti_time"
  · subst esti
    simp +decide [named, given, CJson.IsProgress]
  by_cases start : name = text "start_time"
  · subst start
    simp +decide [named, given, CJson.IsProgress]
  by_cases stamp : name = text "time_stamp"
  · subst stamp
    simp +decide [named, given, CJson.IsProgress]
  by_cases status : name = text "status"
  · subst status
    simp +decide [named, given, CJson.IsProgress]
  · simp [esti, start, stamp, status] at copied

private theorem store_of_uncopied {stat : BsEcuUpgradeStat} {item : CJson} {name : CText}
    (named : item.string = some name) (uncopied : reportRoom name = none) :
    stat.store item =
      { stat with
        progressPercent :=
          if name = text "progress_percent" then floatOfInt item.valueint
          else stat.progressPercent } := by
  unfold reportRoom at uncopied
  by_cases esti : name = text "esti_time"
  · rw [if_pos esti] at uncopied
    cases uncopied
  rw [if_neg esti] at uncopied
  by_cases start : name = text "start_time"
  · rw [if_pos start] at uncopied
    cases uncopied
  rw [if_neg start] at uncopied
  by_cases stamp : name = text "time_stamp"
  · rw [if_pos stamp] at uncopied
    cases uncopied
  rw [if_neg stamp] at uncopied
  by_cases status : name = text "status"
  · rw [if_pos status] at uncopied
    cases uncopied
  · simp [BsEcuUpgradeStat.store, named, esti, start, stamp, status, CJson.IsProgress]

private theorem store_of_progress (stat : BsEcuUpgradeStat) {item : CJson}
    (progress : item.IsProgress) :
    stat.store item = { stat with progressPercent := floatOfInt item.valueint } := by
  have named : item.string = some (text "progress_percent") := progress
  rw [store_of_uncopied named reportRoom_progress, if_pos rfl]

private theorem assign_of_hasRoom {stat : BsEcuUpgradeStat} {item : CJson} {name : CText}
    (named : item.string = some name) (room : item.HasRoom) :
    stat.assign name item = .ok (stat.store item) := by
  rw [assign_eq]
  cases copied : reportRoom name with
  | none => rw [store_of_uncopied named copied]
  | some capacity =>
      obtain ⟨value, given, fits⟩ := room name capacity named copied
      have stored := @put_eq_store stat _ _ _ named (by simp [copied]) given
      simp only [strcpyInto, given, if_pos fits, Except.map, stored]

private theorem hasRoom_of_assign {stat assigned : BsEcuUpgradeStat} {item : CJson} {name : CText}
    (named : item.string = some name) (done : stat.assign name item = .ok assigned) :
    item.HasRoom ∧ assigned = stat.store item := by
  have room : item.HasRoom := by
    intro other capacity same copied
    cases named.symm.trans same
    rw [assign_eq, copied] at done
    cases given : strcpyInto capacity item.valuestring with
    | error fault =>
        simp only [given, Except.map] at done
        contradiction
    | ok value => exact ⟨value, strcpyInto_eq_ok given⟩
  refine ⟨room, ?_⟩
  rw [assign_of_hasRoom named room] at done
  exact (Except.ok.inj done).symm

/-! ### The first member of a report -/

section First

variable {stat : BsEcuUpgradeStat} {item : CJson}

private theorem updateMembers_error (error : item.IsError) (next : List CJson) :
    updateMembers stat (item :: next) = .ok (stat, -1) := by
  have named : item.string = some (text "error") := error
  simp only [updateMembers, named, if_true]

private theorem updateMembers_full (typed : item.Typed) (other : ¬ item.IsError) (room : item.HasRoom)
    (full : 100 ≤ (stat.store item).progressPercent) (next : List CJson) :
    updateMembers stat (item :: next) = .ok (stat.store item, 1) := by
  obtain ⟨name, named, _⟩ := typed
  have notError : name ≠ text "error" :=
    fun same => other (named.trans (congrArg some same))
  simp only [updateMembers, named, if_neg notError, assign_of_hasRoom named room, if_pos full]

private theorem updateMembers_low (typed : item.Typed) (other : ¬ item.IsError) (room : item.HasRoom)
    (low : (stat.store item).progressPercent < 100) (next : List CJson) :
    updateMembers stat (item :: next) = updateMembers (stat.store item) next := by
  obtain ⟨name, named, _⟩ := typed
  have notError : name ≠ text "error" :=
    fun same => other (named.trans (congrArg some same))
  have notFull : ¬ 100 ≤ (stat.store item).progressPercent := by omega
  simp only [updateMembers, named, if_neg notError, assign_of_hasRoom named room, if_neg notFull]

private theorem hasRoom_of_update {outcome : BsEcuUpgradeStat × Int} {next : List CJson}
    (other : ¬ item.IsError) (done : updateMembers stat (item :: next) = .ok outcome) :
    item.HasRoom := by
  obtain ⟨after, verdict⟩ := outcome
  obtain ⟨name, named, ⟨error, _⟩ | ⟨_, assigned, stored, _⟩⟩ := updateMembers_cons done
  · exact absurd (named.trans (congrArg some error)) other
  · exact (hasRoom_of_assign named stored).1

end First

/-! ### What a record shows -/

private theorem shows_store (stat : BsEcuUpgradeStat) {item : CJson} (room : item.HasRoom)
    (exact_ : item.IsProgress → floatOfInt item.valueint = item.valueint) :
    Shows (stat.store item) item := by
  have copied (label : CText) (capacity : Nat) (named : item.string = some label)
      (there : reportRoom label = some capacity) (old : CText) :
      item.valuestring = some (item.valuestring.getD old) := by
    obtain ⟨value, given, _⟩ := room label capacity named there
    rw [given]
    rfl
  constructor
  · intro named
    simp only [BsEcuUpgradeStat.store, if_pos named]
    exact copied _ estiTimeCapacity named (by decide) _
  · intro named
    simp only [BsEcuUpgradeStat.store, if_pos named]
    exact copied _ startTimeCapacity named (by decide) _
  · intro named
    simp only [BsEcuUpgradeStat.store, if_pos named]
    exact copied _ timeStampCapacity named (by decide) _
  · intro named
    simp only [BsEcuUpgradeStat.store, if_pos named]
    exact copied _ statusCapacity named (by decide) _
  · intro progress
    exact (if_pos progress).trans (exact_ progress)

/-- A member of another name leaves what is shown. -/
theorem Shows.store {stat : BsEcuUpgradeStat} {item other : CJson} (shown : Shows stat item)
    (different : item.string ≠ other.string) : Shows (stat.store other) item := by
  have apart (name : CText) (one : item.string = some name) : other.string ≠ some name :=
    fun two => different (one.trans two.symm)
  constructor
  · intro named
    rw [shown.estiTime named]
    exact congrArg some (if_neg (apart _ named)).symm
  · intro named
    rw [shown.startTime named]
    exact congrArg some (if_neg (apart _ named)).symm
  · intro named
    rw [shown.timeStamp named]
    exact congrArg some (if_neg (apart _ named)).symm
  · intro named
    rw [shown.status named]
    exact congrArg some (if_neg (apart _ named)).symm
  · intro progress
    rw [← shown.progressPercent progress]
    exact if_neg (apart _ progress)

theorem Shows.foldl {stat : BsEcuUpgradeStat} {item : CJson} (shown : Shows stat item)
    (items : List CJson) (different : ∀ other ∈ items, item.string ≠ other.string) :
    Shows (items.foldl BsEcuUpgradeStat.store stat) item := by
  induction items generalizing stat with
  | nil => exact shown
  | cons other next ih =>
      exact ih (shown.store (different other List.mem_cons_self))
        (fun later member => different later (List.mem_cons_of_mem other member))

/-! ### Reports -/

/-- Every member has a name of its own and the value its name asks for. -/
structure WellTyped (items : List CJson) : Prop where
  typed : ∀ item ∈ items, item.Typed
  distinct : (items.map CJson.string).Nodup

/-- Strings have room and the progress is one a `float` holds. -/
def Storable (items : List CJson) : Prop :=
  ∀ item ∈ items, item.HasRoom ∧ (item.IsProgress → floatOfInt item.valueint = item.valueint)

def HasError (items : List CJson) : Prop :=
  ∃ item ∈ items, item.IsError

/-- A progress of 100 or more is stored already or carried by the report. -/
def HasFull (stat : BsEcuUpgradeStat) (items : List CJson) : Prop :=
  100 ≤ stat.progressPercent ∨ ∃ item ∈ items, item.IsFull

/-- All that the report says is stored already, its own end apart. -/
def Repeats (stat : BsEcuUpgradeStat) (items : List CJson) : Prop :=
  ∀ item ∈ items, (item.HasRoom ∧ stat.store item = stat) ∨
    (stat.progressPercent < 100 ∧ item.IsFull)

/-- There are no two members, nothing that ends the walk early, or one kind of
end and nothing to be missed before it. -/
def OrderFree (stat : BsEcuUpgradeStat) (items : List CJson) : Prop :=
  items.length ≤ 1 ∨ (¬ HasError items ∧ ¬ HasFull stat items) ∨
    (¬ (HasError items ∧ HasFull stat items) ∧ Repeats stat items)

section Reports

variable {stat : BsEcuUpgradeStat} {items other : List CJson}

private theorem WellTyped.perm (typed : WellTyped items) (perm : other.Perm items) : WellTyped other where
  typed := fun item member => typed.typed item (perm.mem_iff.mp member)
  distinct := (perm.map CJson.string).nodup_iff.mpr typed.distinct

private theorem WellTyped.eq (typed : WellTyped items) {first second : CJson} (one : first ∈ items)
    (two : second ∈ items) (same : first.string = second.string) : first = second :=
  List.inj_on_of_nodup_map typed.distinct one two same

private theorem shows_all (stat : BsEcuUpgradeStat) (typed : WellTyped items)
    (storable : Storable items) :
    ∀ item ∈ items, Shows (items.foldl BsEcuUpgradeStat.store stat) item := by
  induction items generalizing stat with
  | nil =>
      intro item member
      cases member
  | cons first next ih =>
      have tail : WellTyped next :=
        ⟨fun item member => typed.typed item (List.mem_cons_of_mem first member),
          (List.nodup_cons.mp typed.distinct).2⟩
      intro item member
      rcases List.mem_cons.mp member with rfl | later
      · have shown := storable _ List.mem_cons_self
        refine (shows_store stat shown.1 shown.2).foldl next ?_
        intro other there same
        exact (List.nodup_cons.mp typed.distinct).1 (same ▸ List.mem_map_of_mem there)
      · exact ih (stat.store first) tail
          (fun item there => storable item (List.mem_cons_of_mem first there)) item later

private theorem updateMembers_whole (typed : WellTyped items) (room : ∀ item ∈ items, item.HasRoom)
    (noError : ¬ HasError items) (low : ¬ HasFull stat items) :
    updateMembers stat items = .ok (items.foldl BsEcuUpgradeStat.store stat, 0) := by
  induction items generalizing stat with
  | nil => rfl
  | cons first next ih =>
      have tail : WellTyped next :=
        ⟨fun item member => typed.typed item (List.mem_cons_of_mem first member),
          (List.nodup_cons.mp typed.distinct).2⟩
      have under : stat.progressPercent < 100 := by
        by_contra full
        exact low (.inl (by omega))
      have stored : (stat.store first).progressPercent < 100 := by
        by_contra full
        by_cases progress : first.IsProgress
        · exact low (.inr ⟨first, List.mem_cons_self,
            (full_store_iff stat progress).mp (by omega)⟩)
        · rw [store_progress stat progress] at full
          omega
      have notError : ¬ first.IsError := fun error => noError ⟨first, List.mem_cons_self, error⟩
      rw [updateMembers_low (typed.typed first List.mem_cons_self) notError
        (room first List.mem_cons_self) stored]
      refine ih tail (fun item member => room item (List.mem_cons_of_mem first member)) ?_ ?_
      · intro ⟨item, member, error⟩
        exact noError ⟨item, List.mem_cons_of_mem first member, error⟩
      · rintro (full | ⟨item, member, full⟩)
        · omega
        · exact low (.inr ⟨item, List.mem_cons_of_mem first member, full⟩)

private theorem updateMembers_ends {result : Except Fault (BsEcuUpgradeStat × Int)}
    (each : ∀ item ∈ items, (∀ next, updateMembers stat (item :: next) = result) ∨
      ∀ next, updateMembers stat (item :: next) = updateMembers stat next)
    (ends : ∃ item ∈ items, ∀ next, updateMembers stat (item :: next) = result) :
    updateMembers stat items = result := by
  induction items with
  | nil =>
      obtain ⟨item, member, _⟩ := ends
      cases member
  | cons first next ih =>
      rcases each first List.mem_cons_self with now | passed
      · exact now next
      · rw [passed]
        obtain ⟨item, member, ended⟩ := ends
        rcases List.mem_cons.mp member with rfl | later
        · rw [← passed]
          exact ended next
        · exact ih (fun other there => each other (List.mem_cons_of_mem first there))
            ⟨item, later, ended⟩

private theorem hasError_perm (perm : other.Perm items) : HasError other ↔ HasError items := by
  simp only [HasError, perm.mem_iff]

private theorem hasFull_perm (perm : other.Perm items) : HasFull stat other ↔ HasFull stat items := by
  simp only [HasFull, perm.mem_iff]

/-! ### Reports that may be reordered -/

private theorem whole_settles (typed : WellTyped items) (storable : Storable items)
    (noError : ¬ HasError items) (low : ¬ HasFull stat items) (perm : other.Perm items) :
    updateMembers stat other = .ok (items.foldl BsEcuUpgradeStat.store stat, 0) := by
  have commutes : ∀ first ∈ other, ∀ second ∈ other, ∀ record : BsEcuUpgradeStat,
      (record.store first).store second = (record.store second).store first := by
    intro first one second two record
    by_cases same : first.string = second.string
    · rw [(typed.perm perm).eq one two same]
    · exact store_comm record same
  rw [updateMembers_whole (typed.perm perm)
    (fun item member => (storable item (perm.mem_iff.mp member)).1)
    ((hasError_perm perm).not.mpr noError) ((hasFull_perm perm).not.mpr low),
    perm.foldl_eq' commutes]

private theorem error_settles (typed : WellTyped items) (error : HasError items)
    (low : ¬ HasFull stat items) (repeats : Repeats stat items) (perm : other.Perm items) :
    updateMembers stat other = .ok (stat, -1) := by
  have under : stat.progressPercent < 100 := by
    by_contra full
    exact low (.inl (by omega))
  apply updateMembers_ends
  · intro item member
    have here := perm.mem_iff.mp member
    by_cases isError : item.IsError
    · exact .inl (updateMembers_error isError)
    · rcases repeats item here with ⟨room, quiet⟩ | ⟨_, full⟩
      · refine .inr (fun next => ?_)
        rw [updateMembers_low (typed.typed item here) isError room (by rw [quiet]; exact under),
          quiet]
      · exact absurd (.inr ⟨item, here, full⟩) low
  · obtain ⟨item, member, isError⟩ := error
    exact ⟨item, perm.mem_iff.mpr member, updateMembers_error isError⟩

private theorem carried_settles (typed : WellTyped items) (noError : ¬ HasError items)
    (under : stat.progressPercent < 100) (repeats : Repeats stat items) {last : CJson}
    (there : last ∈ items) (full : last.IsFull) (room : last.HasRoom)
    (perm : other.Perm items) :
    updateMembers stat other = .ok (stat.store last, 1) := by
  have notError (item : CJson) (member : item ∈ items) : ¬ item.IsError :=
    fun error => noError ⟨item, member, error⟩
  have ends : ∀ next, updateMembers stat (last :: next) = .ok (stat.store last, 1) :=
    updateMembers_full (typed.typed last there) (notError last there) room
      ((full_store_iff stat full.1).mpr full)
  apply updateMembers_ends
  · intro item member
    have here := perm.mem_iff.mp member
    rcases repeats item here with ⟨room, quiet⟩ | ⟨_, also⟩
    · refine .inr (fun next => ?_)
      rw [updateMembers_low (typed.typed item here) (notError item here) room
        (by rw [quiet]; exact under), quiet]
    · have same := typed.eq here there (also.1.trans full.1.symm)
      subst same
      exact .inl ends
  · exact ⟨last, perm.mem_iff.mpr there, ends⟩

private theorem stale_settles (typed : WellTyped items) (noError : ¬ HasError items)
    (stale : 100 ≤ stat.progressPercent)
    (quiet : ∀ item ∈ items, item.HasRoom ∧ stat.store item = stat) (some_ : items ≠ [])
    (perm : other.Perm items) : updateMembers stat other = .ok (stat, 1) := by
  have ends : ∀ item ∈ items, ∀ next, updateMembers stat (item :: next) = .ok (stat, 1) := by
    intro item member next
    obtain ⟨room, same⟩ := quiet item member
    rw [updateMembers_full (typed.typed item member)
      (fun error => noError ⟨item, member, error⟩) room (by rw [same]; exact stale), same]
  apply updateMembers_ends
  · intro item member
    exact .inl (ends item (perm.mem_iff.mp member))
  · obtain ⟨item, member⟩ := List.exists_mem_of_ne_nil items some_
    exact ⟨item, perm.mem_iff.mpr member, ends item member⟩

private theorem single_settles {only : CJson} (typed : only.Typed) (noError : ¬ only.IsError)
    (room : only.HasRoom) : ∃ verdict, updateMembers stat [only] = .ok (stat.store only, verdict) := by
  by_cases full : 100 ≤ (stat.store only).progressPercent
  · exact ⟨1, updateMembers_full typed noError room full []⟩
  · refine ⟨0, ?_⟩
    rw [updateMembers_low typed noError room (by omega)]
    rfl

/-! ### The law -/

/-- Every order of the members has the same outcome, and without an error the
fields named in the report show its values in the end. -/
structure OrderIndependent (stat : BsEcuUpgradeStat) (json : CJson) : Prop where
  outcome : ∀ other : CJson, other.child.Perm json.child →
    hmiRespUpgradeStatUpdate stat other = hmiRespUpgradeStatUpdate stat json
  stored : ¬ HasError json.child → ∃ after verdict,
    hmiRespUpgradeStatUpdate stat json = .ok (after, verdict) ∧
      ∀ item ∈ json.child, Shows after item

private theorem orderIndependent_of_single {json : CJson} (typed : WellTyped json.child)
    (storable : ¬ HasError json.child → Storable json.child) (short : json.child.length ≤ 1) :
    OrderIndependent stat json := by
  cases items : json.child with
  | nil =>
      constructor
      · intro other perm
        rw [items] at perm
        unfold hmiRespUpgradeStatUpdate
        rw [items, perm.eq_nil]
      · intro _
        unfold hmiRespUpgradeStatUpdate
        rw [items]
        exact ⟨stat, 0, rfl, by simp⟩
  | cons only rest =>
      have none_ : rest = [] := by
        rw [items, List.length_cons] at short
        exact List.length_eq_zero_iff.mp (by omega)
      subst none_
      constructor
      · intro other perm
        rw [items] at perm
        unfold hmiRespUpgradeStatUpdate
        rw [items, List.perm_singleton.mp perm]
      · intro noError
        have member : only ∈ json.child := by simp [items]
        have shown := storable noError only member
        obtain ⟨verdict, settled⟩ := @single_settles stat _ (typed.typed only member)
          (fun error => noError ⟨only, member, error⟩) shown.1
        unfold hmiRespUpgradeStatUpdate
        rw [items]
        refine ⟨stat.store only, verdict, settled, ?_⟩
        intro item there
        rw [List.mem_singleton.mp there]
        exact shows_store stat shown.1 shown.2

private theorem orderIndependent_of_settled {json : CJson} {after : BsEcuUpgradeStat} {verdict : Int}
    (settled : ∀ other : List CJson, other.Perm json.child →
      updateMembers stat other = .ok (after, verdict))
    (shown : ¬ HasError json.child → ∀ item ∈ json.child, Shows after item) :
    OrderIndependent stat json where
  outcome := fun other perm => (settled other.child perm).trans (settled json.child (.refl _)).symm
  stored := fun noError => ⟨after, verdict, settled json.child (.refl _), shown noError⟩

private theorem orderIndependent_of_orderFree {json : CJson} (typed : WellTyped json.child)
    (free : OrderFree stat json.child)
    (storable : ¬ HasError json.child → Storable json.child) : OrderIndependent stat json := by
  rcases free with short | ⟨noError, low⟩ | ⟨oneEnd, repeats⟩
  · exact orderIndependent_of_single typed storable short
  · have stored := storable noError
    exact orderIndependent_of_settled
      (fun other perm => whole_settles typed stored noError low perm)
      (fun _ => shows_all stat typed stored)
  · by_cases error : HasError json.child
    · have low : ¬ HasFull stat json.child := fun full => oneEnd ⟨error, full⟩
      exact orderIndependent_of_settled
        (fun other perm => error_settles typed error low repeats perm)
        (fun noError => absurd error noError)
    · have stored := storable error
      by_cases under : stat.progressPercent < 100
      · by_cases carried : ∃ last ∈ json.child, last.IsFull
        · obtain ⟨last, there, full⟩ := carried
          have room := (stored last there).1
          refine orderIndependent_of_settled
            (fun other perm => carried_settles typed error under repeats there full room perm) ?_
          intro _ item member
          have shown := shows_store stat (stored item member).1 (stored item member).2
          rcases repeats item member with ⟨_, quiet⟩ | ⟨_, also⟩
          · rw [quiet] at shown
            by_cases same : item.string = last.string
            · rw [typed.eq member there same] at shown ⊢
              exact shows_store stat room (stored last there).2
            · exact shown.store same
          · rw [typed.eq member there (also.1.trans full.1.symm)]
            exact shows_store stat room (stored last there).2
        · have low : ¬ HasFull stat json.child := by
            rintro (full | there)
            · omega
            · exact carried there
          exact orderIndependent_of_settled
            (fun other perm => whole_settles typed stored error low perm)
            (fun _ => shows_all stat typed stored)
      · have quiet : ∀ item ∈ json.child, item.HasRoom ∧ stat.store item = stat :=
          fun item member => (repeats item member).resolve_right (fun low => under low.1)
        by_cases empty : json.child = []
        · exact orderIndependent_of_single typed storable (by simp [empty])
        · refine orderIndependent_of_settled
            (fun other perm => stale_settles typed error (by omega) quiet empty perm) ?_
          intro _ item member
          have shown := shows_store stat (stored item member).1 (stored item member).2
          rw [(quiet item member).2] at shown
          exact shown

/-! ### Reports that may not -/

private theorem perm_front {item : CJson} (member : item ∈ items) :
    ∃ rest, (item :: rest).Perm items := by
  obtain ⟨before, after, rfl⟩ := List.append_of_mem member
  exact ⟨before ++ after, List.perm_middle.symm⟩

private theorem perm_front_two {first second : CJson} (one : first ∈ items) (two : second ∈ items)
    (different : first ≠ second) : ∃ rest, (first :: second :: rest).Perm items := by
  obtain ⟨rest, front⟩ := perm_front one
  have later : second ∈ rest :=
    (List.mem_cons.mp (front.mem_iff.mpr two)).resolve_left (fun same => different same.symm)
  obtain ⟨others, behind⟩ := perm_front later
  exact ⟨others, (behind.cons first).trans front⟩

private theorem OrderIndependent.of_perm {json : CJson} (independent : OrderIndependent stat json)
    (perm : other.Perm json.child) : updateMembers stat other = updateMembers stat json.child :=
  independent.outcome (.node .object none 0 none other) perm

/-- Any member may stand first. -/
theorem OrderIndependent.front {json : CJson} (independent : OrderIndependent stat json)
    {item : CJson} (member : item ∈ json.child) :
    ∃ rest, updateMembers stat (item :: rest) = updateMembers stat json.child := by
  rcases perm_front member with ⟨rest, front⟩
  exact ⟨rest, independent.of_perm front⟩

private theorem OrderIndependent.front_two {json : CJson} (independent : OrderIndependent stat json)
    {first second : CJson} (one : first ∈ json.child) (two : second ∈ json.child)
    (different : first ≠ second) :
    ∃ rest, updateMembers stat (first :: second :: rest) = updateMembers stat json.child := by
  rcases perm_front_two one two different with ⟨rest, front⟩
  exact ⟨rest, independent.of_perm front⟩

private theorem hasRoom_of_independent {json : CJson} (independent : OrderIndependent stat json)
    {outcome : BsEcuUpgradeStat × Int} (done : updateMembers stat json.child = .ok outcome)
    {item : CJson} (member : item ∈ json.child) (other : ¬ item.IsError) : item.HasRoom := by
  rcases independent.front member with ⟨rest, same⟩
  exact hasRoom_of_update other (same.trans done)

private theorem store_low {item : CJson} (under : stat.progressPercent < 100) (other : ¬ item.IsFull) :
    (stat.store item).progressPercent < 100 := by
  by_contra full
  by_cases progress : item.IsProgress
  · exact other ((full_store_iff stat progress).mp (by omega))
  · rw [store_progress stat progress] at full
    omega

private theorem updateMembers_progress {after : BsEcuUpgradeStat} {verdict : Int}
    (other : ∀ item ∈ items, ¬ item.IsProgress)
    (done : updateMembers stat items = .ok (after, verdict)) :
    after.progressPercent = stat.progressPercent := by
  induction items generalizing stat with
  | nil =>
      cases done
      rfl
  | cons first next ih =>
      obtain ⟨name, named, ⟨_, same, _⟩ | ⟨_, assigned, stored, rest⟩⟩ := updateMembers_cons done
      · rw [same]
      · have kept : assigned.progressPercent = stat.progressPercent := by
          rw [(hasRoom_of_assign named stored).2]
          exact store_progress stat (other first List.mem_cons_self)
        rcases rest with ⟨_, same, _⟩ | ⟨_, later⟩
        · rw [same, kept]
        · rw [ih (fun item member => other item (List.mem_cons_of_mem first member)) later, kept]

private theorem storable_of_independent {json : CJson} (typed : WellTyped json.child)
    (independent : OrderIndependent stat json) (noError : ¬ HasError json.child) :
    Storable json.child := by
  obtain ⟨after, verdict, settled, shown⟩ := independent.stored noError
  intro item member
  have room := hasRoom_of_independent independent settled member
    (fun error => noError ⟨item, member, error⟩)
  refine ⟨room, ?_⟩
  intro progress
  obtain ⟨rest, front⟩ := perm_front member
  have done := (independent.of_perm front).trans settled
  have alone := (typed.perm front).distinct
  have others : ∀ found ∈ rest, ¬ found.IsProgress := by
    intro found there also
    have same : found.string = item.string := Eq.trans also (Eq.symm progress)
    exact (List.nodup_cons.mp alone).1 (same ▸ List.mem_map_of_mem there)
  have stored : (stat.store item).progressPercent = floatOfInt item.valueint := if_pos progress
  have ended : after.progressPercent = (stat.store item).progressPercent := by
    obtain ⟨name, named, ⟨error, _⟩ | ⟨_, assigned, assigns, behind⟩⟩ := updateMembers_cons done
    · exact absurd ⟨item, member, named.trans (congrArg some error)⟩ noError
    · rw [← (hasRoom_of_assign named assigns).2]
      rcases behind with ⟨_, same, _⟩ | ⟨_, later⟩
      · rw [same]
      · exact updateMembers_progress others later
  rw [← stored, ← ended]
  exact (shown item member).progressPercent progress

private theorem exists_other (typed : WellTyped items) (long : ¬ items.length ≤ 1) {item : CJson}
    (member : item ∈ items) : ∃ found ∈ items, found ≠ item := by
  obtain ⟨rest, front⟩ := perm_front member
  have longer := front.length_eq
  cases rest with
  | nil =>
      rw [List.length_singleton] at longer
      omega
  | cons found others =>
      refine ⟨found, front.mem_iff.mp (by simp), ?_⟩
      rintro rfl
      have alone := (typed.perm front).distinct
      simp at alone

private theorem store_error (stat : BsEcuUpgradeStat) {item : CJson} (error : item.IsError) :
    item.HasRoom ∧ stat.store item = stat := by
  have named : item.string = some (text "error") := error
  constructor
  · intro name capacity same copied
    cases named.symm.trans same
    have uncopied : reportRoom (text "error") = none := by decide
    rw [uncopied] at copied
    cases copied
  · rw [store_of_uncopied named (by decide)]
    have other : text "error" ≠ text "progress_percent" := by decide
    rw [if_neg other]

private theorem not_progress_of_error {item : CJson} (error : item.IsError) : ¬ item.IsProgress := by
  intro progress
  have same := Option.some.inj (Eq.trans (Eq.symm error) progress)
  exact absurd same (by decide)

private theorem repeats_of_error {json : CJson} (typed : WellTyped json.child)
    (independent : OrderIndependent stat json) (long : ¬ json.child.length ≤ 1)
    (error : HasError json.child) :
    ¬ HasFull stat json.child ∧ Repeats stat json.child := by
  obtain ⟨last, there, isError⟩ := error
  have settled : updateMembers stat json.child = .ok (stat, -1) := by
    rcases independent.front there with ⟨rest, same⟩
    exact same.symm.trans (updateMembers_error isError rest)
  have notError (item : CJson) (member : item ∈ json.child) (different : item ≠ last) :
      ¬ item.IsError :=
    fun also => different (typed.eq member there (Eq.trans also (Eq.symm isError)))
  have room (item : CJson) (member : item ∈ json.child) (different : item ≠ last) :
      item.HasRoom :=
    hasRoom_of_independent independent settled member (notError item member different)
  have low (item : CJson) (member : item ∈ json.child) (different : item ≠ last) :
      (stat.store item).progressPercent < 100 := by
    by_contra full
    rcases independent.front member with ⟨rest, same⟩
    have ended := same.trans settled
    rw [updateMembers_full (typed.typed item member) (notError item member different)
      (room item member different) (by omega)] at ended
    have verdicts : (1 : Int) = -1 := congrArg Prod.snd (Except.ok.inj ended)
    omega
  have quiet (item : CJson) (member : item ∈ json.child) (different : item ≠ last) :
      stat.store item = stat := by
    rcases independent.front_two member there different with ⟨rest, same⟩
    have ended := same.trans settled
    rw [updateMembers_low (typed.typed item member) (notError item member different)
      (room item member different) (low item member different),
      updateMembers_error isError] at ended
    exact congrArg Prod.fst (Except.ok.inj ended)
  constructor
  · rintro (stale | ⟨item, member, full⟩)
    · obtain ⟨item, member, different⟩ := exists_other typed long there
      have under := low item member different
      rw [quiet item member different] at under
      omega
    · have different : item ≠ last := by
        rintro rfl
        exact not_progress_of_error isError full.1
      have under := low item member different
      have stored := (full_store_iff stat full.1).mpr full
      omega
  · intro item member
    by_cases same : item = last
    · rw [same]
      exact .inl (store_error stat isError)
    · exact .inl ⟨room item member same, quiet item member same⟩

private theorem repeats_of_carried {json : CJson} (typed : WellTyped json.child)
    (independent : OrderIndependent stat json) (noError : ¬ HasError json.child)
    (under : stat.progressPercent < 100) {last : CJson} (there : last ∈ json.child)
    (full : last.IsFull) : Repeats stat json.child := by
  have notError (item : CJson) (member : item ∈ json.child) : ¬ item.IsError :=
    fun error => noError ⟨item, member, error⟩
  have room (item : CJson) (member : item ∈ json.child) : item.HasRoom :=
    (storable_of_independent typed independent noError item member).1
  have ends (record : BsEcuUpgradeStat) (rest : List CJson) :
      updateMembers record (last :: rest) = .ok (record.store last, 1) :=
    updateMembers_full (typed.typed last there) (notError last there) (room last there)
      ((full_store_iff record full.1).mpr full) rest
  have settled : updateMembers stat json.child = .ok (stat.store last, 1) := by
    rcases independent.front there with ⟨rest, same⟩
    exact same.symm.trans (ends stat rest)
  intro item member
  by_cases same : item = last
  · rw [same]
    exact .inr ⟨under, full⟩
  · have other : ¬ item.IsProgress :=
      fun also => same (typed.eq member there (Eq.trans also (Eq.symm full.1)))
    rcases independent.front_two member there same with ⟨rest, kept⟩
    have ended := kept.trans settled
    rw [updateMembers_low (typed.typed item member) (notError item member) (room item member)
      (store_low under (fun also => other also.1)), ends] at ended
    have records : (stat.store item).store last = stat.store last :=
      congrArg Prod.fst (Except.ok.inj ended)
    rw [store_of_progress _ full.1, store_of_progress _ full.1] at records
    obtain ⟨_, _, esti, start, stamp, _, status, _⟩ := BsEcuUpgradeStat.mk.inj records
    refine .inl ⟨room item member, ?_⟩
    ext1
    · rfl
    · rfl
    · exact esti
    · exact start
    · exact stamp
    · rfl
    · exact status
    · exact store_progress stat other

private theorem repeats_of_stale {json : CJson} (typed : WellTyped json.child)
    (independent : OrderIndependent stat json) (long : ¬ json.child.length ≤ 1)
    (noError : ¬ HasError json.child) (stale : 100 ≤ stat.progressPercent) :
    Repeats stat json.child := by
  have notError (item : CJson) (member : item ∈ json.child) : ¬ item.IsError :=
    fun error => noError ⟨item, member, error⟩
  have room (item : CJson) (member : item ∈ json.child) : item.HasRoom :=
    (storable_of_independent typed independent noError item member).1
  have ends (item : CJson) (member : item ∈ json.child)
      (full : 100 ≤ (stat.store item).progressPercent) :
      updateMembers stat json.child = .ok (stat.store item, 1) := by
    rcases independent.front member with ⟨rest, same⟩
    exact same.symm.trans
      (updateMembers_full (typed.typed item member) (notError item member) (room item member)
        full rest)
  have first (item : CJson) (member : item ∈ json.child) :
      updateMembers stat json.child = .ok (stat.store item, 1) := by
    by_cases full : 100 ≤ (stat.store item).progressPercent
    · exact ends item member full
    · have progress : item.IsProgress := by
        by_contra other
        rw [store_progress stat other] at full
        exact full stale
      obtain ⟨found, there, different⟩ := exists_other typed long member
      have other : ¬ found.IsProgress :=
        fun also => different (typed.eq there member (Eq.trans also (Eq.symm progress)))
      have settled := ends found there (by rw [store_progress stat other]; exact stale)
      obtain ⟨rest, front⟩ := perm_front member
      have ended := (independent.of_perm front).trans settled
      rw [updateMembers_low (typed.typed item member) (notError item member) (room item member)
        (by omega)] at ended
      obtain ⟨later, behind, named, _⟩ := carriesFull_of_updateMembers (by omega) ended
      have alone := (typed.perm front).distinct
      have same : later.string = item.string := Eq.trans named (Eq.symm progress)
      exact absurd (same ▸ List.mem_map_of_mem behind) (List.nodup_cons.mp alone).1
  intro item member
  obtain ⟨found, there, different⟩ := exists_other typed long member
  have records : stat.store item = stat.store found :=
    congrArg Prod.fst (Except.ok.inj ((first item member).symm.trans (first found there)))
  have apart : item.string ≠ found.string :=
    fun same => different (typed.eq there member same.symm)
  exact .inl ⟨room item member, store_eq_self apart records⟩

private theorem orderFree_of_independent {json : CJson} (typed : WellTyped json.child)
    (independent : OrderIndependent stat json) : OrderFree stat json.child := by
  by_cases short : json.child.length ≤ 1
  · exact .inl short
  · by_cases error : HasError json.child
    · obtain ⟨low, repeats⟩ := repeats_of_error typed independent short error
      exact .inr (.inr ⟨fun both => low both.2, repeats⟩)
    · by_cases full : HasFull stat json.child
      · refine .inr (.inr ⟨fun both => error both.1, ?_⟩)
        by_cases stale : 100 ≤ stat.progressPercent
        · exact repeats_of_stale typed independent short error stale
        · obtain ⟨last, there, carried⟩ := full.resolve_left stale
          exact repeats_of_carried typed independent error (by omega) there carried
      · exact .inr (.inl ⟨error, full⟩)

/-- The order of the members of a report is of no consequence exactly when
nothing ends the walk early, or one kind of end has nothing new before it. -/
theorem orderIndependent_iff {json : CJson} (typed : WellTyped json.child) :
    OrderIndependent stat json ↔
      OrderFree stat json.child ∧ (¬ HasError json.child → Storable json.child) := by
  constructor
  · intro independent
    exact ⟨orderFree_of_independent typed independent, storable_of_independent typed independent⟩
  · rintro ⟨free, storable⟩
    exact orderIndependent_of_orderFree typed free storable

end Reports

/-! ### Two reports -/

def textMember (name value : CText) : CJson :=
  .node .string (some value) 0 (some name) []

def percentMember (percent : Int) : CJson :=
  .node .number none percent (some (text "progress_percent")) []

def reportOf (items : List CJson) : CJson :=
  .node .object none 0 (some (text "result")) items

/-- A report that says how far the upgrade is, in this order. -/
def progressReport (status : CText) (percent : Int) : CJson :=
  reportOf [textMember (text "status") status, percentMember percent]

private theorem progressReport_cases {status : CText} {percent : Int} {item : CJson}
    (member : item ∈ (progressReport status percent).child) :
    item = textMember (text "status") status ∨ item = percentMember percent := by
  rcases List.mem_cons.mp member with first | second
  · exact .inl first
  · exact .inr (List.mem_singleton.mp second)

private theorem progressReport_typed (status : CText) (percent : Int) :
    WellTyped (progressReport status percent).child where
  typed := by
    intro item member
    rcases progressReport_cases member with rfl | rfl
    · exact ⟨_, rfl, fun _ => Option.some_ne_none _⟩
    · exact ⟨_, rfl, fun copied => absurd reportRoom_progress copied⟩
  distinct := by
    have names : [some (text "status"), some (text "progress_percent")].Nodup := by decide
    exact names

theorem running_report_independent :
    OrderIndependent initHmiUpgradeStat (progressReport (text "flashing") 55) := by
  refine (orderIndependent_iff (progressReport_typed _ _)).mpr ⟨.inr (.inl ⟨?_, ?_⟩), fun _ => ?_⟩
  · rintro ⟨item, member, error⟩
    rcases progressReport_cases member with rfl | rfl
    · exact absurd (Option.some.inj error) (by decide)
    · exact absurd (Option.some.inj error) (by decide)
  · rintro (stale | ⟨item, member, full⟩)
    · exact absurd stale (by decide)
    · rcases progressReport_cases member with rfl | rfl
      · exact absurd (Option.some.inj full.1) (by decide)
      · exact absurd full.2 (by decide)
  · intro item member
    rcases progressReport_cases member with rfl | rfl
    · constructor
      · intro name capacity named copied
        cases named
        have room : reportRoom (text "status") = some statusCapacity := by decide
        cases room.symm.trans copied
        exact ⟨text "flashing", rfl, by decide⟩
      · intro progress
        exact absurd (Option.some.inj progress) (by decide)
    · constructor
      · intro name capacity named copied
        cases named
        cases reportRoom_progress.symm.trans copied
      · intro _
        decide

/-- The success of an upgrade, said before the 100 percent or after them. -/
theorem finished_report_dependent :
    ¬ ∀ (stat : BsEcuUpgradeStat) (json : CJson), WellTyped json.child →
      OrderIndependent stat json := by
  intro always
  have independent :=
    always initHmiUpgradeStat (progressReport (text "success") 100) (progressReport_typed _ _)
  have same := independent.outcome
    (reportOf [percentMember 100, textMember (text "status") (text "success")])
    (List.Perm.swap _ _ _)
  have statuses := congrArg (fun outcome => outcome.toOption.map (fun pair => pair.1.status)) same
  exact absurd statuses (by decide)

end DlcServer
