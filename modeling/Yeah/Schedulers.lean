import Yeah.DualWrite
import Yeah.Runs
import Yeah.Text.Space
import Mathlib.Logic.Function.Iterate

namespace Yeah.Schedulers

open DualWrite Runs Text

/-- A repeating job in Redis, under the id of its row. -/
structure Job where
  pattern : String
  tz : String
  deriving DecidableEq

structure Application where
  id : String
  previewOfId : Option String

structure ScheduledTask where
  id : String
  applicationId : String
  name : String
  command : String
  cron : String
  timezone : String
  timeoutSeconds : Nat
  enabled : Bool

structure BackupSchedule where
  id : String
  databaseId : String
  enabled : Bool
  cron : String
  timezone : String

structure TaskBody where
  name : String
  command : String
  cron : String
  timezone : Option String
  timeoutSeconds : Option Rat
  enabled : Option Bool

/-- Of the other fields only whether the engine has backups, the storage is the team's, and the names are well formed. -/
structure ScheduleBody where
  cron : Option String
  timezone : Option String
  accepted : Bool

structure State where
  applications : Table Application.id
  databases : List String
  tasks : Store ScheduledTask.id Job
  schedules : Store BackupSchedule.id Job

def empty : State := ⟨.empty, [], .empty, .empty⟩

/-- How the calls of a deletion of an owner go: one before the schedulers are removed throws, each removal,
one between them and the row throws, and the row. -/
structure DeleteCalls where
  before : Bool
  removal : String → Outcome
  between : Bool
  row : Outcome

inductive Action
  /-- Also a preview. -/
  | createApplication (application : Application)
  | cloneApplication (parent id : String) (ids : Nat → String) (tasks : Outcome)
  | deleteApplication (id : String) (calls : DeleteCalls)
  | closePreview (id : String) (row : Outcome)
  | createDatabase (id : String)
  | deleteDatabase (id : String) (calls : DeleteCalls)
  | createTask (applicationId id : String) (body : TaskBody) (insert add undo : Outcome)
  | updateTask (applicationId id : String) (body : TaskBody) (job row : Outcome)
  | deleteTask (applicationId id : String) (job row : Outcome)
  | createSchedule (databaseId id : String) (body : ScheduleBody) (insert add undo : Outcome)
  | updateSchedule (databaseId id : String) (body : ScheduleBody) (job row : Outcome)
  | deleteSchedule (databaseId id : String) (job row : Outcome)

section Writes

variable {α : Type} {key : α → String}

/-- `upsertJobScheduler`, or `removeJobScheduler` where there is no job. -/
def setJob (o : Outcome) (id : String) (job : Option Job) (jobs : String → Option Job) :
    String → Option Job :=
  if o.effect then Function.update jobs id job else jobs

/-- The row first, then its job; the row is deleted again where that throws. -/
def create (s : Store key Job) (row : α) (job : Option Job) (insert add undo : Outcome) : Store key Job :=
  match s.rows.insert row with
  | none => s
  | some rows =>
      match insert, job with
      | .failed, _ => s
      | .lost, _ => ⟨rows, s.jobs⟩
      | .ok, none => ⟨rows, s.jobs⟩
      | .ok, some job =>
          let jobs := setJob add (key row) (some job) s.jobs
          if add.threw ∧ undo.effect then ⟨rows.delete fun r => key r = key row, jobs⟩ else ⟨rows, jobs⟩

/-- The job first, then the row. -/
def update (s : Store key Job) (next : α) (job : Option Job) (set row : Outcome) : Store key Job :=
  ⟨if !set.threw ∧ row.effect then s.rows.replace next else s.rows, setJob set (key next) job s.jobs⟩

/-- The job first, then the row. -/
def remove (s : Store key Job) (id : String) (job row : Outcome) : Store key Job :=
  ⟨if !job.threw ∧ row.effect then s.rows.delete fun r => key r = id else s.rows,
    setJob job id none s.jobs⟩

end Writes

def validTimeout (timeout : Rat) : Bool := timeout.den = 1 ∧ 1 ≤ timeout ∧ timeout ≤ 86400

/-- The row that an accepted request for a new task writes. -/
def newTask (s : State) (applicationId id : String) (body : TaskBody) : Option ScheduledTask :=
  let timeout := body.timeoutSeconds.getD 300
  if (s.applications.find applicationId).isNone ∨ !validTimeout timeout then none
  else
    some ⟨id, applicationId, body.name, body.command, trim body.cron, body.timezone.getD "UTC", timeout.num.toNat, body.enabled.getD true⟩

def findTask (s : State) (applicationId id : String) : Option ScheduledTask :=
  if (s.applications.find applicationId).isNone then none else (s.tasks.rows.find id).filter fun t => t.applicationId = applicationId

def nextTask (task : ScheduledTask) (body : TaskBody) : Option ScheduledTask :=
  let timeout := body.timeoutSeconds.getD task.timeoutSeconds
  if !validTimeout timeout then none
  else
    some { task with
      name := body.name
      command := body.command
      cron := trim body.cron
      timezone := body.timezone.getD task.timezone
      timeoutSeconds := timeout.num.toNat
      enabled := body.enabled.getD task.enabled }

def taskJob (task : ScheduledTask) : Option Job :=
  if task.enabled then some ⟨task.cron, task.timezone⟩ else none

def newSchedule (s : State) (databaseId id : String) (body : ScheduleBody) : Option BackupSchedule :=
  match body.cron with
  | none => none
  | some cron =>
      if databaseId ∉ s.databases ∨ !body.accepted ∨
        s.schedules.rows.rows.any fun c => c.databaseId = databaseId then none
      else some ⟨id, databaseId, true, cron, body.timezone.getD "UTC"⟩

def findSchedule (s : State) (databaseId id : String) : Option BackupSchedule :=
  if databaseId ∉ s.databases then none else (s.schedules.rows.find id).filter fun c => c.databaseId = databaseId

def nextSchedule (schedule : BackupSchedule) (body : ScheduleBody) : Option BackupSchedule :=
  if !body.accepted then none
  else some { schedule with cron := body.cron.getD schedule.cron, timezone := body.timezone.getD schedule.timezone }

/-- The rows that `ON DELETE CASCADE` takes with an application. -/
def cascade (applications : Table Application.id) (id : String) : List String :=
  Nat.iterate (fun ids => ids ++ (applications.rows.filter fun a => a.previewOfId.any (· ∈ ids)).map (·.id)) applications.rows.length [id]

def deleteRows (s : State) (id : String) : State :=
  { s with
    applications := s.applications.delete fun a => a.id ∈ cascade s.applications id
    tasks := ⟨s.tasks.rows.delete fun t => t.applicationId ∈ cascade s.applications id, s.tasks.jobs⟩ }

/-- The schedulers of the application's own tasks, one after another; what they throw is swallowed. -/
def removeJobs (removal : String → Outcome) (ids : List String) (jobs : String → Option Job) :
    String → Option Job :=
  ids.foldl (fun jobs id => setJob (removal id) id none jobs) jobs

def taskRows (s : State) (id : String) : List String :=
  (s.tasks.rows.rows.filter fun t => t.applicationId = id).map (·.id)

def deleteApplication (s : State) (id : String) (calls : DeleteCalls) : State :=
  if (s.applications.find id).isNone ∨ calls.before then s
  else
    let s := { s with tasks := ⟨s.tasks.rows, removeJobs calls.removal (taskRows s id) s.tasks.jobs⟩ }
    if calls.between ∨ !calls.row.effect then s else deleteRows s id

/-- The row only. -/
def closePreview (s : State) (id : String) (row : Outcome) : State :=
  if (s.applications.find id).any (·.previewOfId.isSome) ∧ row.effect then deleteRows s id else s

def scheduleOf (s : State) (databaseId : String) : Option BackupSchedule :=
  s.schedules.rows.rows.find? fun c => c.databaseId = databaseId

def deleteDatabase (s : State) (id : String) (calls : DeleteCalls) : State :=
  if id ∉ s.databases ∨ calls.before then s
  else
    let schedule := scheduleOf s id
    let jobs := match schedule with
      | none => s.schedules.jobs
      | some c => setJob (calls.removal c.id) c.id none s.schedules.jobs
    if (schedule.any fun c => (calls.removal c.id).threw) ∨ calls.between ∨ !calls.row.effect then
      { s with schedules := ⟨s.schedules.rows, jobs⟩ }
    else
      { s with
        databases := s.databases.filter (· ≠ id)
        schedules := ⟨s.schedules.rows.delete fun c => c.databaseId = id, jobs⟩ }

/-- One statement: all the rows or none. -/
def insertTasks (rows : Table ScheduledTask.id) (tasks : List ScheduledTask) :
    Option (Table ScheduledTask.id) :=
  tasks.foldlM (fun rows t => rows.insert t) rows

/-- The copied tasks come along paused. -/
def cloneTasks (s : State) (parent id : String) (ids : Nat → String) : List ScheduledTask :=
  (s.tasks.rows.rows.filter fun t => t.applicationId = parent).mapIdx fun i t => { t with id := ids i, applicationId := id, enabled := false }

def cloneApplication (s : State) (parent id : String) (ids : Nat → String) (tasks : Outcome) : State :=
  match s.applications.find parent, s.applications.insert ⟨id, none⟩ with
  | some _, some applications =>
      if tasks.effect then
        { s with applications, tasks := ⟨(insertTasks s.tasks.rows (cloneTasks s parent id ids)).getD s.tasks.rows, s.tasks.jobs⟩ }
      else { s with applications }
  | _, _ => s

def step (s : State) : Action → State
  | .createApplication application =>
      if application.previewOfId.all fun parent => (s.applications.find parent).isSome then
        { s with applications := (s.applications.insert application).getD s.applications }
      else s
  | .cloneApplication parent id ids tasks => cloneApplication s parent id ids tasks
  | .deleteApplication id calls => deleteApplication s id calls
  | .closePreview id row => closePreview s id row
  | .createDatabase id => { s with databases := s.databases ++ [id] }
  | .deleteDatabase id calls => deleteDatabase s id calls
  | .createTask applicationId id body insert add undo =>
      match newTask s applicationId id body with
      | none => s
      | some task => { s with tasks := create s.tasks task (taskJob task) insert add undo }
  | .updateTask applicationId id body job row =>
      match (findTask s applicationId id).bind fun task => nextTask task body with
      | none => s
      | some next => { s with tasks := update s.tasks next (taskJob next) job row }
  | .deleteTask applicationId id job row =>
      match findTask s applicationId id with
      | none => s
      | some task => { s with tasks := remove s.tasks task.id job row }
  | .createSchedule databaseId id body insert add undo =>
      match newSchedule s databaseId id body with
      | none => s
      | some c => { s with schedules := create s.schedules c (some ⟨c.cron, c.timezone⟩) insert add undo }
  | .updateSchedule databaseId id body job row =>
      match (findSchedule s databaseId id).bind fun c => nextSchedule c body with
      | none => s
      | some next => { s with schedules := update s.schedules next (some ⟨next.cron, next.timezone⟩) job row }
  | .deleteSchedule databaseId id job row =>
      match findSchedule s databaseId id with
      | none => s
      | some c => { s with schedules := remove s.schedules c.id job row }

/-! ### What is promised -/

/-- An enabled schedule has a job with its cron expression and its time zone. -/
def scheduleJob (c : BackupSchedule) : Option Job := if c.enabled then some ⟨c.cron, c.timezone⟩ else none

def Agree (s : State) : Prop := Agrees taskJob s.tasks ∧ Agrees scheduleJob s.schedules

/-! ### When the writes agree -/

def CreateSafe (insert add undo : Outcome) : Prop :=
  insert = .failed ∨ (insert = .ok ∧ (add = .ok ∨ (add = .failed ∧ undo.effect = true) ∨ (add = .lost ∧ undo.effect = false)))

/-- The job is removed only with the row. -/
def RemoveSafe (job row : Outcome) : Prop := job = .failed ∨ (job = .ok ∧ row.effect = true)

section Writes

variable {α : Type} {key : α → String} {job : α → Option Job} {s : Store key Job} {row next : α}

theorem setJob_of_ne {o : Outcome} {id k : String} (j : Option Job) (jobs : String → Option Job)
    (h : k ≠ id) :
    setJob o id j jobs k = jobs k := by
  rw [setJob]
  split
  · exact Function.update_of_ne h _ _
  · rfl

theorem setJob_self (o : Outcome) (id : String) (j : Option Job) (jobs : String → Option Job) :
    setJob o id j jobs id = if o.effect then j else jobs id := by
  rw [setJob]
  split
  · exact Function.update_self _ _ _
  · rfl

theorem create_agrees_iff (h : Agrees job s) (insert add undo : Outcome) :
    Agrees job (create s row (job row) insert add undo) ↔
      (s.rows.find (key row) = none → job row ≠ none → CreateSafe insert add undo) := by
  cases hi : s.rows.insert row with
  | none =>
      have hkey := Table.insert_eq_none hi
      have hsame : create s row (job row) insert add undo = s := by rw [create, hi]
      rw [hsame]
      exact ⟨fun _ hn => absurd hn hkey, fun _ => h⟩
  | some rows =>
      have hnone := Table.find_insert_none hi
      have hfind (k : String) := Table.find_insert hi k
      have hjob : s.jobs (key row) = none := by rw [h, hnone, Option.bind_none]
      -- what is looked at: the entry and the row under the new key
      have hat (s' : Store key Job) (hrows : ∀ k ≠ key row, s'.rows.find k = rows.find k) (hjobs : ∀ k ≠ key row, s'.jobs k = s.jobs k) :
          Agrees job s' ↔ s'.jobs (key row) = (s'.rows.find (key row)).bind job := by
        refine agrees_at h (fun k hk => ?_) hjobs
        rw [hrows k hk, hfind, if_neg hk]
      have hrow : (rows.find (key row)).bind job = job row := by rw [hfind, if_pos rfl, Option.bind_some]
      have hkept : Agrees job (⟨rows, s.jobs⟩ : Store key Job) ↔ job row = none := by
        rw [hat ⟨rows, s.jobs⟩ (fun _ _ => rfl) fun _ _ => rfl, hrow, hjob, eq_comm]
      cases insert with
      | failed =>
          have hsame : create s row (job row) .failed add undo = s := by rw [create, hi]
          rw [hsame]
          exact ⟨fun _ _ _ => Or.inl rfl, fun _ => h⟩
      | lost =>
          have heq : create s row (job row) .lost add undo = ⟨rows, s.jobs⟩ := by rw [create, hi]
          rw [heq, hkept]
          simp [hnone, CreateSafe]
      | ok =>
          cases hj : job row with
          | none =>
              have heq : create s row none .ok add undo = ⟨rows, s.jobs⟩ := by rw [create, hi]
              rw [heq, hkept, hj]
              simp
          | some j =>
              have heq : create s row (some j) .ok add undo =
                  if add.threw ∧ undo.effect then ⟨rows.delete fun r => key r = key row, setJob add (key row) (some j) s.jobs⟩
                  else ⟨rows, setJob add (key row) (some j) s.jobs⟩ := by
                rw [create, hi]
              have hjobs : ∀ k ≠ key row, setJob add (key row) (some j) s.jobs k = s.jobs k :=
                fun k hk => setJob_of_ne _ _ hk
              have hself : setJob add (key row) (some j) s.jobs (key row) =
                  if add.effect then some j else none := by
                rw [setJob_self, hjob]
              have hundone : ((rows.delete fun r => key r = key row).find (key row)).bind job = none := by
                rw [Table.find_delete_self, Option.bind_none]
              rw [heq]
              by_cases hu : add.threw = true ∧ undo.effect = true
              · rw [if_pos hu, hat _ (fun _ hk => Table.find_delete_key hk) hjobs]
                change setJob add (key row) (some j) s.jobs (key row) = _ ↔ _
                rw [hself, hundone]
                cases add <;> simp_all [CreateSafe, Outcome.effect, Outcome.threw]
              · rw [if_neg hu, hat _ (fun _ _ => rfl) hjobs]
                change setJob add (key row) (some j) s.jobs (key row) = _ ↔ _
                rw [hself, hrow, hj]
                cases add <;> simp_all [CreateSafe, Outcome.effect, Outcome.threw]

theorem update_agrees_iff (h : Agrees job s) (hrow : s.rows.find (key next) = some row)
    (set write : Outcome) :
    Agrees job (update s next (job next) set write) ↔
      (set.effect = true → (set = .ok ∧ write.effect = true) ∨ job next = job row) := by
  have hjob : s.jobs (key next) = job row := by rw [h, hrow, Option.bind_some]
  have hat : Agrees job (update s next (job next) set write) ↔
    (if set.effect then job next else job row) =
      if !set.threw ∧ write.effect then job next else job row := by
    rw [agrees_at h (m := key next)]
    · have hfound : ((update s next (job next) set write).rows.find (key next)).bind job =
          if !set.threw ∧ write.effect then job next else job row := by
        dsimp only [update]
        split
        · rw [Table.find_replace, if_pos rfl, hrow, Option.map_some, Option.bind_some]
        · rw [hrow, Option.bind_some]
      rw [hfound]
      dsimp only [update]
      rw [setJob_self, hjob]
    · intro k hk
      dsimp only [update]
      split
      · rw [Table.find_replace, if_neg hk]
      · rfl
    · exact fun k hk => setJob_of_ne _ _ hk
  rw [hat]
  cases set <;> cases write <;> simp [Outcome.effect, Outcome.threw]

theorem remove_agrees_iff (h : Agrees job s) {id : String} (hrow : s.rows.find id = some row)
    (rm write : Outcome) :
    Agrees job (remove s id rm write) ↔ (job row ≠ none → RemoveSafe rm write) := by
  have hjob : s.jobs id = job row := by rw [h, hrow, Option.bind_some]
  have hat : Agrees job (remove s id rm write) ↔ (if rm.effect then none else job row) =
      if !rm.threw ∧ write.effect then none else job row := by
    rw [agrees_at h (m := id)]
    · have hfound : ((remove s id rm write).rows.find id).bind job = if !rm.threw ∧
        write.effect then none else job row := by
        dsimp only [remove]
        split
        · rw [Table.find_delete_self, Option.bind_none]
        · rw [hrow, Option.bind_some]
      rw [hfound]
      dsimp only [remove]
      rw [setJob_self, hjob]
    · intro k hk
      dsimp only [remove]
      split
      · exact Table.find_delete_key hk
      · rfl
    · exact fun k hk => setJob_of_ne _ _ hk
  rw [hat]
  cases hj : job row <;> cases rm <;> cases write <;> simp [Outcome.effect, Outcome.threw, RemoveSafe]

theorem create_rows_sublist (s : Store key Job) (row : α) (j : Option Job) (insert add undo : Outcome) :
    (create s row j insert add undo).rows.rows.Sublist (s.rows.rows ++ [row]) := by
  rw [create]
  split
  · exact List.sublist_append_left _ _
  · next rows hi =>
    have hrows := Table.rows_insert hi
    split
    · exact List.sublist_append_left _ _
    · exact hrows ▸ List.Sublist.refl _
    · exact hrows ▸ List.Sublist.refl _
    · dsimp only
      split
      · exact hrows ▸ List.filter_sublist
      · exact hrows ▸ List.Sublist.refl _

theorem remove_rows_sublist (s : Store key Job) (id : String) (rm write : Outcome) :
    (remove s id rm write).rows.rows.Sublist s.rows.rows := by
  rw [remove]
  dsimp only
  split
  · exact List.filter_sublist
  · exact List.Sublist.refl _

theorem update_rows_map {γ : Type} (f : α → γ) (hrow : s.rows.find (key next) = some row)
    (hf : f next = f row) (j : Option Job)
    (set write : Outcome) : (update s next j set write).rows.rows.map f = s.rows.rows.map f := by
  rw [update]
  dsimp only
  split
  · exact Table.map_replace f hrow hf
  · rfl

theorem removeJobs_apply (removal : String → Outcome) (ids : List String) (jobs : String → Option Job)
    (k : String) :
    removeJobs removal ids jobs k = if k ∈ ids ∧ (removal k).effect = true then none else jobs k := by
  induction ids generalizing jobs with
  | nil => simp [removeJobs]
  | cons id ids ih =>
      have hstep : removeJobs removal (id :: ids) jobs =
          removeJobs removal ids (setJob (removal id) id none jobs) :=
        rfl
      rw [hstep, ih]
      by_cases hk : k = id
      · rw [hk, setJob_self]
        by_cases he : (removal id).effect = true <;> simp [he]
      · rw [setJob_of_ne _ _ hk]
        simp [hk]

end Writes

/-! ### The owners -/

section Owners

variable {s : State}

theorem mem_cascade (applications : Table Application.id) (id : String) :
    id ∈ cascade applications id := by
  have h (f : List String → List String) (hf : ∀ l, id ∈ l → id ∈ f l) (n : Nat) (l : List String) (hl : id ∈ l) : id ∈ Nat.iterate f n l := by
    induction n generalizing l with
    | zero => exact hl
    | succ n ih => exact ih (f l) (hf l hl)
  exact h _ (fun l hl => List.mem_append_left _ hl) _ _ (List.mem_singleton_self id)

theorem taskJob_ne_none {t : ScheduledTask} : taskJob t ≠ none ↔ t.enabled = true := by
  rw [taskJob]
  split <;> simp_all

theorem scheduleJob_of_enabled {c : BackupSchedule} (h : c.enabled = true) :
    scheduleJob c = some ⟨c.cron, c.timezone⟩ := if_pos h

/-- The row of the owner is deleted. -/
def DeleteCalls.gone (calls : DeleteCalls) : Bool := !calls.between && calls.row.effect

/-- The scheduler of an own task is removed if and only if the row of the application is deleted, and that of a task of
a preview stays only with the preview. -/
structure DeleteSafe (s : State) (id : String) (calls : DeleteCalls) (t : ScheduledTask) : Prop where
  own : t.applicationId = id → (calls.removal t.id).effect = calls.gone
  preview : t.applicationId ≠ id → t.applicationId ∈ cascade s.applications id → calls.gone = false

theorem deleteApplication_agrees_iff (h : Agrees taskJob s.tasks) {id : String} {calls : DeleteCalls}
    (ha : (s.applications.find id).isSome = true)
    (hb : calls.before = false) :
    Agrees taskJob (deleteApplication s id calls).tasks ↔
      ∀ t ∈ s.tasks.rows.rows, t.enabled = true → DeleteSafe s id calls t := by
  have hown (t : ScheduledTask) (ht : t ∈ s.tasks.rows.rows) :
      t.id ∈ taskRows s id ↔ t.applicationId = id := by
    constructor
    · intro hm
      obtain ⟨u, hu, hid⟩ := List.mem_map.1 hm
      obtain ⟨hu, happ⟩ := List.mem_filter.1 hu
      obtain rfl : u = t := List.inj_on_of_nodup_map s.tasks.rows.nodup hu ht hid
      exact of_decide_eq_true happ
    · exact fun happ => List.mem_map_of_mem (List.mem_filter.2 ⟨ht, decide_eq_true happ⟩)
  have hrun : deleteApplication s id calls =
      if calls.between ∨ !calls.row.effect then
        { s with tasks := ⟨s.tasks.rows, removeJobs calls.removal (taskRows s id) s.tasks.jobs⟩ }
      else deleteRows { s with tasks := ⟨s.tasks.rows, removeJobs calls.removal (taskRows s id) s.tasks.jobs⟩ } id := by
    rw [deleteApplication, if_neg]
    simp [hb, Option.isSome_iff_ne_none.1 ha]
  rw [agrees_delete h (p := fun t => calls.gone && decide (t.applicationId ∈ cascade s.applications id))
    (q := fun k => decide (k ∈ taskRows s id ∧ (calls.removal k).effect = true))]
  · refine forall₂_congr fun t ht => ?_
    rw [taskJob_ne_none]
    refine imp_congr_right fun _ => ?_
    simp only [hown t ht]
    constructor
    · intro he
      refine ⟨fun happ => ?_, fun happ hc => ?_⟩
      · simpa [happ, mem_cascade] using he
      · simpa [happ, hc] using he
    · rintro ⟨hself, hpreview⟩
      by_cases happ : t.applicationId = id
      · simpa [happ, mem_cascade] using hself happ
      · by_cases hc : t.applicationId ∈ cascade s.applications id
        · simp [happ, hpreview happ hc]
        · simp [happ, hc]
  · intro k
    rw [hrun]
    by_cases hg : calls.between = true ∨ (!calls.row.effect) = true
    · have hgone : calls.gone = false := by
        rcases hg with hg | hg
        · simp [DeleteCalls.gone, hg]
        · simp [DeleteCalls.gone, Bool.not_eq_true' _ ▸ hg]
      rw [if_pos hg, hgone]
      simp only [Bool.false_and, Bool.not_false, filter_all]
    · have hgone : calls.gone = true := by simpa [DeleteCalls.gone] using hg
      rw [if_neg hg, hgone]
      simp only [deleteRows, Table.find_delete, Bool.true_and]
  · intro k
    rw [hrun]
    have hjobs (c : Prop) [Decidable c] (s' : State) (jobs : String → Option Job) :
        (if c then { s' with tasks := ⟨s'.tasks.rows, jobs⟩ } else deleteRows { s' with tasks := ⟨s'.tasks.rows, jobs⟩ } id).tasks.jobs = jobs := by
      split <;> rfl
    rw [hjobs, removeJobs_apply]
    simp only [decide_eq_true_eq]

theorem closePreview_agrees_iff (h : Agrees taskJob s.tasks) {id : String} {row : Outcome}
    (hp : (s.applications.find id).any (·.previewOfId.isSome) = true) (hr : row.effect = true) :
    Agrees taskJob (closePreview s id row).tasks ↔
      ∀ t ∈ s.tasks.rows.rows, t.enabled = true → t.applicationId ∉ cascade s.applications id := by
  rw [closePreview, if_pos ⟨hp, hr⟩, agrees_delete h (p := fun t => decide (t.applicationId ∈ cascade s.applications id)) (q := fun _ => false)]
  · refine forall₂_congr fun t _ => ?_
    rw [taskJob_ne_none]
    refine imp_congr_right fun _ => ?_
    rw [eq_comm, decide_eq_false_iff_not]
  · exact fun k => Table.find_delete _ k
  · exact fun k => rfl

/-- At most one schedule for a database, and none that is switched off. -/
structure Inv (rows : List BackupSchedule) : Prop where
  enabled : ∀ c ∈ rows, c.enabled = true
  single : (rows.map (·.databaseId)).Nodup

theorem Inv.sublist {l l' : List BackupSchedule} (h : Inv l) (hl : l'.Sublist l) : Inv l' :=
  ⟨fun c hc => h.enabled c (hl.subset hc), h.single.sublist (hl.map _)⟩

theorem scheduleOf_eq_some (hi : Inv s.schedules.rows.rows) {id : String} {c : BackupSchedule} :
    scheduleOf s id = some c ↔ c ∈ s.schedules.rows.rows ∧ c.databaseId = id := by
  constructor
  · intro h
    exact ⟨List.mem_of_find?_eq_some h, by simpa using List.find?_some h⟩
  · rintro ⟨hc, rfl⟩
    exact Tables.find?_key hi.single hc

theorem deleteDatabase_agrees_iff (h : Agrees scheduleJob s.schedules) (hi : Inv s.schedules.rows.rows)
    {id : String}
    {calls : DeleteCalls} (ha : id ∈ s.databases) (hb : calls.before = false) :
    Agrees scheduleJob (deleteDatabase s id calls).schedules ↔
      ∀ c ∈ s.schedules.rows.rows, c.databaseId = id →
        calls.removal c.id = .failed ∨ (calls.removal c.id = .ok ∧ calls.gone = true) := by
  have hstart : ¬ (id ∉ s.databases ∨ calls.before = true) := by simp [ha, hb]
  have hstop : (calls.between = true ∨ (!calls.row.effect) = true) ↔ ¬ calls.gone = true := by
    simp [DeleteCalls.gone, imp_iff_not_or]
  rw [deleteDatabase, if_neg hstart]
  cases hc : scheduleOf s id with
  | none =>
      have hno (c : BackupSchedule) (hm : c ∈ s.schedules.rows.rows) : c.databaseId ≠ id := fun he => by
        rw [(scheduleOf_eq_some hi).2 ⟨hm, he⟩] at hc
        cases hc
      refine iff_of_true ?_ fun c hm he => absurd he (hno c hm)
      dsimp only
      split
      · exact h
      · rw [agrees_delete h (p := fun c => decide (c.databaseId = id)) (q := fun _ => false)]
        · exact fun c hm _ => (decide_eq_false (hno c hm)).symm
        · exact fun k => Table.find_delete _ k
        · exact fun _ => rfl
  | some c =>
      obtain ⟨hm, hid⟩ := (scheduleOf_eq_some hi).1 hc
      have honly : (∀ c' ∈ s.schedules.rows.rows, c'.databaseId = id →
          calls.removal c'.id = .failed ∨ (calls.removal c'.id = .ok ∧ calls.gone = true)) ↔
          (calls.removal c.id = .failed ∨ (calls.removal c.id = .ok ∧ calls.gone = true)) := by
        refine ⟨fun hall => hall c hm hid, fun hsafe c' hm' hid' => ?_⟩
        obtain rfl : c' = c := List.inj_on_of_nodup_map hi.single hm' hm (hid'.trans hid.symm)
        exact hsafe
      have hone (s' : Store BackupSchedule.id Job) (b : Bool)
          (hrows : ∀ k, s'.rows.find k = (s.schedules.rows.find k).filter fun c' => !(b && decide (c'.databaseId = id)))
          (hjobs : s'.jobs = setJob (calls.removal c.id) c.id none s.schedules.jobs) :
          Agrees scheduleJob s' ↔ (calls.removal c.id).effect = b := by
        rw [agrees_delete h hrows (q := fun k => decide (k = c.id) && (calls.removal c.id).effect)]
        · constructor
          · intro hall
            have := hall c hm (by simp [scheduleJob_of_enabled (hi.enabled c hm)])
            simpa [hid] using this
          · intro he c' hm' _
            by_cases hid' : c'.databaseId = id
            · obtain rfl : c' = c := List.inj_on_of_nodup_map hi.single hm' hm (hid'.trans hid.symm)
              simpa [hid] using he
            · have hne : c'.id ≠ c.id :=
                fun hk => hid' (List.inj_on_of_nodup_map s.schedules.rows.nodup hm' hm hk ▸ hid)
              simp [hid', hne]
        · intro k
          rw [hjobs]
          by_cases hk : k = c.id
          · rw [hk, setJob_self]
            simp
          · rw [setJob_of_ne _ _ hk]
            simp [hk]
      rw [honly]
      dsimp only [Option.any_some]
      by_cases hthrew : (calls.removal c.id).threw = true ∨ calls.between = true ∨
        (!calls.row.effect) = true
      · rw [if_pos hthrew, hone _ false (fun k => ?_) rfl]
        · rw [hstop] at hthrew
          revert hthrew
          cases calls.removal c.id <;> simp [Outcome.effect, Outcome.threw]
        · simp only [Bool.false_and, Bool.not_false, filter_all]
      · rw [if_neg hthrew, hone _ true (fun k => ?_) rfl]
        · rw [hstop] at hthrew
          revert hthrew
          cases calls.removal c.id <;> simp [Outcome.effect, Outcome.threw]
        · simp only [Table.find_delete, Bool.true_and]

theorem insertTasks_agrees {job : ScheduledTask → Option Job} {rows rows' : Table ScheduledTask.id}
    {jobs : String → Option Job}
    (h : Agrees job (⟨rows, jobs⟩ : Store ScheduledTask.id Job)) {tasks : List ScheduledTask}
    (hidle : ∀ t ∈ tasks, job t = none)
    (hi : insertTasks rows tasks = some rows') :
    Agrees job (⟨rows', jobs⟩ : Store ScheduledTask.id Job) := by
  induction tasks generalizing rows with
  | nil =>
      obtain rfl : rows = rows' := Option.some_inj.1 hi
      exact h
  | cons t tasks ih =>
      rw [insertTasks, List.foldlM_cons] at hi
      obtain ⟨rows₁, h₁, hi⟩ := Option.bind_eq_some_iff.1 hi
      exact ih (h.insert_idle h₁ (hidle t List.mem_cons_self))
        (fun u hu => hidle u (List.mem_cons_of_mem _ hu)) hi

theorem cloneApplication_agrees (h : Agrees taskJob s.tasks) (parent id : String) (ids : Nat → String)
    (tasks : Outcome) :
    Agrees taskJob (cloneApplication s parent id ids tasks).tasks := by
  rw [cloneApplication]
  split
  · split
    · cases hi : insertTasks s.tasks.rows (cloneTasks s parent id ids) with
      | none => exact h
      | some rows =>
          refine insertTasks_agrees h (fun t ht => ?_) hi
          obtain ⟨i, hi, rfl⟩ := List.mem_mapIdx.1 ht
          rfl
    · exact h
  · exact h

end Owners

/-! ### The condition on a step -/

/-- Each request makes both of its writes or neither, and no task of a preview is left to the cascade while it is enabled. -/
def Calm (s : State) : Action → Prop
  | .createTask applicationId id body insert add undo =>
      ∀ t, newTask s applicationId id body = some t → s.tasks.rows.find id = none → t.enabled = true →
        CreateSafe insert add undo
  | .updateTask applicationId id body job row =>
      ∀ t next, findTask s applicationId id = some t → nextTask t body = some next → job.effect = true →
        (job = .ok ∧ row.effect = true) ∨ taskJob next = taskJob t
  | .deleteTask applicationId id job row => ∀ t, findTask s applicationId id = some t → t.enabled = true → RemoveSafe job row
  | .deleteApplication id calls =>
      (s.applications.find id).isSome = true → calls.before = false →
          ∀ t ∈ s.tasks.rows.rows, t.enabled = true → DeleteSafe s id calls t
  | .closePreview id row =>
      (s.applications.find id).any (·.previewOfId.isSome) = true → row.effect = true →
        ∀ t ∈ s.tasks.rows.rows, t.enabled = true → t.applicationId ∉ cascade s.applications id
  | .createSchedule databaseId id body insert add undo =>
      ∀ c, newSchedule s databaseId id body = some c → s.schedules.rows.find id = none →
        CreateSafe insert add undo
  | .updateSchedule databaseId id body job row =>
      ∀ c next, findSchedule s databaseId id = some c → nextSchedule c body = some next →
        job.effect = true →
        (job = .ok ∧ row.effect = true) ∨ (next.cron = c.cron ∧ next.timezone = c.timezone)
  | .deleteSchedule databaseId id job row => ∀ c, findSchedule s databaseId id = some c → RemoveSafe job row
  | .deleteDatabase id calls =>
      id ∈ s.databases → calls.before = false → ∀ c ∈ s.schedules.rows.rows, c.databaseId = id →
        calls.removal c.id = .failed ∨ (calls.removal c.id = .ok ∧ calls.gone = true)
  | .createApplication _ | .cloneApplication _ _ _ _ | .createDatabase _ => True

section Steps

variable {s : State}

theorem findTask_eq_some {applicationId id : String} {t : ScheduledTask}
    (h : findTask s applicationId id = some t) : s.tasks.rows.find id = some t := by
  rw [findTask] at h
  split at h
  · cases h
  · exact (Option.filter_eq_some_iff.1 h).1

theorem findSchedule_eq_some {databaseId id : String} {c : BackupSchedule}
    (h : findSchedule s databaseId id = some c) :
    s.schedules.rows.find id = some c := by
  rw [findSchedule] at h
  split at h
  · cases h
  · exact (Option.filter_eq_some_iff.1 h).1

theorem nextTask_id {t next : ScheduledTask} {body : TaskBody} (h : nextTask t body = some next) :
    next.id = t.id := by
  rw [nextTask] at h
  split at h
  · cases h
  · obtain rfl := Option.some_inj.1 h
    rfl

/-- The update of a schedule keeps its owner, and that it is enabled. -/
theorem nextSchedule_same {c next : BackupSchedule} {body : ScheduleBody}
    (h : nextSchedule c body = some next) :
    next.id = c.id ∧ next.databaseId = c.databaseId ∧ next.enabled = c.enabled := by
  rw [nextSchedule] at h
  split at h
  · cases h
  · obtain rfl := Option.some_inj.1 h
    exact ⟨rfl, rfl, rfl⟩

theorem newTask_id {applicationId id : String} {body : TaskBody} {t : ScheduledTask}
    (h : newTask s applicationId id body = some t) : t.id = id := by
  rw [newTask] at h
  split at h
  · cases h
  · obtain rfl := Option.some_inj.1 h
    rfl

theorem newSchedule_spec {databaseId id : String} {body : ScheduleBody} {c : BackupSchedule}
    (h : newSchedule s databaseId id body = some c) :
    c.id = id ∧ c.databaseId = databaseId ∧ c.enabled = true ∧
      ∀ c' ∈ s.schedules.rows.rows, c'.databaseId ≠ databaseId := by
  rw [newSchedule] at h
  split at h
  · cases h
  · split at h
    · cases h
    · next hn =>
      obtain rfl := Option.some_inj.1 h
      refine ⟨rfl, rfl, rfl, fun c' hc' he => hn (Or.inr (Or.inr ?_))⟩
      exact List.any_eq_true.2 ⟨c', hc', decide_eq_true he⟩

theorem inv_empty : Inv empty.schedules.rows.rows :=
  ⟨fun _ hc => absurd hc List.not_mem_nil, List.nodup_nil⟩

theorem inv_step (hi : Inv s.schedules.rows.rows) (a : Action) : Inv (step s a).schedules.rows.rows := by
  cases a with
  | createApplication application =>
      rw [step]
      split <;> exact hi
  | cloneApplication parent id ids tasks =>
      rw [step, cloneApplication]
      split
      · split <;> exact hi
      · exact hi
  | deleteApplication id calls =>
      rw [step, deleteApplication]
      split
      · exact hi
      · dsimp only
        split <;> exact hi
  | closePreview id row =>
      rw [step, closePreview]
      split <;> exact hi
  | createDatabase id => exact hi
  | deleteDatabase id calls =>
      rw [step, deleteDatabase]
      split
      · exact hi
      · dsimp only
        split
        · exact hi
        · exact hi.sublist List.filter_sublist
  | createTask applicationId id body insert add undo =>
      rw [step]
      split <;> exact hi
  | updateTask applicationId id body job row =>
      rw [step]
      split <;> exact hi
  | deleteTask applicationId id job row =>
      rw [step]
      split <;> exact hi
  | createSchedule databaseId id body insert add undo =>
      rw [step]
      split
      · exact hi
      · next c hc =>
        obtain ⟨-, hdb, hen, hno⟩ := newSchedule_spec hc
        have hall : Inv (s.schedules.rows.rows ++ [c]) := by
          refine ⟨fun c' hc' => ?_, ?_⟩
          · rcases List.mem_append.1 hc' with hc' | hc'
            · exact hi.enabled c' hc'
            · exact List.mem_singleton.1 hc' ▸ hen
          · rw [List.map_append, List.map_singleton, List.nodup_append]
            refine ⟨hi.single, List.nodup_singleton _, fun d hd d' hd' he => ?_⟩
            obtain ⟨c', hc', rfl⟩ := List.mem_map.1 hd
            exact hno c' hc' (he.trans ((List.mem_singleton.1 hd').trans hdb))
        exact hall.sublist (create_rows_sublist _ _ _ _ _ _)
  | updateSchedule databaseId id body job row =>
      rw [step]
      split
      · exact hi
      · next next hn =>
        obtain ⟨c, hc, hnext⟩ := Option.bind_eq_some_iff.1 hn
        obtain ⟨hid, hdb, hen⟩ := nextSchedule_same hnext
        have hfind : s.schedules.rows.find next.id = some c := by
          rw [hid, Table.key_of_find (findSchedule_eq_some hc)]
          exact findSchedule_eq_some hc
        refine ⟨fun c' hc' => ?_, ?_⟩
        · have hmem : c'.enabled ∈ (update s.schedules next (some ⟨next.cron, next.timezone⟩) job row).rows.rows.map (·.enabled) :=
            List.mem_map_of_mem hc'
          rw [update_rows_map (·.enabled) hfind hen] at hmem
          obtain ⟨d, hd, he⟩ := List.mem_map.1 hmem
          exact he ▸ hi.enabled d hd
        · dsimp only
          rw [update_rows_map (·.databaseId) hfind hdb]
          exact hi.single
  | deleteSchedule databaseId id job row =>
      rw [step]
      split
      · exact hi
      · exact hi.sublist (remove_rows_sublist _ _ _ _)

theorem agree_step_iff (hi : Inv s.schedules.rows.rows) (h : Agree s) (a : Action) :
    Agree (step s a) ↔ Calm s a := by
  obtain ⟨ht, hc⟩ := id h
  cases a with
  | createApplication application =>
      rw [step]
      split <;> exact iff_of_true h trivial
  | cloneApplication parent id ids tasks =>
      refine iff_of_true ⟨cloneApplication_agrees ht parent id ids tasks, ?_⟩ trivial
      rw [step, cloneApplication]
      split
      · split <;> exact hc
      · exact hc
  | createDatabase id => exact iff_of_true h trivial
  | deleteApplication id calls =>
      have hs : (deleteApplication s id calls).schedules = s.schedules := by
        rw [deleteApplication]
        split
        · rfl
        · dsimp only
          split <;> rfl
      by_cases hstart : (s.applications.find id).isSome = true ∧ calls.before = false
      · obtain ⟨ha, hb⟩ := hstart
        have hsplit : Agree (step s (.deleteApplication id calls)) ↔
          Agrees taskJob (deleteApplication s id calls).tasks :=
          and_iff_left (hs ▸ hc)
        rw [hsplit, deleteApplication_agrees_iff ht ha hb]
        exact ⟨fun hall _ _ => hall, fun hall => hall ha hb⟩
      · have hsame : step s (.deleteApplication id calls) = s := by
          rw [step, deleteApplication, if_pos]
          rw [not_and_or] at hstart
          simpa using hstart
        rw [hsame]
        exact iff_of_true h fun ha hb => absurd ⟨ha, hb⟩ hstart
  | closePreview id row =>
      by_cases hp : (s.applications.find id).any (·.previewOfId.isSome) = true ∧ row.effect = true
      · have hs : (closePreview s id row).schedules = s.schedules := by
          rw [closePreview, if_pos hp]
          rfl
        have hsplit : Agree (step s (.closePreview id row)) ↔
          Agrees taskJob (closePreview s id row).tasks := and_iff_left (hs ▸ hc)
        rw [hsplit, closePreview_agrees_iff ht hp.1 hp.2]
        exact ⟨fun hall _ _ => hall, fun hall => hall hp.1 hp.2⟩
      · have hsame : step s (.closePreview id row) = s := by rw [step, closePreview, if_neg hp]
        rw [hsame]
        exact iff_of_true h fun h₁ h₂ => absurd ⟨h₁, h₂⟩ hp
  | deleteDatabase id calls =>
      have hs : (deleteDatabase s id calls).tasks = s.tasks := by
        rw [deleteDatabase]
        split
        · rfl
        · dsimp only
          split <;> rfl
      by_cases hstart : id ∈ s.databases ∧ calls.before = false
      · obtain ⟨ha, hb⟩ := hstart
        have hsplit : Agree (step s (.deleteDatabase id calls)) ↔
          Agrees scheduleJob (deleteDatabase s id calls).schedules :=
          and_iff_right (hs ▸ ht)
        rw [hsplit, deleteDatabase_agrees_iff hc hi ha hb]
        exact ⟨fun hall _ _ => hall, fun hall => hall ha hb⟩
      · have hsame : step s (.deleteDatabase id calls) = s := by
          rw [step, deleteDatabase, if_pos]
          rw [not_and_or] at hstart
          simpa using hstart
        rw [hsame]
        exact iff_of_true h fun ha hb => absurd ⟨ha, hb⟩ hstart
  | createTask applicationId id body insert add undo =>
      simp only [step, Calm]
      cases hn : newTask s applicationId id body with
      | none => exact iff_of_true h (by simp)
      | some t =>
          have hid : t.id = id := newTask_id hn
          refine (and_iff_left hc).trans ?_
          dsimp only
          rw [create_agrees_iff ht insert add undo, hid, taskJob_ne_none]
          exact ⟨fun hsafe u hu => Option.some_inj.1 hu ▸ hsafe, fun hall => hall t rfl⟩
  | updateTask applicationId id body job row =>
      simp only [step, Calm]
      cases hf : findTask s applicationId id with
      | none => exact iff_of_true h (by simp)
      | some t =>
          rw [Option.bind_some]
          cases hn : nextTask t body with
          | none => exact iff_of_true h fun u v hu hv => absurd (hn.symm.trans (Option.some_inj.1 hu ▸ hv)) (by simp)
          | some next =>
              have hfind : s.tasks.rows.find next.id = some t := by
                rw [nextTask_id hn, Table.key_of_find (findTask_eq_some hf)]
                exact findTask_eq_some hf
              refine (and_iff_left hc).trans ?_
              dsimp only
              rw [update_agrees_iff ht hfind]
              refine ⟨fun hsafe u v hu hv => ?_, fun hall => hall t next rfl hn⟩
              obtain rfl := Option.some_inj.1 hu
              obtain rfl := Option.some_inj.1 (hn.symm.trans hv)
              exact hsafe
  | deleteTask applicationId id job row =>
      simp only [step, Calm]
      cases hf : findTask s applicationId id with
      | none => exact iff_of_true h (by simp)
      | some t =>
          have hfind := findTask_eq_some hf
          refine (and_iff_left hc).trans ?_
          dsimp only
          rw [Table.key_of_find hfind, remove_agrees_iff ht hfind, taskJob_ne_none]
          exact ⟨fun hsafe u hu => Option.some_inj.1 hu ▸ hsafe, fun hall => hall t rfl⟩
  | createSchedule databaseId id body insert add undo =>
      simp only [step, Calm]
      cases hn : newSchedule s databaseId id body with
      | none => exact iff_of_true h (by simp)
      | some c =>
          obtain ⟨hid, -, hen, -⟩ := newSchedule_spec hn
          have hjob := scheduleJob_of_enabled hen
          refine (and_iff_right ht).trans ?_
          dsimp only
          rw [← hjob, create_agrees_iff hc insert add undo, hid, hjob]
          exact ⟨fun hsafe _ _ hnone => hsafe hnone (by simp), fun hall hnone _ => hall c rfl hnone⟩
  | updateSchedule databaseId id body job row =>
      simp only [step, Calm]
      cases hf : findSchedule s databaseId id with
      | none => exact iff_of_true h (by simp)
      | some c =>
          rw [Option.bind_some]
          cases hn : nextSchedule c body with
          | none => exact iff_of_true h fun u v hu hv => absurd (hn.symm.trans (Option.some_inj.1 hu ▸ hv)) (by simp)
          | some next =>
              obtain ⟨hid, -, hen⟩ := nextSchedule_same hn
              have hcen : c.enabled = true :=
                hi.enabled c (Table.find_eq_some.1 (findSchedule_eq_some hf)).1
              have hjob := scheduleJob_of_enabled (hen.trans hcen)
              have hfind : s.schedules.rows.find next.id = some c := by
                rw [hid, Table.key_of_find (findSchedule_eq_some hf)]
                exact findSchedule_eq_some hf
              have hsame : scheduleJob next = scheduleJob c ↔
                next.cron = c.cron ∧ next.timezone = c.timezone := by
                rw [hjob, scheduleJob_of_enabled hcen, Option.some_inj, Job.mk.injEq]
              refine (and_iff_right ht).trans ?_
              dsimp only
              rw [← hjob, update_agrees_iff hc hfind, hsame]
              refine ⟨fun hsafe u v hu hv => ?_, fun hall => hall c next rfl hn⟩
              obtain rfl := Option.some_inj.1 hu
              obtain rfl := Option.some_inj.1 (hn.symm.trans hv)
              exact hsafe
  | deleteSchedule databaseId id job row =>
      simp only [step, Calm]
      cases hf : findSchedule s databaseId id with
      | none => exact iff_of_true h (by simp)
      | some c =>
          have hfind := findSchedule_eq_some hf
          have hcen : c.enabled = true := hi.enabled c (Table.find_eq_some.1 hfind).1
          have hne : scheduleJob c ≠ none := by simp [scheduleJob_of_enabled hcen]
          refine (and_iff_right ht).trans ?_
          dsimp only
          rw [Table.key_of_find hfind, remove_agrees_iff hc hfind]
          exact ⟨fun hsafe _ _ => hsafe hne, fun hall _ => hall c rfl⟩

/-- The jobs are those of the enabled rows after every step exactly if no request was cut between its two writes, and no
enabled task went with a preview. -/
theorem run_agrees_iff (as : List Action) :
    (∀ u, u <+: as → Agree (run step empty u)) ↔ Along step Calm empty as :=
  prefix_iff_along (I := fun s : State => Inv s.schedules.rows.rows) (fun _ a hi _ => inv_step hi a) (fun _ a hi h => agree_step_iff hi h a)
    inv_empty ⟨agrees_empty, agrees_empty⟩ as

/-- A pull request is closed while its preview has a task. -/
theorem preview_task_keeps_ticking :
    ¬ ∀ as : List Action, Agree (run step empty as) := by
  intro h
  have := (h [.createApplication ⟨"app", none⟩, .createApplication ⟨"pr", some "app"⟩,
    .createTask "pr" "t" ⟨"clean", "rm -rf tmp", "0 3 * * *", none, none, none⟩ .ok .ok .ok, .closePreview "pr" .ok]).1 "t"
  revert this
  decide

end Steps

end Yeah.Schedulers
