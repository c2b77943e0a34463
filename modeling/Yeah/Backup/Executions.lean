import Yeah.Backup.Place
import Yeah.Runs
import Mathlib.Data.List.Sort
import Mathlib.Logic.Function.Basic

namespace Yeah.Backup.Executions

open Runs

inductive Status
  | queued
  | running
  | success
  | failed
  deriving DecidableEq

structure Schedule where
  id : String
  databaseId : String
  enabled : Bool
  retentionCount : Nat
  retentionDays : Nat
  retentionSizeGb : Nat
  storageId : Option String
  autoSyncKeepCount : Option Nat

/-- A row of `backup_executions`, with the database that its schedule belongs to. -/
structure Execution where
  id : String
  scheduleId : String
  databaseId : String
  status : Status
  filePath : Option String
  s3StorageId : Option String
  sizeBytes : Option Nat
  createdAt : Nat
  synced : Bool

/-- The tables, and in `stored` where the run of each execution left its dump: no
operation reads that, only the statements do. -/
structure State where
  serverId : String → String
  storages : List String
  schedules : List Schedule
  executions : List Execution
  stored : String → Option Place

/-- How a backup run ends: before anything was recorded, or with the dump recorded and
`retained` of the old backups dealt with when it finished or threw. -/
inductive Ending
  | failed
  | recorded (retained : Nat) (threw : Bool)

inductive Cleanup
  | failed
  | missing (gone : String → Bool)

inductive Action
  | createStorage (id : String)
  | deleteStorage (id : String)
  | createSchedule (schedule : Schedule)
  | updateSchedule (schedule : Schedule)
  | deleteSchedule (id : String) (withBackups : Bool)
  | backup (scheduleId executionId fileName : String) (now sizeBytes : Nat) (ending : Ending)
  | restore (executionId : String)
  | download (executionId : String)
  | delete (executionId : String)
  | cleanup (databaseId : String) (what : Cleanup)
  | markSynced (executionId : String)
  | prune (scheduleId : String) (keep : Option Nat)

def findExecution (s : State) (id : String) : Option Execution := s.executions.find? (·.id = id)

def newestFirst (es : List Execution) : List Execution :=
  es.insertionSort fun a b => b.createdAt ≤ a.createdAt

def successful (s : State) (scheduleId : String) : List Execution :=
  newestFirst (s.executions.filter fun e => e.scheduleId = scheduleId ∧ e.status = .success)

def overLimit (limitBytes : Nat) : Nat → List Execution → List String
  | _, [] => []
  | cumulative, e :: es =>
      let sum := cumulative + e.sizeBytes.getD 0
      if limitBytes < sum then e.id :: overLimit limitBytes sum es else overLimit limitBytes sum es

def toDelete (schedule : Schedule) (now : Nat) (es : List Execution) : List String :=
  (if 0 < schedule.retentionCount then (es.drop schedule.retentionCount).map (·.id) else []) ++
    (if 0 < schedule.retentionDays then
      (es.filter fun e => e.createdAt < now - schedule.retentionDays * 24 * 60 * 60 * 1000).map (·.id)
    else []) ++
    (if 0 < schedule.retentionSizeGb then overLimit (schedule.retentionSizeGb * 1024 * 1024 * 1024) 0 es else [])

def executionsToDelete (s : State) (schedule : Schedule) (now : Nat) : List Execution :=
  let es := successful s schedule.id
  es.filter fun e => e.id ∈ toDelete schedule now es

def remove (s : State) (es : List Execution) : State :=
  { s with executions := s.executions.filter fun e => e.id ∉ es.map (·.id) }

def pruneCandidates (s : State) (schedule : Schedule) (keep : Option Nat) : List Execution :=
  let n := max 1 ((keep <|> schedule.autoSyncKeepCount).getD 1)
  ((successful s schedule.id).drop n).filter (·.synced)

def doomed (s : State) (databaseId : String) : Cleanup → List Execution
  | .failed => s.executions.filter fun e => e.databaseId = databaseId ∧ e.status = .failed
  | .missing gone =>
      s.executions.filter fun e =>
        e.databaseId = databaseId ∧ e.status = .success ∧ e.filePath.isSome ∧ gone e.id

/-- `ON DELETE SET NULL` on the schedules and on the executions of a storage. -/
def dropStorage (s : State) (id : String) : State :=
  { s with
    storages := s.storages.filter (· ≠ id)
    schedules :=
      s.schedules.map fun c => if c.storageId = some id then { c with storageId := none } else c
    executions := s.executions.map fun e => if e.s3StorageId = some id then { e with s3StorageId := none } else e }

def backupDir (databaseId : String) : String := s!"/opt/yeah-backups/{databaseId}"

def filePath (databaseId fileName : String) : String := s!"{backupDir databaseId}/{fileName}"

def objectKey (databaseId fileName : String) : String := s!"{databaseId}/{fileName}"

/-- The row that a run writes. A storage that is gone makes it throw before it records a file. -/
def record (s : State) (schedule : Schedule) (id fileName : String) (now sizeBytes : Nat)
    (ending : Ending) :
    Execution :=
  let row : Execution := ⟨id, schedule.id, schedule.databaseId, .failed, none, none, none, now, false⟩
  match ending, schedule.storageId with
  | .failed, _ => row
  | .recorded _ _, none =>
      { row with
        status := .success
        filePath := some (filePath schedule.databaseId fileName)
        sizeBytes := some sizeBytes }
  | .recorded _ _, some storage =>
      if storage ∈ s.storages then
        { row with
          status := .success
          filePath := some (objectKey schedule.databaseId fileName)
          s3StorageId := some storage
          sizeBytes := some sizeBytes }
      else row

def destination (s : State) (schedule : Schedule) (fileName : String) : Place :=
  match schedule.storageId with
  | none => .file (s.serverId schedule.databaseId) (filePath schedule.databaseId fileName)
  | some storage => .object storage (objectKey schedule.databaseId fileName)

def insert (s : State) (schedule : Schedule) (id fileName : String) (now sizeBytes : Nat)
    (ending : Ending) : State :=
  { s with
    executions := record s schedule id fileName now sizeBytes ending :: s.executions
    stored := Function.update s.stored id (some (destination s schedule fileName)) }

def expired (s : State) (schedule : Schedule) (now : Nat) : Ending → List Execution
  | .failed => []
  | .recorded retained _ => (executionsToDelete s schedule now).take retained

/-- The handler of an exception that comes after the dump was recorded. -/
def settle (s : State) (id : String) : Ending → State
  | .recorded _ true =>
      { s with executions := s.executions.map fun e => if e.id = id then { e with status := .failed } else e }
  | _ => s

def isValidStorage (s : State) : Option String → Bool
  | none => true
  | some id => id ∈ s.storages

def step (s : State) : Action → State
  | .createStorage id => { s with storages := id :: s.storages }
  | .deleteStorage id => dropStorage s id
  | .createSchedule c =>
      if s.schedules.any (·.databaseId = c.databaseId) ∨ ¬ isValidStorage s c.storageId then s
      else { s with schedules := c :: s.schedules }
  | .updateSchedule c =>
      if isValidStorage s c.storageId then
        { s with schedules := s.schedules.map fun old => if old.id = c.id ∧ old.databaseId = c.databaseId then c else old }
      else s
  | .deleteSchedule id _ =>
      { s with
        schedules := s.schedules.filter (·.id ≠ id)
        executions := s.executions.filter (·.scheduleId ≠ id) }
  | .backup scheduleId id fileName now sizeBytes ending =>
      match s.schedules.find? (·.id = scheduleId) with
      | none => s
      | some schedule =>
          if ¬ schedule.enabled ∨ s.executions.any (·.id = id) then s
          else
            let t := insert s schedule id fileName now sizeBytes ending
            settle (remove t (expired t schedule now ending)) id ending
  | .restore _ | .download _ => s
  | .delete id => remove s (findExecution s id).toList
  | .cleanup databaseId what => remove s (doomed s databaseId what)
  | .markSynced id =>
      { s with executions := s.executions.map fun e => if e.id = id then { e with synced := true } else e }
  | .prune scheduleId keep =>
      match s.schedules.find? (·.id = scheduleId) with
      | none => s
      | some schedule => remove s (pruneCandidates s schedule keep)

def files (s : State) (es : List Execution) : List (String × Place) :=
  es.filterMap fun e =>
    (access s.storages (s.serverId e.databaseId) e.s3StorageId e.filePath).map (e.id, ·)

/-- The places that an action reads or deletes as the backup of an execution. -/
def touches (s : State) : Action → List (String × Place)
  | .deleteSchedule id withBackups =>
      if withBackups then files s (s.executions.filter (·.scheduleId = id)) else []
  | .backup scheduleId id fileName now sizeBytes ending =>
      match s.schedules.find? (·.id = scheduleId) with
      | none => []
      | some schedule =>
          if ¬ schedule.enabled ∨ s.executions.any (·.id = id) then []
          else
            let t := insert s schedule id fileName now sizeBytes ending
            files t (expired t schedule now ending)
  | .restore id => files s ((findExecution s id).toList.filter (·.status = .success))
  | .download id | .delete id => files s (findExecution s id).toList
  | .cleanup databaseId .failed => files s (doomed s databaseId .failed)
  | .cleanup databaseId (.missing _) => files s (doomed s databaseId (.missing fun _ => true))
  | .prune scheduleId keep =>
      match s.schedules.find? (·.id = scheduleId) with
      | none => []
      | some schedule => files s (pruneCandidates s schedule keep)
  | _ => []

def Placed (s : State) (e : Execution) : Prop :=
  ∀ f, e.filePath = some f → s.stored e.id = some (denote (s.serverId e.databaseId) e.s3StorageId f)

def Located (s : State) : Prop := ∀ e ∈ s.executions, Placed s e

def Allowed (s : State) : Action → Prop
  | .deleteStorage id => ∀ e ∈ s.executions, e.filePath ≠ none → e.s3StorageId ≠ some id
  | _ => True

variable {s t : State}

theorem mem_newestFirst {e : Execution} {es : List Execution} : e ∈ newestFirst es ↔ e ∈ es :=
  List.mem_insertionSort _

theorem successful_subset (s : State) (id : String) : successful s id ⊆ s.executions :=
  fun _ he => List.mem_of_mem_filter (mem_newestFirst.mp he)

theorem expired_subset (s : State) (c : Schedule) (now : Nat) (ending : Ending) :
    expired s c now ending ⊆ s.executions := by
  cases ending with
  | failed => exact List.nil_subset _
  | recorded n threw =>
      intro e he
      exact successful_subset s c.id (List.mem_of_mem_filter (List.mem_of_mem_take he))

theorem pruneCandidates_subset (s : State) (c : Schedule) (keep : Option Nat) :
    pruneCandidates s c keep ⊆ s.executions :=
  fun _ he => successful_subset s c.id (List.mem_of_mem_drop (List.mem_of_mem_filter he))

theorem doomed_subset (s : State) (id : String) (what : Cleanup) : doomed s id what ⊆ s.executions := by
  cases what <;> exact List.filter_sublist.subset

theorem findExecution_subset (s : State) (id : String) : (findExecution s id).toList ⊆ s.executions := by
  intro e he
  exact List.mem_of_find?_eq_some (Option.mem_toList.mp he)

/-- Under the invariant every consumer goes to the dump. -/
theorem Located.files (h : Located s) {es : List Execution} (hes : es ⊆ s.executions) :
    ∀ t ∈ files s es, s.stored t.1 = some t.2 := by
  intro t ht
  obtain ⟨e, he, ha⟩ := List.mem_filterMap.mp ht
  obtain ⟨p, hp, rfl⟩ := Option.map_eq_some_iff.mp ha
  obtain ⟨f, hf, rfl⟩ := access_eq_some hp
  exact h e (hes he) f hf

theorem Located.of_subset (h : Located s) (hs : t.executions ⊆ s.executions)
    (hv : t.serverId = s.serverId) (hp : t.stored = s.stored) : Located t := by
  intro e he f hf
  rw [hv, hp]
  exact h e (hs he) f hf

theorem Located.remove (h : Located s) (es : List Execution) : Located (remove s es) :=
  h.of_subset List.filter_sublist.subset rfl rfl

theorem Located.map (h : Located s) (g : Execution → Execution)
    (hg : ∀ e, (g e).id = e.id ∧ (g e).databaseId = e.databaseId ∧ (g e).filePath = e.filePath ∧
      (g e).s3StorageId = e.s3StorageId) : Located { s with executions := s.executions.map g } := by
  intro e he f hf
  obtain ⟨e, he', rfl⟩ := List.mem_map.mp he
  obtain ⟨hi, hd, hp, hs⟩ := hg e
  rw [hp] at hf
  rw [hi, hd, hs]
  exact h e he' f hf

theorem Located.settle (h : Located s) (id : String) (ending : Ending) :
    Located (settle s id ending) := by
  unfold Executions.settle
  split
  · refine h.map _ fun e => ?_
    split <;> exact ⟨rfl, rfl, rfl, rfl⟩
  · exact h

theorem Located.dropStorage (h : Located s) {id : String}
    (hid : ∀ e ∈ s.executions, e.filePath ≠ none → e.s3StorageId ≠ some id) :
    Located (dropStorage s id) := by
  intro e he f hf
  obtain ⟨e, he', rfl⟩ := List.mem_map.mp he
  by_cases hs : e.s3StorageId = some id
  · rw [if_pos hs] at hf
    exact absurd hs (hid e he' (by simp [show e.filePath = some f from hf]))
  · rw [if_neg hs] at hf ⊢
    exact h e he' f hf

theorem record_placed (s : State) (c : Schedule) (id fileName : String) (now size : Nat) (ending : Ending) :
    Placed (insert s c id fileName now size ending) (record s c id fileName now size ending) := by
  intro f hf
  cases ending with
  | failed => simp [record] at hf
  | recorded n threw =>
      cases hc : c.storageId with
      | none =>
          simp only [record, hc, Option.some.injEq] at hf
          simp [insert, record, destination, hc, hf]
      | some storage =>
          simp only [record, hc] at hf
          split_ifs at hf with hm
          simp only [Option.some.injEq] at hf
          simp [insert, record, destination, hc, hm, hf]

theorem Located.insert (h : Located s) (c : Schedule) {id : String} (hid : ∀ e ∈ s.executions, e.id ≠ id)
    (fileName : String) (now size : Nat) (ending : Ending) :
    Located (insert s c id fileName now size ending) := by
  intro e he
  rcases List.mem_cons.mp he with rfl | he
  · exact record_placed s c id fileName now size ending
  · intro f hf
    have hu : (Executions.insert s c id fileName now size ending).stored e.id = s.stored e.id :=
      Function.update_of_ne (hid e he) _ _
    rw [hu]
    exact h e he f hf

theorem fresh_of_any {id : String} (h : ¬ s.executions.any (·.id = id)) :
    ∀ e ∈ s.executions, e.id ≠ id := by
  intro e he hid
  exact h (List.any_eq_true.mpr ⟨e, he, by simpa using hid⟩)

theorem step_located (s : State) (a : Action) (hs : Located s) (ha : Allowed s a) :
    Located (step s a) := by
  cases a with
  | createStorage | restore | download => exact hs
  | deleteStorage id => exact hs.dropStorage ha
  | createSchedule c =>
      simp only [step]
      split_ifs <;> exact hs
  | updateSchedule c =>
      simp only [step]
      split_ifs <;> exact hs
  | deleteSchedule id withBackups => exact hs.of_subset List.filter_sublist.subset rfl rfl
  | backup scheduleId id fileName now size ending =>
      simp only [step]
      split
      · exact hs
      · rename_i c hc
        split_ifs with h
        · exact hs
        · rw [not_or] at h
          exact ((hs.insert c (fresh_of_any h.2) fileName now size ending).remove _).settle id ending
  | delete id => exact hs.remove _
  | cleanup databaseId what => exact hs.remove _
  | markSynced id =>
      refine hs.map _ fun e => ?_
      split_ifs <;> exact ⟨rfl, rfl, rfl, rfl⟩
  | prune scheduleId keep =>
      simp only [step]
      split
      · exact hs
      · exact hs.remove _

theorem settle_stored (s : State) (id : String) (ending : Ending) :
    (settle s id ending).stored = s.stored := by
  unfold settle
  split <;> rfl

/-- Restore, download, deletion and retention go to the dump and nowhere else. -/
theorem step_touches (s : State) (a : Action) (hs : Located s) :
    ∀ t ∈ touches s a, (step s a).stored t.1 = some t.2 := by
  cases a with
  | createStorage | deleteStorage | createSchedule | updateSchedule | markSynced => intro t ht; cases ht
  | deleteSchedule id withBackups =>
      simp only [touches]
      split_ifs
      · exact hs.files List.filter_sublist.subset
      · intro t ht; cases ht
  | backup scheduleId id fileName now size ending =>
      simp only [touches, step]
      split
      · intro t ht; cases ht
      · rename_i c hc
        split_ifs with h
        · intro t ht; cases ht
        · rw [not_or] at h
          rw [settle_stored]
          exact (hs.insert c (fresh_of_any h.2) fileName now size ending).files
            (expired_subset _ c now ending)
  | restore id => exact hs.files (List.Subset.trans List.filter_sublist.subset (findExecution_subset s id))
  | download id => exact hs.files (findExecution_subset s id)
  | delete id => exact hs.files (findExecution_subset s id)
  | cleanup databaseId what => cases what <;> exact hs.files (doomed_subset s databaseId _)
  | prune scheduleId keep =>
      simp only [touches, step]
      split
      · intro t ht; cases ht
      · exact hs.files (pruneCandidates_subset s _ keep)

/-- The tag and the payload of a row agree: no storage exactly when the recorded path is the
dump's path on the server, and otherwise the dump's key in that storage. -/
def Tagged (s : State) (e : Execution) (f : String) : Prop :=
  (e.s3StorageId = none ↔ s.stored e.id = some (.file (s.serverId e.databaseId) f)) ∧
    ∀ storage, e.s3StorageId = some storage → s.stored e.id = some (.object storage f)

theorem Placed.tagged {e : Execution} (h : Placed s e) {f : String} (hf : e.filePath = some f) :
    Tagged s e f := by
  have hs := h f hf
  cases hn : e.s3StorageId with
  | none => exact ⟨by simpa [hn] using hs, by simp [hn]⟩
  | some storage => exact ⟨by simp [hn, hs], by simpa [hn] using hs⟩

/-- Along every run that deletes no storage with backups in it, every recorded backup is
where its row says, and nothing but that dump is read or deleted for it. -/
theorem run_tagged (s₀ : State) (h₀ : s₀.executions = []) (as : List Action)
    (h : Along step Allowed s₀ as) :
    (∀ e ∈ (run step s₀ as).executions, e.status = .success → ∀ f, e.filePath = some f →
        Tagged (run step s₀ as) e f) ∧
      Along step (fun s a => ∀ t ∈ touches s a, (step s a).stored t.1 = some t.2) s₀ as := by
  have hl : Located s₀ := by simp [Located, h₀]
  refine ⟨fun e he _ f hf => ?_, ?_⟩
  · exact (along_invariant step_located hl h e he).tagged hf
  · exact along_imp step_located (fun s a hs _ => step_touches s a hs) hl h

def blank : State := ⟨fun _ => "vps", [], [], [], fun _ => none⟩

def oneUpload : List Action :=
  [.createStorage "bucket",
    .createSchedule ⟨"nightly", "db", true, 7, 0, 0, some "bucket", none⟩,
    .backup "nightly" "first" "pg-dump-app-1.sql.gz" 1 2048 (.recorded 0 false)]

theorem run_tagged_oneUpload :
    (∀ e ∈ (run step blank oneUpload).executions, e.status = .success → ∀ f, e.filePath = some f →
        Tagged (run step blank oneUpload) e f) ∧
      Along step (fun s a => ∀ t ∈ touches s a, (step s a).stored t.1 = some t.2) blank oneUpload :=
  run_tagged blank rfl oneUpload ⟨trivial, trivial, trivial, trivial⟩

/-- Once the bucket is deleted, the object's key is read as a path on the server. -/
theorem deleted_storage_untags :
    ¬ ((∀ e ∈ (run step blank (oneUpload ++ [.deleteStorage "bucket"])).executions, e.status = .success →
        ∀ f, e.filePath = some f → Tagged (run step blank (oneUpload ++ [.deleteStorage "bucket"])) e f) ∨
      touches (run step blank (oneUpload ++ [.deleteStorage "bucket"])) (.restore "first") ≠
        [("first", .file "vps" "db/pg-dump-app-1.sql.gz")]) := by
  rintro (h | h)
  · have hs := (h _ (List.mem_singleton_self _) rfl _ rfl).1.mp rfl
    revert hs
    decide
  · exact h (by decide)

end Yeah.Backup.Executions
