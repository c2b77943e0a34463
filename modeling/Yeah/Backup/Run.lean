import Yeah.Attempt
import Yeah.Backup.Place
import Mathlib.Logic.Function.Basic

namespace Yeah.Backup.Run

open Attempt

inductive Status
  | running
  | success
  | failed
  deriving DecidableEq

/-- The row of the execution. -/
structure Row where
  status : Status
  log : String
  filePath : Option String
  s3StorageId : Option String
  sizeBytes : Option Nat

/-- The row, if retention has not removed it, the log so far, and which of the files made
by the run exist. -/
structure World where
  row : Option Row
  log : String
  files : Place → Bool

structure Config where
  engine : String
  databaseId : String
  serverId : String
  fileName : String
  storageId : Option String
  storageName : String

namespace Config

variable (c : Config)

def filePath : String := s!"/opt/yeah-backups/{c.databaseId}/{c.fileName}"

def objectKey : String := s!"{c.databaseId}/{c.fileName}"

def staged : Place := .file c.serverId c.filePath

def stored : Place :=
  denote c.serverId c.storageId (if c.storageId = none then c.filePath else c.objectKey)

end Config

/-- The dump command: `conn.exec` fails, or it ends with an exit code. A failure leaves a
partial file behind or not. -/
inductive Dump
  | threw (message : String) (left : Bool)
  | exited (code : Nat) (left : Bool)

inductive Upload
  | threw (message : String) (left : Bool)
  | sent (bytes : Nat)

/-- `applyRetention` ends, perhaps with the new backup among those it deleted, or throws,
perhaps after it deleted the new backup's file. -/
inductive Retention
  | finished (own : Bool)
  | threw (message : String) (ownFile : Bool)

/-- What each awaited call of a run does; `none` is a call that does not throw. -/
structure Faults where
  publishRunning : Option String
  connect : Option String
  dump : Dump
  wc : Option String
  size : Nat
  selectStorage : Option String
  storageExists : Bool
  openRead : Option String
  upload : Upload
  stagedLeft : Bool
  successWrite : Option String
  retention : Retention
  publishSuccess : Option String
  notifySuccess : Option String
  failedWrite : Option String
  publishFailed : Option String
  notifyFailed : Option String

namespace World

variable (w : World)

def append (line : String) : World := { w with log := w.log ++ line }

def setFile (p : Place) (here : Bool) : World := { w with files := Function.update w.files p here }

def setRow (g : Row → Row) : World := { w with row := w.row.map g }

end World

variable (c : Config) (f : Faults)

def dumpStep (w : World) : Attempt World :=
  match f.dump with
  | .threw m left => .threw m (w.setFile c.staged left)
  | .exited code left =>
      if code ≠ 0 then .threw s!"backup command exited with code {code}" (w.setFile c.staged left)
      else .done (w.setFile c.staged true)

/-- To S3 when the schedule has a destination; the file on the server goes after the upload. -/
def uploadStep (w : World) : Attempt World :=
  match c.storageId with
  | none => .done w
  | some storage =>
      ((await f.selectStorage id w).andThen fun w =>
        if f.storageExists then
          .done (w.append s!"$ uploading to S3 ({c.storageName}) → {c.objectKey}\n")
        else .threw "the schedule's S3 destination no longer exists" w).andThen fun w =>
      (await f.openRead id w).andThen fun w =>
        match f.upload with
        | .threw m left => .threw m (w.setFile (.object storage c.objectKey) left)
        | .sent bytes =>
            let w := w.setFile (.object storage c.objectKey) true
            if 0 < f.size ∧ bytes ≠ f.size then
              .threw s!"the upload sent {bytes} bytes but the backup file has {f.size}" w
            else .done (w.setFile c.staged f.stagedLeft)

def writeSuccess (w : World) : World :=
  w.setRow fun row =>
    { row with
      status := .success
      log := w.log
      filePath := some (if c.storageId = none then c.filePath else c.objectKey)
      s3StorageId := c.storageId
      sizeBytes := some f.size }

def retentionStep (w : World) : Attempt World :=
  match f.retention with
  | .finished false => .done w
  | .finished true => .done { w.setFile c.stored false with row := none }
  | .threw m false => .threw m w
  | .threw m true => .threw m (w.setFile c.stored false)

def announce (w : World) : World := w.append s!"$ backup ({c.engine}) → {c.filePath}\n"

def record (w : World) : Attempt World :=
  (((((await f.connect (announce c) w).andThen
    (dumpStep c f)).andThen
    (await f.wc id)).andThen
    (uploadStep c f)).andThen
    (await f.successWrite (writeSuccess c f)))

/-- The rest of the same `try` block. -/
def conclude (w : World) : Attempt World :=
  ((retentionStep c f w).andThen (await f.publishSuccess id)).andThen (await f.notifySuccess id)

def handler (message : String) (w : World) : Attempt World :=
  let w := w.append s!"\nfailed: {message}\n"
  ((await f.failedWrite (fun w => w.setRow fun row => { row with status := .failed, log := w.log }) w).andThen
    (await f.publishFailed id)).andThen
    (await f.notifyFailed id)

def started : World := ⟨some ⟨.running, "", none, none, none⟩, "", fun _ => false⟩

/-- The run from the insertion of the row on. -/
def backupDatabase : Attempt World :=
  (await f.publishRunning id started).andThen fun w =>
    ((record c f w).andThen (conclude c f)).rescue (handler f)

/-- A row that is a success with its file where it says, or a failure without files. -/
def Atomic (w : World) : Prop :=
  ∀ row, w.row = some row →
    (row.status = .success ∧ ∃ path, row.filePath = some path ∧
        w.files (denote c.serverId row.s3StorageId path) = true) ∨
      row.status = .failed ∧ ∀ p, w.files p = false

def FailsEarly : Prop :=
  f.connect ≠ none ∨
    match f.dump with
    | .threw _ left => left = false
    | .exited code left => code ≠ 0 ∧ left = false

def Transfers : Prop :=
  c.storageId = none ∨
    f.selectStorage = none ∧ f.storageExists = true ∧ f.openRead = none ∧
      ∃ bytes, f.upload = .sent bytes ∧ (0 < f.size → bytes = f.size)

def Records : Prop :=
  f.connect = none ∧ (∃ left, f.dump = .exited 0 left) ∧ f.wc = none ∧ Transfers c f ∧
    f.successWrite = none

/-- An exception from retention does not fail the row of a stored backup. -/
def KeepsStored (w : World) : Prop :=
  Records c f → (∃ m own, f.retention = .threw m own) → ∀ row, w.row = some row → row.status ≠ .failed

def Concludes : Prop := f.retention = .finished false ∧ f.publishSuccess = none ∧ f.notifySuccess = none

/-- The late exception is swallowed, as the failed status cannot be written either. -/
def Swallowed : Prop := f.failedWrite ≠ none ∧ ∀ m, f.retention ≠ .threw m true

def Meets : Prop :=
  f.publishRunning = none ∧
    (FailsEarly f ∧ f.failedWrite = none ∨
      Records c f ∧ (f.retention = .finished true ∨ Concludes f ∨ Swallowed f))

variable {c f}

def RowIs (status : Status) (w : World) : Prop := ∃ row, w.row = some row ∧ row.status = status

def Untouched (w : World) : Prop := RowIs .running w ∧ ∀ p, w.files p = false

def Littered (w : World) : Prop := RowIs .running w ∧ ∃ p, w.files p = true

def StoredRow (c : Config) (w : World) : Prop :=
  w.files c.stored = true ∧ ∃ row, w.row = some row ∧ row.status = .success ∧
    ∃ path, row.filePath = some path ∧ denote c.serverId row.s3StorageId path = c.stored

def Staged (c : Config) (w : World) : Prop := RowIs .running w ∧ w.files c.staged = true

theorem Staged.littered {w : World} (h : Staged c w) : Littered w := ⟨h.1, _, h.2⟩

theorem uploadStep_transfers {w : World} (h : Transfers c f) (hw : Staged c w) :
    (uploadStep c f w).Ends (fun w => RowIs .running w ∧ w.files c.stored = true) fun _ => False := by
  cases hc : c.storageId with
  | none => simpa [uploadStep, hc, Config.stored, Staged, Config.staged] using hw
  | some storage =>
      obtain ⟨hs, he, ho, bytes, hu, hb⟩ := h.resolve_left (by simp [hc])
      have hn : ¬ (0 < f.size ∧ bytes ≠ f.size) := fun h => h.2 (hb h.1)
      simp only [uploadStep, hc, hs, he, ho, hu, if_neg hn, await_none, done_andThen, if_true, ends_done]
      refine ⟨hw.1, ?_⟩
      simp [World.setFile, Config.stored, Config.staged, hc]

theorem uploadStep_not_transfers {w : World} (h : ¬ Transfers c f) (hw : Staged c w) :
    (uploadStep c f w).Ends (fun _ => False) Littered := by
  simp only [Transfers, not_or, not_and] at h
  obtain ⟨hc, h⟩ := h
  obtain ⟨storage, hc⟩ := Option.ne_none_iff_exists'.mp hc
  have hset : ∀ left line, Littered (((w.append line).setFile (.object storage c.objectKey) left)) := by
    intro left line
    refine ⟨hw.1, c.staged, ?_⟩
    simpa [World.setFile, World.append, Config.staged, Function.update_of_ne] using hw.2
  cases hq : f.selectStorage with
  | some m => simpa [uploadStep, hc, hq] using hw.littered
  | none =>
      by_cases he : f.storageExists = true
      · cases ho : f.openRead with
        | some m =>
            simp only [uploadStep, hc, hq, he, ho, await_none, done_andThen, if_true, await_some, threw_andThen,
              ends_threw]
            exact hw.littered
        | none =>
            cases hu : f.upload with
            | threw m left =>
                simp only [uploadStep, hc, hq, he, ho, hu, await_none, done_andThen, if_true, ends_threw]
                exact hset left _
            | sent bytes =>
                have hb : 0 < f.size ∧ bytes ≠ f.size := by
                  by_contra hb
                  exact h hq he ho ⟨bytes, hu, fun hp => by_contra fun hne => hb ⟨hp, hne⟩⟩
                simp only [uploadStep, hc, hq, he, ho, hu, if_pos hb, await_none, done_andThen,
                  if_true, ends_threw]
                exact hset true _
      · simpa [uploadStep, hc, hq, he] using hw.littered

theorem running_announce (c : Config) : RowIs .running (announce c started) := ⟨_, rfl, rfl⟩

theorem untouched_started : Untouched started := ⟨⟨_, rfl, rfl⟩, fun _ => rfl⟩

theorem record_failsEarly (h : FailsEarly f) : (record c f started).Ends (fun _ => False) Untouched := by
  cases hc : f.connect with
  | some m => simpa [record, hc] using untouched_started
  | none =>
      have hfiles : ∀ left : Bool, left = false →
        Untouched ((announce c started).setFile c.staged left) := by
        rintro left rfl
        exact ⟨(running_announce c), fun p => by simp [World.setFile, announce, World.append, started]⟩
      have hd := h.resolve_left (by simp [hc])
      cases hf : f.dump with
      | threw m left =>
          simp only [hf] at hd
          simp only [record, hc, dumpStep, hf, await_none, done_andThen, threw_andThen, ends_threw]
          exact hfiles left hd
      | exited code left =>
          simp only [hf] at hd
          simp only [record, hc, dumpStep, hf, if_pos hd.1, await_none, done_andThen,
            threw_andThen, ends_threw]
          exact hfiles left hd.2

theorem dumpStep_exited (h : ∃ left, f.dump = .exited 0 left) {w : World} (hw : RowIs .running w) :
    (dumpStep c f w).Ends (Staged c) fun _ => False := by
  obtain ⟨left, h⟩ := h
  simp only [dumpStep, h, ne_eq, not_true_eq_false, if_false, ends_done]
  exact ⟨hw, by simp [World.setFile]⟩

theorem dumpStep_failed (h : ¬ FailsEarly f) (h0 : ¬ ∃ left, f.dump = .exited 0 left) {w : World}
    (hw : RowIs .running w) : (dumpStep c f w).Ends (fun _ => False) Littered := by
  have hset : Littered (w.setFile c.staged true) := ⟨hw, c.staged, by simp [World.setFile]⟩
  rw [FailsEarly, not_or] at h
  cases hf : f.dump with
  | threw m left =>
      obtain rfl : left = true := by simpa [hf] using h.2
      simpa [dumpStep, hf] using hset
  | exited code left =>
      have hn : code ≠ 0 := fun hn => h0 ⟨left, hn ▸ hf⟩
      obtain rfl : left = true := by simpa [hf, hn] using h.2
      simpa [dumpStep, hf, hn] using hset

theorem writeSuccess_stored {w : World} (hw : RowIs .running w ∧ w.files c.stored = true) :
    StoredRow c (writeSuccess c f w) := by
  obtain ⟨⟨row, hr, -⟩, hf⟩ := hw
  refine ⟨hf, _, by rw [writeSuccess, World.setRow, hr]; rfl, rfl, _, rfl, rfl⟩

theorem record_records (h : Records c f) : (record c f started).Ends (StoredRow c) fun _ => False := by
  obtain ⟨hc, hd, hwc, ht, hs⟩ := h
  rw [record, hc, await_none, done_andThen, hwc, hs]
  have hdump :=
    (dumpStep_exited (c := c) hd (running_announce c)).andThen (k := await none id) (Q := Staged c)
    fun _ hw => hw
  have hup := hdump.andThen fun _ hw => uploadStep_transfers ht hw
  exact hup.andThen fun _ hw => writeSuccess_stored hw

theorem record_littered (h : ¬ FailsEarly f) (hr : ¬ Records c f) :
    (record c f started).Ends (fun _ => False) Littered := by
  have hc : f.connect = none := by
    by_contra hc
    exact h (Or.inl hc)
  rw [record, hc, await_none, done_andThen]
  by_cases hd : ∃ left, f.dump = .exited 0 left
  swap
  · have hdump := dumpStep_failed (c := c) h hd (running_announce c)
    exact hdump.andThen_of_threw.andThen_of_threw.andThen_of_threw
  have hdump :=
    (dumpStep_exited (c := c) hd (running_announce c)).imp (S := Littered) (fun _ hw => hw) fun _ hw => hw.elim
  cases hwc : f.wc with
  | some m =>
      have hthrew := hdump.andThen (k := await (some m) id) (Q := fun _ => False) fun _ hw => hw.littered
      exact hthrew.andThen_of_threw.andThen_of_threw
  | none =>
      have hdone := hdump.andThen (k := await none id) (Q := Staged c) fun _ hw => hw
      by_cases ht : Transfers c f
      · have hs : f.successWrite ≠ none := fun hs => hr ⟨hc, hd, hwc, ht, hs⟩
        obtain ⟨m, hs⟩ := Option.ne_none_iff_exists'.mp hs
        have hup := hdone.andThen fun _ hw =>
          (uploadStep_transfers ht hw).imp (S := Littered) (fun _ hw => hw) fun _ hw => hw.elim
        rw [hs]
        exact hup.andThen fun _ hw => ⟨hw.1, _, hw.2⟩
      · exact (hdone.andThen fun _ hw => uploadStep_not_transfers ht hw).andThen_of_threw

/-- What retention and the last notices leave: a late exception comes with the row still a success. -/
theorem conclude_threw {w : World} (hw : StoredRow c w) (hf : f.retention ≠ .finished true)
    (hc : ¬ Concludes f) (ht : ∀ m, f.retention ≠ .threw m true) :
    (conclude c f w).Ends (fun _ => False) (StoredRow c) := by
  cases hr : f.retention with
  | finished own =>
      obtain rfl : own = false := by
        cases own with
        | false => rfl
        | true => exact absurd hr hf
      cases hp : f.publishSuccess with
      | some m => simpa [conclude, retentionStep, hr, hp] using hw
      | none =>
          cases hn : f.notifySuccess with
          | some m => simpa [conclude, retentionStep, hr, hp, hn] using hw
          | none => exact absurd ⟨hr, hp, hn⟩ hc
  | threw m own =>
      cases own with
      | true => exact absurd hr (ht m)
      | false => simpa [conclude, retentionStep, hr] using hw

theorem conclude_removed {w : World} (hf : f.retention = .finished true) :
    (conclude c f w).Ends (fun w => w.row = none) fun w => w.row = none := by
  cases hp : f.publishSuccess <;> cases hn : f.notifySuccess <;>
    simp [conclude, retentionStep, hf, hp, hn]

theorem conclude_half {w : World} {m : String} (hw : StoredRow c w) (hf : f.retention = .threw m true) :
    (conclude c f w).Ends (fun _ => False) fun w =>
      w.files c.stored = false ∧ ∃ row, w.row = some row ∧ row.status = .success ∧
        ∃ path, row.filePath = some path ∧ denote c.serverId row.s3StorageId path = c.stored := by
  simp only [conclude, retentionStep, hf, threw_andThen, ends_threw]
  exact ⟨by simp [World.setFile], hw.2⟩

theorem handler_state (m : String) (w : World) :
    ((handler f m w).state).files = w.files ∧
      (f.failedWrite ≠ none → ((handler f m w).state).row = w.row) ∧
      (f.failedWrite = none → ∃ log, ((handler f m w).state).row =
        w.row.map fun row => { row with status := .failed, log := log }) := by
  cases hf : f.failedWrite with
  | some e => simp [handler, hf, World.append]
  | none =>
      cases hp : f.publishFailed <;> cases hn : f.notifyFailed <;>
        simp [handler, hf, hp, hn, World.append, World.setRow] <;> exact ⟨_, rfl⟩

theorem handler_failed {m : String} {w : World} {row : Row} (hf : f.failedWrite = none)
    (hr : w.row = some row) :
    RowIs .failed (handler f m w).state := by
  obtain ⟨log, hl⟩ := (handler_state m w).2.2 hf
  exact ⟨_, by rw [hl, hr]; rfl, rfl⟩

theorem not_atomic_of_running {w : World} (h : RowIs .running w) : ¬ Atomic c w := by
  obtain ⟨row, hr, hs⟩ := h
  intro ha
  rcases ha row hr with ⟨h, -⟩ | ⟨h, -⟩ <;> rw [hs] at h <;> cases h

theorem not_atomic_of_failed {w : World} {p : Place} (h : RowIs .failed w) (hp : w.files p = true) :
    ¬ Atomic c w := by
  obtain ⟨row, hr, hs⟩ := h
  intro ha
  rcases ha row hr with ⟨h, -⟩ | ⟨-, h⟩
  · rw [hs] at h; cases h
  · rw [h p] at hp; cases hp

theorem StoredRow.atomic {w : World} (h : StoredRow c w) :
    Atomic c w ∧ ∀ row, w.row = some row → row.status ≠ .failed := by
  obtain ⟨hf, row, hr, hs, path, hp, hd⟩ := h
  constructor
  · intro row' hr'
    obtain rfl := Option.some.inj (hr.symm.trans hr')
    exact Or.inl ⟨hs, path, hp, hd ▸ hf⟩
  · intro row' hr'
    obtain rfl := Option.some.inj (hr.symm.trans hr')
    simp [hs]

theorem not_failsEarly (h : Records c f) : ¬ FailsEarly f := by
  obtain ⟨hc, ⟨left, hd⟩, -⟩ := h
  simp [FailsEarly, hc, hd]

theorem backupDatabase_threw (hp : f.publishRunning = none) {m : String} {w : World}
    (h : (record c f started).andThen (conclude c f) = .threw m w) :
    (backupDatabase c f).state = (handler f m w).state := by
  simp [backupDatabase, hp, h]

theorem atomic_of_failsEarly (hp : f.publishRunning = none) (h : FailsEarly f) :
    Atomic c (backupDatabase c f).state ↔ f.failedWrite = none := by
  obtain ⟨m, w, hr, hw⟩ := (record_failsEarly (c := c) h).exists_threw
  rw [backupDatabase_threw hp (by rw [hr, threw_andThen])]
  obtain ⟨hfiles, hsome, -⟩ := handler_state (f := f) m w
  obtain ⟨⟨row, hrow, hs⟩, hw⟩ := hw
  by_cases hf : f.failedWrite = none
  · refine iff_of_true (fun row' hr' => Or.inr ⟨?_, fun p => hfiles ▸ hw p⟩) hf
    obtain ⟨row'', hr'', hs''⟩ := handler_failed (m := m) hf hrow
    obtain rfl := Option.some.inj (hr''.symm.trans hr')
    exact hs''
  · exact iff_of_false (not_atomic_of_running ⟨row, (hsome hf).trans hrow, hs⟩) hf

theorem not_atomic_of_littered (hp : f.publishRunning = none) (h : ¬ FailsEarly f) (hr : ¬ Records c f) :
    ¬ Atomic c (backupDatabase c f).state := by
  obtain ⟨m, w, hr, ⟨row, hrow, hs⟩, p, hpf⟩ := (record_littered h hr).exists_threw
  rw [backupDatabase_threw hp (by rw [hr, threw_andThen])]
  obtain ⟨hfiles, hsome, -⟩ := handler_state (f := f) m w
  by_cases hf : f.failedWrite = none
  · exact not_atomic_of_failed (handler_failed hf hrow) (hfiles ▸ hpf)
  · exact not_atomic_of_running ⟨row, (hsome hf).trans hrow, hs⟩

/-- After the success write all depends on the calls that follow it. -/
theorem atomic_of_records (hp : f.publishRunning = none) (h : Records c f) :
    (Atomic c (backupDatabase c f).state ∧ KeepsStored c f (backupDatabase c f).state) ↔
      f.retention = .finished true ∨ Concludes f ∨ Swallowed f := by
  obtain ⟨w, hr, hw⟩ := (record_records h).exists_done
  have hrun : (backupDatabase c f).state = ((conclude c f w).rescue (handler f)).state := by
    simp [backupDatabase, hp, hr]
  by_cases hrem : f.retention = .finished true
  · have hnone : (backupDatabase c f).state.row = none := by
      have he : ((conclude c f w).rescue (handler f)).Ends (fun w => w.row = none) fun w => w.row = none := by
        refine (conclude_removed hrem).rescue fun m w hn => ends_same_iff.mpr ?_
        by_cases hf : f.failedWrite = none
        · obtain ⟨log, hl⟩ := (handler_state (f := f) m w).2.2 hf
          rw [hl, hn, Option.map_none]
        · rw [(handler_state m w).2.1 hf, hn]
      rw [hrun]
      exact ends_same_iff.mp he
    refine iff_of_true ⟨?_, fun _ _ => ?_⟩ (Or.inl hrem) <;> intro row hrow <;> rw [hnone] at hrow <;> cases hrow
  by_cases hc : Concludes f
  · have hdone : conclude c f w = .done w := by simp [conclude, retentionStep, hc.1, hc.2.1, hc.2.2]
    rw [hrun, hdone, done_rescue, state_done]
    exact iff_of_true ⟨hw.atomic.1, fun _ _ => hw.atomic.2⟩ (Or.inr (Or.inl hc))
  by_cases hhalf : ∃ m, f.retention = .threw m true
  · obtain ⟨m, hm⟩ := hhalf
    obtain ⟨m', w', hco, hfile, row, hrow, hs, path, hpath, hd⟩ := (conclude_half hw hm).exists_threw
    rw [hrun, hco, threw_rescue]
    obtain ⟨hfiles, hsome, -⟩ := handler_state (f := f) m' w'
    refine iff_of_false (fun ha => ?_) ?_
    · by_cases hf : f.failedWrite = none
      · obtain ⟨row', hr', hs'⟩ := handler_failed (m := m') hf hrow
        exact ha.2 h ⟨m, true, hm⟩ row' hr' hs'
      · rcases ha.1 row ((hsome hf).trans hrow) with ⟨-, path', hp', hf'⟩ | ⟨hs', -⟩
        · obtain rfl := Option.some.inj (hpath.symm.trans hp')
          rw [hfiles, hd, hfile] at hf'
          cases hf'
        · rw [hs] at hs'; cases hs'
    · rintro (h | h | h)
      · exact hrem h
      · exact hc h
      · exact h.2 m hm
  · rw [not_exists] at hhalf
    obtain ⟨m, w', hco, hw'⟩ := (conclude_threw hw hrem hc hhalf).exists_threw
    rw [hrun, hco, threw_rescue]
    obtain ⟨hfiles, hsome, -⟩ := handler_state (f := f) m w'
    by_cases hf : f.failedWrite = none
    · obtain ⟨hfile, row, hrow, -⟩ := hw'
      refine iff_of_false (fun ha => not_atomic_of_failed (handler_failed hf hrow) (hfiles ▸ hfile) ha.1) ?_
      rintro (h | h | h)
      · exact hrem h
      · exact hc h
      · exact h.1 hf
    · have hst : StoredRow c (handler f m w').state := by
        rw [StoredRow, hfiles, hsome hf]
        exact hw'
      exact iff_of_true ⟨hst.atomic.1, fun _ _ => hst.atomic.2⟩ (Or.inr (Or.inr ⟨hf, hhalf⟩))

def localBackup : Config := ⟨"postgresql", "db", "vps", "pg-dump-app-1.sql.gz", none, ""⟩

/-- The connection to the panel's database drops while retention looks for old backups. -/
def retentionThrows : Faults :=
  ⟨none, none, .exited 0 true, none, 2048, none, true, none, .sent 0, false, none,
    .threw "connect ECONNREFUSED" false, none, none, none, none, none⟩

end Yeah.Backup.Run
