import Yeah.Databases.Host
import Yeah.Databases.Restore
import Yeah.Shell.Failure

namespace Yeah.Databases

open Shell Machine Attempt

/-- Programs that decompress, unpack, copy or load the backup file. -/
def Tool.loads : Tool → Bool
  | .gunzip _ | .copy _ _ | .tarExtract _ _ | .sqliteLoad _ => true
  | .exec _ (.psqlLoad _ _) | .exec _ (.mysqlLoad _ _ _) | .exec _ (.mongorestore _ _ _ _ _) => true
  | .exec _ (.clickhouse _ _ (.restore _ _)) => true
  | _ => false

def Tool.stops : Tool → Bool
  | .dockerStop _ => true
  | _ => false

/-- The files that a program may write or remove, for the programs of which that is known. -/
def Tool.changes : Tool → Option (List Location)
  | .mkdir _ | .isGzip _ | .gunzip _ | .isFile _ | .chmod _ _ | .exec _ .sh => some []
  | .remove paths => some paths
  | .copy _ target => some [target]
  | .move source target => some [source, target]
  | .sqliteLoad (.inside path) => some [.inside path, .inside (path ++ "-journal")]
  | _ => none

def sqliteFiles (dbFile : String) : List String :=
  [dbFile, dbFile ++ "-wal", dbFile ++ "-shm", dbFile ++ "-journal"]

def dataFiles (database : Database) : List String :=
  match database.engine with
  | .redis | .keydb | .dragonfly => ["/data/appendonlydir", "/data/appendonly.aof", "/data/dump.rdb"]
  | .sqlite => sqliteFiles (sqliteFilePath database.databaseName)
  | _ => []

variable {β W V : Type}

/-- `view` shows the files, and programs and redirections that do not name them leave them alone. -/
structure Keeps (H : Host β W) (files : List String) (view : W → V) : Prop where
  effect : ∀ t ls, Tool.changes t = some ls → (∀ f ∈ files, Location.inside f ∉ ls) →
    ∀ d w, view (H.effect t d w).1 = view w
  write : ∀ l, (∀ f ∈ files, l ≠ .inside f) → ∀ w d, view (H.write w (.file l) d) = view w

/-- A program that decompresses, unpacks, copies or loads the backup failed. -/
def LoadFailed (ran : List (Tool × Nat)) : Prop := ∃ e ∈ ran, e.1.loads = true ∧ e.2 ≠ 0

def Restarted : List (Tool × Nat) → Prop
  | [] => True
  | e :: ran => (∀ container, e = (.dockerStop container, 0) → (.dockerStart container, 0) ∈ ran) ∧ Restarted ran

structure Careful (database : Database) (view : W → V) (w : W) (p : Progress W) : Prop where
  reported : LoadFailed p.ran → p.status = .failed
  kept : LoadFailed p.ran → dataFiles database ≠ [] → view p.world = view w
  restarted : Restarted p.ran

variable {H : Host β W} {σ : Tool → Nat} {job : Job β}

section Progress

variable (M : Machine Tool Path (Data β) W)

theorem recordOutput_spec (output : String) (p : Progress W) :
    (recordOutput output p).ran = p.ran ∧ (recordOutput output p).world = p.world ∧
      (recordOutput output p).filePath = p.filePath ∧ (recordOutput output p).tempFile = p.tempFile := by
  rw [recordOutput]
  split <;> exact ⟨rfl, rfl, rfl, rfl⟩

@[simp] theorem stepped_ran (step : RestoreStep β) (p : Progress W) :
    (stepped M job step p).ran = p.ran ++ (M.start step.command p.world).log := (recordOutput_spec _ _).1

@[simp] theorem stepped_world (step : RestoreStep β) (p : Progress W) :
    (stepped M job step p).world = (M.start step.command p.world).state.world :=
      (recordOutput_spec _ _).2.1

@[simp] theorem stepped_filePath (step : RestoreStep β) (p : Progress W) :
    (stepped M job step p).filePath = p.filePath := (recordOutput_spec _ _).2.2.1

@[simp] theorem stepped_tempFile (step : RestoreStep β) (p : Progress W) :
    (stepped M job step p).tempFile = p.tempFile := (recordOutput_spec _ _).2.2.2

theorem runStep_ends {P R : Progress W → Prop} {step : RestoreStep β} {p : Progress W}
    (hP : (M.start step.command p.world).state.status = 0 ∨ step.allowFailure = true → P (stepped M job step p))
    (hR : (M.start step.command p.world).state.status ≠ 0 → step.allowFailure = false → R (stepped M job step p)) :
    (runStep M job step p).Ends P R := by
  rw [runStep]
  split_ifs with h
  · exact hR h.1 h.2
  · refine hP ?_
    rwa [← Bool.not_eq_false, ← not_ne_iff, ← not_and_or]

theorem runStep_done {step : RestoreStep β} {p : Progress W}
    (h : (M.start step.command p.world).state.status = 0) :
    runStep M job step p = .done (stepped M job step p) :=
  if_neg fun hn => hn.1 h

theorem runStep_threw_ends {P R : Progress W → Prop} {step : RestoreStep β} {p : Progress W}
    (h : (M.start step.command p.world).state.status ≠ 0) (ha : step.allowFailure = false)
    (k : Progress W → Attempt (Progress W)) :
    ((runStep M job step p).andThen k).Ends P R ↔ R (stepped M job step p) := by
  rw [runStep, if_pos ⟨h, ha⟩]
  rfl

theorem runSteps_ends {P R : Progress W → Prop} {steps : List (RestoreStep β)}
    (h : ∀ step ∈ steps, ∀ p, P p → (runStep M job step p).Ends P R) {p : Progress W} (hp : P p) :
    (runSteps M job steps p).Ends P R := by
  induction steps generalizing p with
  | nil => exact hp
  | cons step steps ih =>
      exact (h step (by simp) p hp).andThen fun q hq => ih (fun s hs => h s (by simp [hs])) hq

end Progress

abbrev Loads : Tool → Prop := fun t => t.loads = true

theorem loadFailed_append {l m : List (Tool × Nat)} :
    LoadFailed (l ++ m) ↔ LoadFailed l ∨ LoadFailed m := by
  simp only [LoadFailed, List.mem_append, or_and_right, exists_or]

/-- A step whose failure to load the backup stops the restore. -/
def Reporting (M : Machine Tool Path (Data β) W) (step : RestoreStep β) : Prop :=
  Silent Loads step.command ∨ step.allowFailure = false ∧ Reports M Loads step.command

theorem Reporting.runStep (job : Job β) {M : Machine Tool Path (Data β) W} {step : RestoreStep β}
    (h : Reporting M step)
    {p : Progress W} (hp : ¬ LoadFailed p.ran) :
    (runStep M job step p).Ends (fun q => ¬ LoadFailed q.ran) fun _ => True := by
  refine runStep_ends M (fun hs => ?_) fun _ _ => trivial
  rw [stepped_ran, loadFailed_append, not_or]
  refine ⟨hp, fun hf => ?_⟩
  rcases h with h | ⟨ha, h⟩
  · exact h.not_failed _ _ hf
  · rcases hs with hs | hs
    · exact h _ _ hf hs
    · rw [ha] at hs
      cases hs

def Stopless (ran : List (Tool × Nat)) : Prop := ∀ e ∈ ran, e.1.stops = false

theorem stopless_append {l m : List (Tool × Nat)} : Stopless (l ++ m) ↔ Stopless l ∧ Stopless m :=
  List.forall_mem_append

theorem restarted_append_of_stopless {l m : List (Tool × Nat)}
    (h : ∀ container, (.dockerStop container, 0) ∉ l) :
    Restarted (l ++ m) ↔ Restarted m := by
  induction l with
  | nil => rfl
  | cons e l ih =>
      simp only [List.mem_cons, not_or] at h
      rw [List.cons_append, Restarted, ih fun container => (h container).2]
      exact and_iff_right fun container he => absurd he.symm (h container).1

theorem Stopless.no_stop {ran : List (Tool × Nat)} (h : Stopless ran) (container : String) :
    (.dockerStop container, 0) ∉ ran := by
  intro hm
  cases h _ hm

theorem Stopless.restarted {ran : List (Tool × Nat)} (h : Stopless ran) : Restarted ran := by
  rw [← List.append_nil ran, restarted_append_of_stopless h.no_stop]
  trivial

theorem start_stopless (M : Machine Tool Path (Data β) W) {c : Script β}
    (h : c.All fun t => t.stops = false) (w : W) :
    Stopless (M.start c w).log := M.eval_ran c h _ _

theorem runStep_stopless (job : Job β) (M : Machine Tool Path (Data β) W) {step : RestoreStep β}
    (h : step.command.All fun t => t.stops = false) {p : Progress W} (hp : Stopless p.ran) :
    (runStep M job step p).Ends (fun q => Stopless q.ran) fun q => Stopless q.ran := by
  have hq : Stopless (stepped M job step p).ran := by
    rw [stepped_ran, stopless_append]
    exact ⟨hp, start_stopless M h _⟩
  exact runStep_ends M (fun _ => hq) fun _ _ => hq

section Steps

variable {M : Machine Tool Path (Data β) W}

theorem reports_plainCopyCommand (file out : Location) : Reports M Loads (plainCopyCommand file out) :=
  .ite (by simp [Silent, Cmd.All, prog, Cmd.programs, Tool.loads]) (.out (reports_run _) _) (reports_run _)

theorem silent_createMissing (database : Database) (container : String) (name : Vars (Data β) → String) :
    Silent Loads (createMissing database container name) := by
  simp [Silent, Cmd.All, createMissing, Cmd.programs, prog, Tool.loads]

theorem aborts_restoreLoopBody (database : Database) (container : String) :
    Aborts M Loads (restoreLoopBody database container) := by
  have hone : (1 : Nat) ≠ 0 := Nat.one_ne_zero
  rw [restoreLoopBody]
  split
  case h_1 =>
    refine .seq (Reports.or_exit (silent_createMissing _ _ _).reports hone) ?_
    refine Reports.or_exit (.and (Silent.reports ?_) (.inp (reports_run _) _)) hone
    simp [Silent, Cmd.All, Cmd.programs, Tool.loads]
  case h_2 | h_3 =>
    refine Reports.or_exit (.and (Silent.reports ?_) (.inp (reports_run _) _)) hone
    simp [Silent, Cmd.All, Cmd.programs, Tool.loads]
  case h_4 => exact Reports.or_exit (.inp (reports_run _) _) hone
  case h_5 => exact Silent.aborts (by simp [Silent, Cmd.All, Cmd.programs])

theorem aborts_restoreLoop (database : Database) (container dir : String) :
    Aborts M Loads (restoreLoop database container dir) := by
  refine .each (.seq (Silent.aborts ?_) (aborts_restoreLoopBody database container)) _ _
  simp [Silent, Cmd.All, Cmd.programs, Tool.loads]

theorem silent_prog {t : Tool} (h : t.loads = false) : Silent Loads (prog t : Script β) := by
  simp [Silent, Cmd.All, prog, Cmd.programs, h]

theorem multiSteps_reporting (database : Database) (containerName filePath : String) :
    ∀ step ∈ multiSteps database containerName filePath, Reporting M step := by
  rw [multiSteps, List.forall_mem_cons, List.forall_mem_cons, List.forall_mem_singleton]
  refine ⟨Or.inr ⟨rfl, ?_⟩, Or.inr ⟨rfl, (aborts_restoreLoop _ _ _).reports⟩, Or.inl (silent_prog rfl)⟩
  exact .and (.and (.and (reports_plainCopyCommand _ _) (silent_prog rfl).reports) (silent_prog rfl).reports)
    (reports_run _)

theorem resetDatabase_silent (database : Database) (container name : String) :
    ∀ step ∈ (resetDatabase database container name : List (RestoreStep β)), Silent Loads step.command := by
  rw [resetDatabase]
  split
  case h_1 =>
    split_ifs
    · rw [List.forall_mem_singleton]
      exact silent_prog rfl
    · rw [List.forall_mem_cons, List.forall_mem_singleton]
      exact ⟨silent_createMissing _ _ _, silent_prog rfl⟩
  case h_2 | h_3 =>
    rw [List.forall_mem_singleton]
    exact silent_prog rfl
  case h_4 => simp

theorem loadOne_reports {database : Database} {container name plainFile : String} {c : Script β}
    (h : loadOne database container name plainFile = .ok c) : Reports M Loads c := by
  cases he : database.engine <;> simp only [loadOne, he, Except.ok.injEq, reduceCtorEq] at h <;> subst h <;>
    exact .inp (reports_run _) _

end Steps

section Sqlite

variable {dbFile : String}

theorem ne_append_self {s t : String} (h : t ≠ "") : s ≠ s ++ t := by
  intro he
  rw [← String.append_empty (s := s), String.append_assoc, String.append_right_inj] at he
  exact h (by simpa using he.symm)

theorem restore_notMem_sqliteFiles :
    ∀ f ∈ sqliteFiles dbFile,
      Location.inside f ∉ [.inside (dbFile ++ ".restore"), .inside (dbFile ++ ".restore" ++ "-journal")] := by
  simp [sqliteFiles, String.append_assoc, String.append_right_inj, ne_append_self]

theorem sqliteScript_done (h : σ (.sqliteLoad (.inside (dbFile ++ ".restore"))) = 0) (i : Data β)
    (s : State (Data β) W) : ¬ LoadFailed ((H.machine σ).eval (sqliteScript dbFile) i s).log := by
  by_cases hc : σ (.chmod "666" (.inside (dbFile ++ ".restore"))) = 0
  · by_cases hr : σ (.remove [.inside (dbFile ++ "-wal"), .inside (dbFile ++ "-shm"),
        .inside (dbFile ++ "-journal")]) = 0 <;>
      simp [sqliteScript, eval, call, quiet, after, exitStatus, Data.text, prog, LoadFailed, h, hc,
        hr, Tool.loads]
  · simp [sqliteScript, eval, call, quiet, after, exitStatus, Data.text, prog, LoadFailed, h,
      hc, Tool.loads]

/-- A dump that does not load is reported and leaves the database files alone. -/
theorem sqliteScript_failed (h : σ (.sqliteLoad (.inside (dbFile ++ ".restore"))) ≠ 0) {view : W → V}
    (hk : Keeps H (sqliteFiles dbFile) view) (i : Data β) (s : State (Data β) W) :
    ((H.machine σ).eval (sqliteScript dbFile) i s).state.status ≠ 0 ∧
      view ((H.machine σ).eval (sqliteScript dbFile) i s).state.world = view s.world := by
  have hr :=
    hk.effect (.remove [.inside (dbFile ++ ".restore"), .inside (dbFile ++ ".restore" ++ "-journal")]) _ rfl
    restore_notMem_sqliteFiles
  have hl := hk.effect (.sqliteLoad (.inside (dbFile ++ ".restore"))) _ rfl restore_notMem_sqliteFiles
  simp [sqliteScript, eval, call, quiet, after, exitStatus, Data.text, Data.code, prog, h, hr, hl]

theorem sqliteStep_failed {view : W → V} (hk : Keeps H (sqliteFiles dbFile) view) {container plain : String}
    {w : W} {r : Result Tool (Data β) W}
    (hr : r = (H.machine σ).start
      (fromFile (.within (fun _ => .exec container .sh) (sqliteScript dbFile)) (.host plain)) w)
    (hf : LoadFailed r.log) : r.state.status ≠ 0 ∧ view r.state.world = view w := by
  subst hr
  cases hd : H.read w (.file (.host plain)) with
  | none =>
      rw [start, fromFile, eval_inp_none (H.machine σ) (f := fun _ => .file (.host plain)) (s := fresh _ w) hd] at hf
      obtain ⟨e, he, -⟩ := hf
      cases he
  | some d =>
      rw [start, fromFile, eval_inp (H.machine σ) (f := fun _ => .file (.host plain)) (s := fresh _ w) hd] at hf ⊢
      by_cases he : ((H.machine σ).call (.exec container .sh) d ((H.machine σ).fresh w)).state.status = 0
      · obtain ⟨hs, hw, hlog⟩ :=
          eval_within (H.machine σ) (p := fun _ => .exec container .sh) (sqliteScript dbFile) he
        rw [hlog] at hf
        rw [hs, hw]
        have hl : σ (.sqliteLoad (.inside (dbFile ++ ".restore"))) ≠ 0 := by
          intro hl
          obtain ⟨e, he, ht, hn⟩ := hf
          rcases List.mem_cons.mp he with rfl | he
          · cases ht
          · exact sqliteScript_done hl d _ ⟨e, he, ht, hn⟩
        have hv := hk.effect (.exec container .sh) [] rfl (by simp) d w
        obtain ⟨hs', hv'⟩ := sqliteScript_failed hl hk d
          ((H.machine σ).launched (.exec container .sh) d ((H.machine σ).fresh w))
        exact ⟨hs', hv'.trans hv⟩
      · rw [eval_within_failed _ _ he] at hf
        simp [call, LoadFailed, Tool.loads] at hf

end Sqlite

section Prepare

def Execution.file (job : Job β) (execution : Execution) : String :=
  let filePath := execution.filePath.getD ""
  if execution.s3StorageId = none then filePath
  else s!"{dbBackupsDir job.databaseId}/restore-{job.now}-{fileName filePath}"

/-- The backup file that the restore works on, once it is on the server. -/
def Job.file (job : Job β) : String :=
  match job.source with
  | .upload path => path
  | .execution none => ""
  | .execution (some execution) => execution.file job

/-- The backup is one of this database and its file can be had. -/
def Execution.Available (σ : Tool → Nat) (job : Job β) (execution : Execution) : Prop :=
  ∃ filePath, execution.filePath = some filePath ∧ filePath ≠ "" ∧ execution.success = true ∧
    execution.databaseId = some job.databaseId ∧
    match execution.s3StorageId with
    | none => σ (.isFile filePath) = 0
    | some storage => (∃ name, job.storageName storage = some name) ∧ ∃ d, job.download storage filePath = .ok d

def Fetches (σ : Tool → Nat) (job : Job β) : Prop :=
  match job.source with
  | .upload _ => True
  | .execution none => False
  | .execution (some execution) => execution.Available σ job

def Ready (σ : Tool → Nat) (job : Job β) : Prop :=
  job.connect = none ∧ σ (.mkdir (dbBackupsDir job.databaseId)) = 0 ∧ Fetches σ job

/-- Nothing was loaded, stopped or changed yet. -/
structure Untouched (view : W → V) (w : W) (p : Progress W) : Prop where
  loaded : ¬ LoadFailed p.ran
  stopless : Stopless p.ran
  same : view p.world = view w

variable {files : List String} {view : W → V} {w : W}

theorem Untouched.stepped (job : Job β) {t : Tool} (hl : t.loads = false) (hs : t.stops = false)
    (hv : ∀ d w, view (H.effect t d w).1 = view w) (label : String) {p : Progress W}
    (hp : Untouched view w p) :
    Untouched view w (stepped (H.machine σ) job { label := label, command := prog t } p) where
  loaded := by
    rw [stepped_ran, loadFailed_append, not_or]
    exact ⟨hp.loaded, by simp [prog, start, eval, call, LoadFailed, hl]⟩
  stopless := by
    rw [stepped_ran, stopless_append]
    exact ⟨hp.stopless, by simp [prog, start, eval, call, Stopless, hs]⟩
  same := by
    rw [stepped_world]
    exact (hv _ _).trans hp.same

theorem start_prog_status {t : Tool} (ht : t ≠ .compress "") (w : W) :
    ((H.machine σ).start (prog t) w).state.status = σ t := exitStatus_of_ne ht

theorem fetchExecution_ends (hk : Keeps H files view) (execution : Execution) {p : Progress W}
    (hp : Untouched view w p) :
    (fetchExecution (H.machine σ) job execution p).Ends
      (fun q => execution.Available σ job ∧ q.filePath = execution.file job ∧ Untouched view w q)
      fun q => ¬ execution.Available σ job ∧ Untouched view w q := by
  cases hf : execution.filePath with
  | none => simpa [fetchExecution, Execution.Available, hf] using hp
  | some filePath =>
      by_cases h₁ : filePath = "" ∨ execution.success = false
      · simp only [fetchExecution, hf, h₁, if_true, ends_threw]
        refine ⟨?_, hp⟩
        rintro ⟨path, hpath, hne, hs, -⟩
        obtain rfl : filePath = path := Option.some.inj (hf.symm.trans hpath)
        rcases h₁ with h₁ | h₁
        · exact hne h₁
        · rw [h₁] at hs
          cases hs
      · by_cases h₂ : execution.databaseId = some job.databaseId
        · have ha : execution.Available σ job ↔
              match execution.s3StorageId with
              | none => σ (.isFile filePath) = 0
              | some storage =>
                  (∃ name, job.storageName storage = some name) ∧
                      ∃ d, job.download storage filePath = .ok d := by
            rw [not_or, Bool.not_eq_false] at h₁
            simp [Execution.Available, hf, h₁, h₂]
          cases hst : execution.s3StorageId with
          | none =>
              simp only [hst] at ha
              simp only [fetchExecution, hf, h₁, h₂, hst, if_false, ne_eq, not_true, ha]
              have hv := hk.effect (.isFile filePath) [] rfl (by simp)
              have hq : Untouched view w (p.withFile filePath) := ⟨hp.loaded, hp.stopless, hp.same⟩
              have hq' := Untouched.stepped (σ := σ) job rfl rfl hv "checking the backup file" hq
              refine runStep_ends _ (fun hs => ?_) fun hs _ => ?_
              · refine ⟨?_, ?_, hq'⟩
                · simpa [start_prog_status] using hs
                · simp [Execution.file, hst, hf, Progress.withFile]
              · exact ⟨by simpa [start_prog_status] using hs, hq'⟩
          | some storage =>
              simp only [hst] at ha
              simp only [fetchExecution, hf, h₁, h₂, hst, if_false, ne_eq, not_true, ha]
              cases hn : job.storageName storage with
              | none => simpa using hp
              | some name =>
                  cases hd : job.download storage filePath with
                  | error m => simpa [hd] using ⟨hp.loaded, hp.stopless, hp.same⟩
                  | ok d =>
                      refine ⟨by simp, ?_, hp.loaded, hp.stopless, ?_⟩
                      · simp [Execution.file, hst, hf, Progress.withTemp]
                      · exact (hk.write _ (by simp) _ _).trans hp.same
        · simp only [fetchExecution, hf, h₁, h₂, if_true, if_false, ne_eq, not_false_eq_true, ends_threw]
          refine ⟨?_, hp⟩
          rintro ⟨_, _, _, _, hd, _⟩
          exact h₂ hd

theorem fetch_ends (hk : Keeps H files view) {p : Progress W} (hp : Untouched view w p) :
    (fetch (H.machine σ) job p).Ends (fun q => Fetches σ job ∧ q.filePath = job.file ∧ Untouched view w q)
      fun q => ¬ Fetches σ job ∧ Untouched view w q := by
  cases hs : job.source with
  | upload path =>
      simp only [fetch, Job.file, Fetches, hs]
      exact ⟨trivial, rfl, hp.loaded, hp.stopless, hp.same⟩
  | execution found =>
      cases found with
      | none =>
          simp only [fetch, Fetches, hs]
          exact ⟨not_false, hp⟩
      | some execution =>
          simp only [fetch, Job.file, Fetches, hs]
          exact fetchExecution_ends hk execution hp

theorem prepare_ends (job : Job β) (hk : Keeps H files view) (w : W) :
    (prepare (H.machine σ) job ⟨.running, "", "", none, w, []⟩).Ends
      (fun q => Ready σ job ∧ q.filePath = job.file ∧ Untouched view w q)
      fun q => ¬ Ready σ job ∧ Untouched view w q := by
  have hp : Untouched view w (⟨.running, "", "", none, w, []⟩ : Progress W) :=
    ⟨by simp [LoadFailed], by simp [Stopless], rfl⟩
  cases hc : job.connect with
  | some m => simpa [prepare, Ready, hc] using hp
  | none =>
      have hv := hk.effect (.mkdir (dbBackupsDir job.databaseId)) [] rfl (by simp)
      have hq := Untouched.stepped (σ := σ) job rfl rfl hv "preparing the backups folder" hp
      have hm : (runStep (H.machine σ) job
          { label := "preparing the backups folder", command := prog (.mkdir (dbBackupsDir job.databaseId)) }
          ⟨.running, "", "", none, w, []⟩).Ends
          (fun q => σ (.mkdir (dbBackupsDir job.databaseId)) = 0 ∧ Untouched view w q)
          fun q => ¬ Ready σ job ∧ Untouched view w q := by
        refine runStep_ends _ (fun hs => ?_) fun hs _ => ?_
        · exact ⟨by simpa [start_prog_status] using hs, hq⟩
        · refine ⟨fun hr => hs ?_, hq⟩
          rw [start_prog_status (by simp)]
          exact hr.2.1
      simp only [prepare, hc, await_none, id, done_andThen]
      refine hm.andThen fun q ⟨h0, hq⟩ => (fetch_ends hk hq).imp ?_ ?_
      · exact fun r ⟨hf, hp, hr⟩ => ⟨⟨hc, h0, hf⟩, hp, hr⟩
      · exact fun r ⟨hf, hr⟩ => ⟨fun h => hf h.2.2, hr⟩

end Prepare

section Outcome

variable {view : W → V} {w : W}

/-- What a restore that completes must not have done. -/
def Completed (p : Progress W) : Prop := ¬ LoadFailed p.ran ∧ Restarted p.ran

def Aborted (database : Database) (view : W → V) (w : W) (p : Progress W) : Prop :=
  (LoadFailed p.ran → dataFiles database ≠ [] → view p.world = view w) ∧ Restarted p.ran

theorem careful_complete (database : Database) (p : Progress W) :
    Careful database view w (complete p) ↔ Completed p :=
  ⟨fun h => ⟨fun hf => Status.noConfusion (h.reported hf), h.restarted⟩,
    fun h => ⟨fun hf => absurd hf h.1, fun hf => absurd hf h.1, h.2⟩⟩

theorem careful_handler (database : Database) (m : String) (p : Progress W) :
    Careful database view w (handler m p) ↔ Aborted database view w p :=
  ⟨fun h => ⟨h.kept, h.restarted⟩, fun h => ⟨fun _ => rfl, h.1, h.2⟩⟩

theorem restarted_append {l : List (Tool × Nat)} {t : Tool} {n : Nat} (hs : t.stops = false)
    (hd : ∀ container, t ≠ .dockerStart container) : Restarted (l ++ [(t, n)]) ↔ Restarted l := by
  induction l with
  | nil =>
      refine iff_of_true ⟨fun container he => ?_, trivial⟩ trivial
      rw [(Prod.mk.inj he).1] at hs
      cases hs
  | cons e l ih =>
      rw [List.cons_append, Restarted, Restarted, ih]
      refine and_congr_left fun _ => forall₂_congr fun container _ => ?_
      rw [List.mem_append, List.mem_singleton]
      exact or_iff_left fun he => hd container (Prod.mk.inj he).1.symm

theorem careful_removeTemp {files : List String} (hk : Keeps H files view) (database : Database)
    (p : Progress W) :
    Careful database view w (removeTemp (H.machine σ) p) ↔ Careful database view w p := by
  rw [removeTemp]
  split
  · rfl
  · rename_i file _
    have hr := hk.effect (.remove [.host file]) _ rfl (by simp) .empty p.world
    have hran : (p.advance ((H.machine σ).start (prog (.remove [.host file])) p.world)).ran =
        p.ran ++ [(.remove [.host file], σ (.remove [.host file]))] := rfl
    have hf : LoadFailed (p.advance ((H.machine σ).start (prog (.remove [.host file])) p.world)).ran ↔
        LoadFailed p.ran := by
      rw [hran, loadFailed_append]
      exact or_iff_left (by simp [LoadFailed, Tool.loads])
    constructor
    · rintro ⟨h₁, h₂, h₃⟩
      exact ⟨fun h => h₁ (hf.mpr h), fun h hd => hr.symm.trans (h₂ (hf.mpr h) hd),
        (restarted_append rfl (by simp)).mp (hran ▸ h₃)⟩
    · rintro ⟨h₁, h₂, h₃⟩
      exact ⟨fun h => h₁ (hf.mp h), fun h hd => hr.trans (h₂ (hf.mp h) hd),
        hran ▸ (restarted_append rfl (by simp)).mpr h₃⟩

theorem careful_restoreDatabase_iff {files : List String} (hk : Keeps H files view) (w : W) :
    Careful job.database view w (restoreDatabase (H.machine σ) job w) ↔
      ((prepare (H.machine σ) job ⟨.running, "", "", none, w, []⟩).andThen (restoreSteps (H.machine σ) job)).Ends
        Completed (Aborted job.database view w) := by
  rw [restoreDatabase, careful_removeTemp hk]
  cases (prepare (H.machine σ) job ⟨.running, "", "", none, w, []⟩).andThen (restoreSteps (H.machine σ) job) with
  | done p => exact careful_complete _ p
  | threw m p => exact careful_handler _ m p

end Outcome

section Loading

variable {M : Machine Tool Path (Data β) W} {view : W → V} {w : W}

def Orderly (M : Machine Tool Path (Data β) W) (step : RestoreStep β) : Prop :=
  Reporting M step ∧ step.command.All fun t => t.stops = false

theorem runSteps_orderly {steps : List (RestoreStep β)} (h : ∀ step ∈ steps, Orderly M step)
    {p : Progress W}
    (hp : Untouched view w p) :
    (runSteps M job steps p).Ends (fun q => ¬ LoadFailed q.ran ∧ Stopless q.ran) fun q => Stopless q.ran := by
  refine runSteps_ends M (fun step hs q hq => ?_) ⟨hp.loaded, hp.stopless⟩
  have h₁ := (h step hs).1.runStep job hq.1
  have h₂ := runStep_stopless job M (h step hs).2 hq.2
  cases hr : runStep M job step q with
  | done r =>
      rw [hr] at h₁ h₂
      exact ⟨h₁, h₂⟩
  | threw m r =>
      rw [hr] at h₂
      exact h₂

theorem multiSteps_stopless (database : Database) (containerName filePath : String) :
    ∀ step ∈ (multiSteps database containerName filePath : List (RestoreStep β)), step.command.All fun t => t.stops = false := by
  rw [multiSteps, List.forall_mem_cons, List.forall_mem_cons, List.forall_mem_singleton]
  refine ⟨?_, ?_, ?_⟩
  · simp [Cmd.All, Cmd.programs, plainCopyCommand, prog, toFile, Tool.stops]
  · cases he : database.engine <;>
      simp [restoreLoop, restoreLoopBody, createMissing, he, Cmd.All, Cmd.programs, prog, Tool.stops]
  · simp [Cmd.All, Cmd.programs, prog, Tool.stops]

theorem resetDatabase_stopless (database : Database) (container name : String) :
    ∀ step ∈ (resetDatabase database container name : List (RestoreStep β)), step.command.All fun t => t.stops = false := by
  rw [resetDatabase]
  split
  case h_1 => split_ifs <;> simp [Cmd.All, Cmd.programs, createMissing, prog, Tool.stops]
  case h_2 | h_3 => simp [Cmd.All, Cmd.programs, prog, Tool.stops]
  case h_4 => simp

theorem loadOne_stopless {database : Database} {container name plainFile : String} {c : Script β}
    (h : loadOne database container name plainFile = .ok c) : c.All fun t => t.stops = false := by
  cases he : database.engine <;> simp only [loadOne, he, Except.ok.injEq, reduceCtorEq] at h <;> subst h <;>
    simp [Cmd.All, Cmd.programs, fromFile, prog, Tool.stops]

theorem plainCopyCommand_stopless (file out : Location) :
    (plainCopyCommand file out : Script β).All fun t => t.stops = false := by
  simp [Cmd.All, Cmd.programs, plainCopyCommand, prog, toFile, Tool.stops]

theorem prog_stopless {t : Tool} (h : t.stops = false) :
    (prog t : Script β).All fun t => t.stops = false := by
  simp [Cmd.All, Cmd.programs, prog, h]

theorem buildRestoreSteps_orderly {database : Database}
    {containerName filePath volumeName backupsDir now : String}
    (he : dataFiles database = []) {steps : List (RestoreStep β)}
    (h : buildRestoreSteps database containerName filePath volumeName backupsDir now = .ok steps) :
    ∀ step ∈ steps, Orderly M step := by
  have hmulti : ∀ step ∈ multiSteps database containerName filePath, Orderly M step :=
    fun step hs => ⟨multiSteps_reporting _ _ _ step hs, multiSteps_stopless _ _ _ step hs⟩
  cases hen : database.engine with
  | postgresql | mysql | mariadb =>
      simp only [buildRestoreSteps, hen] at h
      split_ifs at h
      · cases h
        exact hmulti
      · cases hl : (loadOne database containerName database.primary (filePath ++ ".plain") : Except String (Script β)) with
        | error m => simp [hl, bind, Except.bind] at h
        | ok c =>
            simp only [hl, bind, Except.bind, pure, Except.pure, Except.ok.injEq] at h
            subst h
            rw [List.forall_mem_cons, List.forall_mem_append, List.forall_mem_cons,
              List.forall_mem_singleton]
            refine ⟨⟨Or.inr ⟨rfl, reports_plainCopyCommand _ _⟩, plainCopyCommand_stopless _ _⟩,
              fun step hs => ⟨Or.inl (resetDatabase_silent _ _ _ step hs), resetDatabase_stopless _ _ _ step hs⟩,
              ⟨Or.inr ⟨rfl, loadOne_reports hl⟩, loadOne_stopless hl⟩, Or.inl (silent_prog rfl), prog_stopless rfl⟩
  | mongodb =>
      simp only [buildRestoreSteps, hen] at h
      split_ifs at h
      · cases h
        exact hmulti
      · cases h
        rw [List.forall_mem_singleton]
        exact ⟨Or.inr ⟨rfl, .inp (reports_run _) _⟩,
          by simp [Cmd.All, Cmd.programs, fromFile, prog, Tool.stops]⟩
  | clickhouse =>
      simp only [buildRestoreSteps, hen, Except.ok.injEq] at h
      subst h
      rw [List.forall_mem_append, List.forall_mem_cons, List.forall_mem_singleton]
      refine ⟨?_, ⟨Or.inl (silent_prog rfl), prog_stopless rfl⟩, Or.inr ⟨rfl, reports_run _⟩,
        prog_stopless rfl⟩
      split_ifs
      · rw [List.forall_mem_singleton]
        exact ⟨Or.inr ⟨rfl, .and (reports_run _) (silent_prog rfl).reports⟩,
          by simp [Cmd.All, Cmd.programs, prog, Tool.stops]⟩
      · simp
  | redis | keydb | dragonfly | sqlite => simp [dataFiles, hen, sqliteFiles] at he

theorem plainCopyCommand_kept {files : List String} (hk : Keeps H files view) (file out : String) (w : W) :
    view ((H.machine σ).start (plainCopyCommand (.host file) (.host out)) w).state.world = view w := by
  have hm := hk.effect (.isGzip (.host file)) _ rfl (by simp)
  have hg := hk.effect (.gunzip (.host file)) _ rfl (by simp)
  have hc := hk.effect (.copy (.host file) (.host out)) _ rfl (by simp)
  have hw := hk.write (.host out) (by simp)
  by_cases h : exitStatus σ (.isGzip (.host file)) = 0 <;>
    simp [plainCopyCommand, prog, toFile, start, fresh, eval, call, h, hm, hg, hc, hw]

theorem sqliteSteps_ends {database : Database} {containerName filePath volumeName backupsDir now : String}
    (he : database.engine = .sqlite) (hk : Keeps H (dataFiles database) view) {steps : List (RestoreStep β)}
    (h : buildRestoreSteps database containerName filePath volumeName backupsDir now = .ok steps)
    {p : Progress W} (hp : Untouched view w p) :
    (runSteps (H.machine σ) job steps p).Ends (fun q => ¬ LoadFailed q.ran ∧ Stopless q.ran) fun q =>
      (LoadFailed q.ran → view q.world = view w) ∧ Stopless q.ran := by
  have hk' : Keeps H (sqliteFiles (sqliteFilePath database.databaseName)) view := by
    simpa [dataFiles, he] using hk
  simp only [buildRestoreSteps, he, Except.ok.injEq] at h
  subst h
  simp only [runSteps]
  have hcopy : ∀ q : Progress W, Untouched view w q → Stopless (stepped (H.machine σ) job
      { label := "preparing the dump"
        command := plainCopyCommand (.host filePath) (.host (filePath ++ ".plain")) } q).ran := by
    intro q hq
    rw [stepped_ran, stopless_append]
    exact ⟨hq.stopless, start_stopless _ (plainCopyCommand_stopless _ _) _⟩
  refine Ends.andThen (P := Untouched view w) (runStep_ends _ (fun hs => ?_) fun _ _ => ?_) fun q hq => ?_
  · refine ⟨?_, hcopy p hp, ?_⟩
    · rw [stepped_ran, loadFailed_append, not_or]
      refine ⟨hp.loaded, fun hf => ?_⟩
      rcases hs with hs | hs
      · exact reports_plainCopyCommand _ _ _ _ hf hs
      · cases hs
    · rw [stepped_world]
      exact (plainCopyCommand_kept hk _ _ _).trans hp.same
  · refine ⟨fun _ => ?_, hcopy p hp⟩
    rw [stepped_world]
    exact (plainCopyCommand_kept hk _ _ _).trans hp.same
  · have hstop : Stopless (stepped (H.machine σ) job
        { label := s!"replacing {sqliteFilePath database.databaseName} with the dump"
          command := fromFile (.within (fun _ => .exec containerName .sh)
            (sqliteScript (sqliteFilePath database.databaseName))) (.host (filePath ++ ".plain")) } q).ran := by
      rw [stepped_ran, stopless_append]
      refine ⟨hq.stopless, start_stopless _ ?_ _⟩
      simp [Cmd.All, Cmd.programs, fromFile, sqliteScript, prog, Tool.stops]
    refine Ends.andThen (P := fun q : Progress W => ¬ LoadFailed q.ran ∧ Stopless q.ran)
      (runStep_ends _ (fun hs => ⟨?_, hstop⟩) fun _ _ => ⟨fun hf => ?_, hstop⟩) fun r hr => ?_
    · rw [stepped_ran, loadFailed_append, not_or]
      refine ⟨hq.loaded, fun hf => ?_⟩
      rcases hs with hs | hs
      · exact (sqliteStep_failed hk' rfl hf).1 hs
      · cases hs
    · rw [stepped_ran, loadFailed_append, or_iff_right hq.loaded] at hf
      rw [stepped_world]
      exact (sqliteStep_failed hk' rfl hf).2.trans hq.same
    · have hclean : ¬ LoadFailed (stepped (H.machine σ) job
          { label := "cleaning up temporary files"
            command := prog (.remove [.host (filePath ++ ".plain"), .host (filePath ++ ".d")])
            allowFailure := true } r).ran ∧ Stopless (stepped (H.machine σ) job
          { label := "cleaning up temporary files"
            command := prog (.remove [.host (filePath ++ ".plain"), .host (filePath ++ ".d")])
            allowFailure := true } r).ran := by
        rw [stepped_ran, loadFailed_append, stopless_append, not_or]
        exact ⟨⟨hr.1, (silent_prog rfl).not_failed _ _⟩, hr.2, start_stopless _ (prog_stopless rfl) _⟩
      exact Ends.andThen (P := fun q : Progress W => ¬ LoadFailed q.ran ∧ Stopless q.ran)
        (runStep_ends _ (fun _ => hclean) fun _ ha => by cases ha) fun _ hq => hq

end Loading

end Yeah.Databases
