import Yeah.Databases.RestoreStatus

namespace Yeah.Databases

open Shell Machine Attempt

variable {β W V : Type} {H : Host β W} {σ : Tool → Nat} {job : Job β} {view : W → V} {w : W}

def unpack (σ : Tool → Nat) : Tool :=
  if σ (.isGzip (.inside "/restore.rdb")) = 0 then .gunzip (.inside "/restore.rdb")
  else .copy (.inside "/restore.rdb") (.inside "/data/dump.rdb")

def Places (σ : Tool → Nat) : Prop := σ removeAof ≠ 0 ∨ σ (unpack σ) = 0 ∧ σ copyAof = 0

def Tool.starts : Tool → Bool
  | .dockerStart _ => true
  | _ => false

/-- The status of the script is 0 whatever fails in it. -/
theorem redisScript_spec (i : Data β) (s : State (Data β) W) :
    ((H.machine σ).eval redisScript i s).state.status = 0 ∧
      (LoadFailed ((H.machine σ).eval redisScript i s).log ↔ ¬ Places σ) := by
  have hl : removeAof.loads = false ∧ copyAof.loads = true ∧ (∀ p, (Tool.isGzip p).loads = false) ∧
      (∀ p, (Tool.gunzip p).loads = true) ∧ (∀ p q, (Tool.copy p q).loads = true) ∧
      ∀ p ps, (Tool.chown p ps).loads = false :=
    ⟨rfl, rfl, fun _ => rfl, fun _ => rfl, fun _ _ => rfl, fun _ _ => rfl⟩
  have hs : exitStatus σ removeAof = σ removeAof ∧ exitStatus σ copyAof = σ copyAof ∧
      (∀ p, exitStatus σ (.isGzip p) = σ (.isGzip p)) ∧ (∀ p, exitStatus σ (.gunzip p) = σ (.gunzip p)) ∧
      ∀ p q, exitStatus σ (.copy p q) = σ (.copy p q) :=
        ⟨rfl, rfl, fun _ => rfl, fun _ => rfl, fun _ _ => rfl⟩
  by_cases hr : σ removeAof = 0
  · by_cases hg : σ (.isGzip (.inside "/restore.rdb")) = 0
    · by_cases hu : σ (.gunzip (.inside "/restore.rdb")) = 0 <;> by_cases hc : σ copyAof = 0 <;>
        simp [redisScript, plainCopyCommand, prog, toFile, eval, call, quiet, after, hs, LoadFailed, Places, unpack, hr,
          hg, hu, hc, hl]
    · by_cases hu : σ (.copy (.inside "/restore.rdb") (.inside "/data/dump.rdb")) = 0 <;>
        by_cases hc : σ copyAof = 0 <;>
        simp [redisScript, plainCopyCommand, prog, toFile, eval, call, quiet, after, hs, LoadFailed, Places, unpack, hr,
          hg, hu, hc, hl]
  · simp [redisScript, prog, eval, call, quiet, after, hs, LoadFailed, Places, hr, hl]

/-- What it takes to replace the files well, unless nothing is stopped. -/
def Replaces (σ : Tool → Nat) (database : Database) (container volume file : String) : Prop :=
  σ (.dockerStop container) ≠ 0 ∨
    σ (.dockerRun volume file database.image) = 0 ∧ σ (.dockerStart container) = 0 ∧ Places σ

theorem start_prog_log {t : Tool} (ht : t ≠ .compress "") (w : W) :
    ((H.machine σ).start (prog t) w).log = [(t, σ t)] := by
  simp [start, prog, eval, call, exitStatus_of_ne ht]

theorem redisScript_starts_nothing :
    (redisScript : Script β).All fun t => t.starts = false ∧ t.stops = false := by
  simp [Cmd.All, Cmd.programs, redisScript, plainCopyCommand, prog, toFile, removeAof, copyAof,
    Tool.starts, Tool.stops]

/-- The script in its container: its failures do not reach the step. -/
theorem placeStep_spec (run : Tool) (hrun : exitStatus σ run = 0) (hl : run.loads = false)
    (hs : run.starts = false ∧ run.stops = false) (w : W) {r : Result Tool (Data β) W}
    (hr : r = (H.machine σ).start (.within (fun _ => run) redisScript) w) :
    r.state.status = 0 ∧ (LoadFailed r.log ↔ ¬ Places σ) ∧ ∀ e ∈ r.log, e.1.starts = false ∧
      e.1.stops = false := by
  subst hr
  obtain ⟨hst, -, hlog⟩ := eval_within (H.machine σ) (p := fun _ => run) (i := .empty) (s := fresh _ w)
    (redisScript : Script β) hrun
  obtain ⟨h0, hf⟩ := redisScript_spec (H := H) (σ := σ) .empty
    ((H.machine σ).launched run .empty ((H.machine σ).fresh w))
  refine ⟨hst.trans h0, ?_, ?_⟩
  · rw [start, machine_empty, hlog, ← List.singleton_append, loadFailed_append, hf]
    exact or_iff_right (by simp [LoadFailed, hl])
  · rw [start, machine_empty, hlog, List.forall_mem_cons]
    exact ⟨hs, eval_ran _ _ redisScript_starts_nothing _ _⟩

theorem not_restarted {l m : List (Tool × Nat)} (hl : Stopless l) {container : String}
    (hm : (.dockerStart container, 0) ∉ m) : ¬ Restarted (l ++ (.dockerStop container, 0) :: m) := by
  rw [restarted_append_of_stopless hl.no_stop]
  exact fun h => hm (h.1 container rfl)

theorem restarted_of_start {l m : List (Tool × Nat)} (hl : Stopless l) (hm : Stopless m)
    {container : String}
    (hs : (.dockerStart container, 0) ∈ m) : Restarted (l ++ (.dockerStop container, 0) :: m) := by
  rw [restarted_append_of_stopless hl.no_stop]
  refine ⟨fun container' he => ?_, hm.restarted⟩
  obtain rfl : container = container' := by simpa using he
  exact hs

theorem replaceSteps_ends_iff (database : Database) (container volume file : String) {p : Progress W}
    (hp : Untouched view w p) :
    (runSteps (H.machine σ) job (replaceSteps database container volume file) p).Ends Completed
        (Aborted database view w) ↔
      Replaces σ database container volume file := by
  simp only [replaceSteps, runSteps]
  by_cases h₁ : σ (.dockerStop container) = 0
  · rw [runStep_done _ (by rw [start_prog_status (by simp), h₁]), done_andThen]
    generalize hp₁ : stepped (H.machine σ) job _ p = p₁
    have hr₁ : p₁.ran = p.ran ++ [(.dockerStop container, 0)] := by
      rw [← hp₁, stepped_ran, start_prog_log (by simp), h₁]
    by_cases h₂ : σ (.dockerRun volume file database.image) = 0
    · obtain ⟨hs, hf, hq⟩ :=
        placeStep_spec (.dockerRun volume file database.image) h₂ rfl ⟨rfl, rfl⟩ p₁.world rfl
      rw [runStep_done _ hs, done_andThen]
      generalize hp₂ : stepped (H.machine σ) job _ p₁ = p₂
      obtain ⟨l, hl⟩ : ∃ l, l = ((H.machine σ).start (.within (fun _ => .dockerRun volume file database.image) redisScript)
        p₁.world).log := ⟨_, rfl⟩
      have hr₂ : p₂.ran = p.ran ++ (.dockerStop container, 0) :: l := by
        rw [← hp₂, stepped_ran, hr₁, ← hl]
        simp
      rw [← hl] at hf hq
      by_cases h₃ : σ (.dockerStart container) = 0
      · rw [runStep_done _ (by rw [start_prog_status (by simp), h₃]), done_andThen, ends_done]
        generalize hp₃ : stepped (H.machine σ) job _ p₂ = p₃
        have hr₃ : p₃.ran = p.ran ++ (.dockerStop container, 0) :: (l ++ [(.dockerStart container, 0)]) := by
          rw [← hp₃, stepped_ran, hr₂, start_prog_log (by simp), h₃]
          simp
        have hR : Restarted p₃.ran := by
          rw [hr₃]
          refine restarted_of_start hp.stopless (stopless_append.mpr ⟨fun e he => (hq e he).2, ?_⟩)
            (by simp)
          simp [Stopless, Tool.stops]
        have hL : LoadFailed p₃.ran ↔ ¬ Places σ := by
          rw [hr₃, loadFailed_append, ← List.singleton_append, loadFailed_append, loadFailed_append, hf]
          have h₁ : ¬ LoadFailed [(.dockerStop container, 0)] := by simp [LoadFailed]
          have h₂ : ¬ LoadFailed [(.dockerStart container, 0)] := by simp [LoadFailed]
          rw [or_iff_right hp.loaded, or_iff_right h₁, or_iff_left h₂]
        rw [Completed, hL, not_not, and_iff_left hR]
        exact ⟨fun h => Or.inr ⟨h₂, h₃, h⟩, fun h => (h.resolve_left (not_not_intro h₁)).2.2⟩
      · rw [runStep_threw_ends _ (by rwa [start_prog_status (by simp)]) rfl]
        refine iff_of_false (fun h => ?_) fun h => h₃ (h.resolve_left (not_not_intro h₁)).2.1
        rw [Aborted, stepped_ran, hr₂, start_prog_log (by simp), List.append_assoc, List.cons_append] at h
        refine not_restarted hp.stopless ?_ h.2
        rw [List.mem_append, not_or]
        refine ⟨fun hm => ?_, by simpa using Ne.symm h₃⟩
        cases (hq _ hm).1
    · have hs : ((H.machine σ).start (.within (fun _ => .dockerRun volume file database.image) redisScript)
          p₁.world) = (H.machine σ).call (.dockerRun volume file database.image) .empty (fresh _ p₁.world) :=
        eval_within_failed _ _ h₂
      rw [runStep_threw_ends _ (by rw [hs]; exact h₂) rfl]
      refine iff_of_false (fun h => ?_) fun h => h₂ (h.resolve_left (not_not_intro h₁)).1
      rw [Aborted, stepped_ran, hr₁, hs, List.append_assoc] at h
      exact not_restarted hp.stopless (by simp [call]) h.2
  · rw [runStep_threw_ends _ (by rwa [start_prog_status (by simp)]) rfl]
    refine iff_of_true ⟨fun h => absurd h ?_, ?_⟩ (Or.inl h₁)
    · rw [stepped_ran, loadFailed_append, not_or, start_prog_log (by simp)]
      exact ⟨hp.loaded, by simp [LoadFailed, Tool.loads]⟩
    · rw [stepped_ran, restarted_append_of_stopless hp.stopless.no_stop, start_prog_log (by simp)]
      exact ⟨fun _ he => absurd (Prod.mk.inj he).2 h₁, trivial⟩

/-- When a restore neither loses data in silence nor leaves the container stopped. -/
def Recovers (σ : Tool → Nat) (job : Job β) : Prop :=
  match job.database.engine with
  | .redis | .keydb | .dragonfly =>
      Ready σ job → Replaces σ job.database (containerNameForDatabase job.databaseId)
        s!"{containerNameForDatabase job.databaseId}-data" job.file
  | _ => True

theorem Untouched.aborted (database : Database) {p : Progress W} (hp : Untouched view w p) :
    Aborted database view w p := ⟨fun h => absurd h hp.loaded, hp.stopless.restarted⟩

/-- Engines whose files are not replaced report what they cannot load. -/
theorem restoreSteps_ends (he : dataFiles job.database = []) {p : Progress W} (hp : Untouched view w p) :
    (restoreSteps (H.machine σ) job p).Ends Completed (Aborted job.database view w) := by
  rw [restoreSteps]
  split
  · exact hp.aborted _
  · rename_i steps hs
    refine (runSteps_orderly (buildRestoreSteps_orderly he hs) hp).imp ?_ ?_
    · exact fun q hq => ⟨hq.1, hq.2.restarted⟩
    · exact fun q hq => ⟨fun _ hd => absurd he hd, hq.restarted⟩

/-- The database and its container survive a restore exactly when it recovers. -/
theorem restoreDatabase_careful_iff (H : Host β W) (σ : Tool → Nat) (job : Job β) {view : W → V}
    (hk : Keeps H (dataFiles job.database) view) (w : W) :
    Careful job.database view w (restoreDatabase (H.machine σ) job w) ↔ Recovers σ job := by
  rw [careful_restoreDatabase_iff hk]
  have hp := prepare_ends (σ := σ) job hk w
  cases hr : prepare (H.machine σ) job ⟨.running, "", "", none, w, []⟩ with
  | threw m p =>
      rw [hr] at hp
      refine iff_of_true (hp.2.aborted _) ?_
      rw [Recovers]
      split <;> first | exact fun h => absurd h hp.1 | trivial
  | done p =>
      rw [hr] at hp
      obtain ⟨hready, hfile, hu⟩ := hp
      rw [done_andThen]
      cases he : job.database.engine with
      | postgresql | mysql | mariadb | mongodb | clickhouse =>
          exact iff_of_true (restoreSteps_ends (by simp [dataFiles, he]) hu) (by simp [Recovers, he])
      | sqlite =>
          refine iff_of_true ?_ (by simp [Recovers, he])
          rw [restoreSteps]
          split
          · exact hu.aborted _
          · rename_i steps hs
            refine (sqliteSteps_ends he hk hs hu).imp ?_ ?_
            · exact fun q hq => ⟨hq.1, hq.2.restarted⟩
            · exact fun q hq => ⟨fun hf _ => hq.1 hf, hq.2.restarted⟩
      | redis | keydb | dragonfly =>
          simp only [restoreSteps, buildRestoreSteps, he, Recovers]
          rw [replaceSteps_ends_iff _ _ _ _ hu, hfile]
          exact ⟨fun h _ => h, fun h => h hready⟩

def idleFiles (database : Database) (w : Path → Option (Data Unit)) : List (Option (Data Unit)) :=
  (dataFiles database).map fun f => w (.file (.inside f))

theorem idle_keeps (database : Database) : Keeps idle (dataFiles database) (idleFiles database) where
  effect _ _ _ _ _ _ := rfl
  write l hl w d := by
    refine List.map_congr_left fun f hf => ?_
    exact Function.update_of_ne (fun he => hl f hf (Path.file.inj he).symm) _ _

def cacheJob : Job Unit where
  database := ⟨.redis, "cache", "redis:7-alpine", none, "pw", none, false⟩
  databaseId := "1"
  source := .upload "/opt/yeah-backups/1/upload.rdb.gz"
  now := "1700000000000"
  connect := none
  storageName _ := none
  download _ _ := .error "no storage"
  render _ := ""

def corruptArchive : Tool → Nat
  | .gunzip _ => 1
  | _ => 0

def missingImage : Tool → Nat
  | .dockerRun _ _ _ => 125
  | _ => 0

/-- A corrupt dump that counts as restored, and a container that stays stopped. -/
theorem restore_loses_data :
    ¬ Careful cacheJob.database (idleFiles cacheJob.database) (fun _ => none)
        (restoreDatabase (idle.machine corruptArchive) cacheJob fun _ => none) ∧
      ¬ Careful cacheJob.database (idleFiles cacheJob.database) (fun _ => none)
        (restoreDatabase (idle.machine missingImage) cacheJob fun _ => none) := by
  constructor
  · intro h
    have hs := h.reported ⟨(.gunzip (.inside "/restore.rdb"), 1), by decide, rfl, by decide⟩
    exact absurd hs (by decide)
  · intro h
    have hr : (restoreDatabase (idle.machine missingImage) cacheJob fun _ => none).ran =
        [(.mkdir "/opt/yeah-backups/1", 0), (.dockerStop "yeah-db-1", 0),
          (.dockerRun "yeah-db-1-data" "/opt/yeah-backups/1/upload.rdb.gz" "redis:7-alpine", 125),
          (.remove [.host "/opt/yeah-backups/1/upload.rdb.gz"], 0)] := rfl
    have hR := h.restarted
    rw [hr] at hR
    simpa using hR.2.1 "yeah-db-1" rfl

/-- A server on which every program succeeds. -/
theorem restoreDatabase_careful_iff_healthy :
    Careful cacheJob.database (idleFiles cacheJob.database) (fun _ => none)
      (restoreDatabase (idle.machine fun _ => 0) cacheJob fun _ => none) :=
  (restoreDatabase_careful_iff idle (fun _ => 0) cacheJob (idle_keeps _) fun _ => none).mpr fun _ =>
    Or.inr ⟨rfl, rfl, Or.inr ⟨rfl, rfl⟩⟩

end Yeah.Databases
