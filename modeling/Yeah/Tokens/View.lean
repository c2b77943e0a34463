import Yeah.Noninterference
import Yeah.Tokens.Actions
import Mathlib.Data.List.Nodup

namespace Yeah.Tokens

open Text Noninterference

/-! ### The rows of a team -/

def Tables.owns (db : Tables) (teamId applicationId : Uuid) : Bool :=
  db.applications.any fun a => a.teamId = teamId ∧ a.id = applicationId

def Tables.ownsDatabase (db : Tables) (teamId databaseId : Uuid) : Bool :=
  db.databases.any fun d => d.teamId = teamId ∧ d.id = databaseId

/-- A server of the team, or one that an application of the team runs on. -/
def Tables.uses (db : Tables) (teamId : Uuid) (s : Server) : Bool :=
  s.teamId = teamId ∨ db.applications.any fun a => a.teamId = teamId ∧ a.serverId = s.id

def Tables.ownsProject (db : Tables) (teamId projectId : Uuid) : Bool :=
  db.projects.any fun p => p.teamId = teamId ∧ p.id = projectId

/-- When a token was last used is left out: a request to another team's path is enough to change it. -/
def ApiToken.unused (t : ApiToken) : ApiToken := { t with lastUsedAt := none }

/-- What a team has, and the servers that its applications run on. -/
def restrict (teamId : Uuid) (db : Tables) : Tables where
  tokens := (db.tokens.filter fun t => t.teamId = teamId).map ApiToken.unused
  teams := db.teams.filter fun t => t.id = teamId
  applications := db.applications.filter fun a => a.teamId = teamId
  deployments := db.deployments.filter fun d => db.owns teamId d.applicationId
  databases := db.databases.filter fun d => d.teamId = teamId
  schedules := db.schedules.filter fun s => db.ownsDatabase teamId s.databaseId
  services := db.services.filter fun s => s.teamId = teamId
  servers := db.servers.filter (db.uses teamId)
  projects := db.projects.filter fun p => p.teamId = teamId
  environments := db.environments.filter fun e => db.ownsProject teamId e.projectId
  storages := db.storages.filter fun s => s.teamId = teamId
  channels := db.channels.filter fun c => c.teamId = teamId
  tasks := db.tasks.filter fun t => db.owns teamId t.applicationId
  deployJobs := db.deployJobs.filter fun d => db.owns teamId d.applicationId
  backupJobs := db.backupJobs.filter fun s => db.ownsDatabase teamId s.databaseId
  audit := db.audit.filter fun e => e.teamId = teamId

/-- The unique columns. -/
structure Unique (db : Tables) : Prop where
  applications : (db.applications.map Application.id).Nodup
  databases : (db.databases.map Database.id).Nodup
  tokens : (db.tokens.map ApiToken.tokenHash).Nodup

section Queries

variable {teamId i : Uuid} {db : Tables} {α : Type} {p q : α → Bool} {l : List α}

theorem filter_filter_of_imp (h : ∀ a ∈ l, q a = true → p a = true) : (l.filter p).filter q = l.filter q := by
  rw [List.filter_filter]
  apply List.filter_congr
  intro a ha
  cases hq : q a with
  | false => rw [Bool.false_and]
  | true => rw [h a ha hq, Bool.true_and]

theorem find?_filter_of_imp (h : ∀ a ∈ l, q a = true → p a = true) : (l.filter p).find? q = l.find? q := by
  rw [← List.head?_filter, filter_filter_of_imp h, List.head?_filter]

theorem any_filter_self {r : α → Bool} (h : ∀ a, r a = true → p a = true) : (l.filter p).any r = l.any r := by
  rw [List.any_filter]
  congr 1
  funext a
  cases hr : r a with
  | false => rw [Bool.and_false]
  | true => rw [h a hr, Bool.and_true]

@[simp] theorem owns_restrict : (restrict teamId db).owns teamId i = db.owns teamId i :=
  any_filter_self fun a ha => by simp_all

@[simp] theorem ownsDatabase_restrict : (restrict teamId db).ownsDatabase teamId i = db.ownsDatabase teamId i :=
  any_filter_self fun a ha => by simp_all

@[simp] theorem ownsProject_restrict : (restrict teamId db).ownsProject teamId i = db.ownsProject teamId i :=
  any_filter_self fun a ha => by simp_all

@[simp] theorem uses_restrict (s : Server) : (restrict teamId db).uses teamId s = db.uses teamId s := by
  have h : (restrict teamId db).applications.any (fun a => decide (a.teamId = teamId ∧ a.serverId = s.id)) =
      db.applications.any fun a => decide (a.teamId = teamId ∧ a.serverId = s.id) :=
    any_filter_self fun a ha => by simp_all
  rw [Tables.uses, Tables.uses, h]

theorem restrict_tokens (l : List ApiToken) :
    (((l.filter fun t => t.teamId = teamId).map ApiToken.unused).filter fun t => t.teamId = teamId).map
      ApiToken.unused = (l.filter fun t => t.teamId = teamId).map ApiToken.unused := by
  have hkept : ((fun t : ApiToken => decide (t.teamId = teamId)) ∘ ApiToken.unused) = fun t => decide (t.teamId = teamId) :=
    rfl
  rw [List.filter_map, hkept, filter_filter_of_imp fun _ _ h => h, List.map_map]
  rfl

theorem restrict_restrict : restrict teamId (restrict teamId db) = restrict teamId db := by
  rw [restrict]
  simp only [owns_restrict, ownsDatabase_restrict, ownsProject_restrict]
  have huses : (restrict teamId db).uses teamId = db.uses teamId := funext uses_restrict
  rw [huses]
  conv_rhs => rw [restrict]
  congr 1
  · exact restrict_tokens db.tokens
  all_goals exact filter_filter_of_imp fun _ _ h => h

/-! What is listed -/

@[simp] theorem findApplication_restrict : findApplication teamId i (restrict teamId db) = findApplication teamId i db :=
  find?_filter_of_imp fun a _ ha => by simp_all

theorem findApplication_some {a : Application} (h : findApplication teamId i db = some a) :
    a ∈ db.applications ∧ a.id = i ∧ a.teamId = teamId := by
  have hp := List.find?_some h
  rw [decide_eq_true_eq] at hp
  exact ⟨List.mem_of_find?_eq_some h, hp⟩

theorem owns_of_mem {a : Application} (h : a ∈ db.applications) (ht : a.teamId = teamId) : db.owns teamId a.id = true :=
  List.any_eq_true.2 ⟨a, h, by simpa using ht⟩

theorem latestDeployments_restrict (limit : Nat) (h : db.owns teamId i = true) :
    latestDeployments i limit (restrict teamId db) = latestDeployments i limit db := by
  rw [latestDeployments, latestDeployments]
  congr 3
  apply filter_filter_of_imp
  intro d _ hd
  rw [decide_eq_true_eq] at hd
  rw [hd, h]

theorem listApplications_restrict : listApplications teamId (restrict teamId db) = listApplications teamId db := by
  rw [listApplications, listApplications]
  congr 1
  exact filter_filter_of_imp fun _ _ h => h

theorem listDatabases_restrict : listDatabases teamId (restrict teamId db) = listDatabases teamId db := by
  rw [listDatabases, listDatabases]
  congr 1
  exact filter_filter_of_imp fun _ _ h => h

theorem listServices_restrict : listServices teamId (restrict teamId db) = listServices teamId db := by
  rw [listServices, listServices]
  congr 1
  exact filter_filter_of_imp fun _ _ h => h

theorem listServers_restrict : listServers teamId (restrict teamId db) = listServers teamId db := by
  rw [listServers, listServers]
  congr 1
  exact filter_filter_of_imp fun s _ hs => by simp_all [Tables.uses]

theorem listStorages_restrict : listStorages teamId (restrict teamId db) = listStorages teamId db := by
  rw [listStorages, listStorages]
  congr 1
  exact filter_filter_of_imp fun _ _ h => h

theorem listNotificationChannels_restrict :
    listNotificationChannels teamId (restrict teamId db) = listNotificationChannels teamId db := by
  rw [listNotificationChannels, listNotificationChannels]
  congr 1
  exact filter_filter_of_imp fun _ _ h => h

theorem listProjects_restrict : listProjects teamId (restrict teamId db) = listProjects teamId db := by
  have hprojects : ((restrict teamId db).projects.filter fun p => p.teamId = teamId) =
      db.projects.filter fun p => p.teamId = teamId := filter_filter_of_imp fun _ _ h => h
  rw [listProjects, listProjects, hprojects]
  congr 1
  funext p
  congr 4
  apply filter_filter_of_imp
  intro e _ he
  obtain ⟨p', hp', hid⟩ := List.mem_map.1 (of_decide_eq_true he)
  obtain ⟨hmem, hteam⟩ := List.mem_filter.1 hp'
  exact List.any_eq_true.2 ⟨p', hmem, by simp_all⟩

theorem flatMap_filter_of_nil {β : Type} {f : α → List β} (h : ∀ a ∈ l, p a = false → f a = []) :
    (l.filter p).flatMap f = l.flatMap f := by
  induction l with
  | nil => rfl
  | cons a l ih =>
      have hrest := ih fun b hb => h b (List.mem_cons_of_mem a hb)
      rw [List.flatMap_cons, ← hrest]
      cases hp : p a with
      | true => rw [List.filter_cons_of_pos hp, List.flatMap_cons]
      | false => rw [List.filter_cons_of_neg (by simp [hp]), h a List.mem_cons_self hp, List.nil_append]

theorem listScheduledTasks_restrict :
    listScheduledTasks teamId (restrict teamId db) = listScheduledTasks teamId db := by
  have hjoin (t : ScheduledTask) :
      ((restrict teamId db).applications.filter fun a => a.id = t.applicationId ∧ a.teamId = teamId) =
        db.applications.filter fun a => a.id = t.applicationId ∧ a.teamId = teamId :=
    filter_filter_of_imp fun a _ ha => by simp_all
  rw [listScheduledTasks, listScheduledTasks]
  simp only [hjoin]
  apply flatMap_filter_of_nil
  intro t _ ht
  rw [List.map_eq_nil_iff, List.filter_eq_nil_iff]
  intro a ha hjoined
  rw [decide_eq_true_eq] at hjoined
  have howns := owns_of_mem ha hjoined.2
  rw [hjoined.1, ht] at howns
  cases howns

theorem listDeployments_restrict : listDeployments teamId i (restrict teamId db) = listDeployments teamId i db := by
  rw [listDeployments, listDeployments, findApplication_restrict]
  cases ha : findApplication teamId i db with
  | none => rfl
  | some a =>
      obtain ⟨hmem, rfl, hteam⟩ := findApplication_some ha
      dsimp only
      rw [latestDeployments_restrict 10 (owns_of_mem hmem hteam)]

theorem listPreviews_restrict : listPreviews teamId i (restrict teamId db) = listPreviews teamId i db := by
  have hpreviews : ((restrict teamId db).applications.filter fun a => a.previewOfId = some i ∧ a.teamId = teamId) =
      db.applications.filter fun a => a.previewOfId = some i ∧ a.teamId = teamId :=
    filter_filter_of_imp fun a _ ha => by simp_all
  rw [listPreviews, listPreviews, findApplication_restrict, hpreviews]

theorem getPreview_restrict {j : Uuid} : getPreview teamId i j (restrict teamId db) = getPreview teamId i j db := by
  have hfind : ((restrict teamId db).applications.find? fun a =>
        a.id = j ∧ a.previewOfId = some i ∧ a.teamId = teamId) =
      db.applications.find? fun a => a.id = j ∧ a.previewOfId = some i ∧ a.teamId = teamId :=
    find?_filter_of_imp fun a _ ha => by simp_all
  rw [getPreview, getPreview, hfind]
  cases ha : db.applications.find? fun a => a.id = j ∧ a.previewOfId = some i ∧ a.teamId = teamId with
  | none => rfl
  | some a =>
      have hp := List.find?_some ha
      rw [decide_eq_true_eq] at hp
      obtain ⟨rfl, -, hteam⟩ := hp
      dsimp only
      rw [latestDeployments_restrict 5 (owns_of_mem (List.mem_of_find?_eq_some ha) hteam)]

end Queries

/-! ### The actions -/

section Actions

variable {teamId i : Uuid} {db : Tables}

/-- A listing reads the rows of its team only. -/
theorem confined_read {ρ : Type} {q : Tables → ρ} (h : ∀ db, q (restrict teamId db) = q db) :
    Confined restrict Unique teamId fun db => (db, q db) :=
  Confined.read fun s t _ _ hview => by rw [← h s, hview, h t]

def Tables.queue (db : Tables) (d : Deployment) : Tables :=
  { db with deployments := db.deployments ++ [d], deployJobs := db.deployJobs ++ [d] }

theorem restrict_queue {d : Deployment} : restrict teamId (db.queue d) =
    if db.owns teamId d.applicationId then (restrict teamId db).queue d else restrict teamId db := by
  have happend (l : List Deployment) : ((l ++ [d]).filter fun d => db.owns teamId d.applicationId) =
      (l.filter fun d => db.owns teamId d.applicationId) ++ if db.owns teamId d.applicationId then [d] else [] := by
    rw [List.filter_append, List.filter_singleton, Bool.cond_eq_ite]
  have hqueue : restrict teamId (db.queue d) = { restrict teamId db with
      deployments := (db.deployments ++ [d]).filter fun d => db.owns teamId d.applicationId
      deployJobs := (db.deployJobs ++ [d]).filter fun d => db.owns teamId d.applicationId } := rfl
  rw [hqueue, happend, happend]
  split
  · rfl
  · rw [List.append_nil, List.append_nil]
    rfl

theorem not_owns {a : Application} (h : Unique db) (ha : a ∈ db.applications) (hne : i ≠ a.teamId) :
    db.owns i a.id = false := by
  rw [Tables.owns, List.any_eq_false]
  intro b hb hp
  rw [decide_eq_true_eq] at hp
  obtain rfl : b = a := List.inj_on_of_nodup_map h.applications hb ha hp.2
  exact hne hp.1.symm

theorem not_ownsDatabase {d : Database} (h : Unique db) (hd : d ∈ db.databases) (hne : i ≠ d.teamId) :
    db.ownsDatabase i d.id = false := by
  rw [Tables.ownsDatabase, List.any_eq_false]
  intro b hb hp
  rw [decide_eq_true_eq] at hp
  obtain rfl : b = d := List.inj_on_of_nodup_map h.databases hb hd hp.2
  exact hne hp.1.symm

/-- The server that an application of the team runs on. -/
theorem server_restrict {a : Application} (ha : a ∈ db.applications) (hteam : a.teamId = teamId) :
    ((restrict teamId db).servers.find? fun s => s.id = a.serverId) = db.servers.find? fun s => s.id = a.serverId := by
  apply find?_filter_of_imp
  intro s _ hs
  have hruns : db.applications.any (fun b => decide (b.teamId = teamId ∧ b.serverId = s.id)) = true :=
    List.any_eq_true.2 ⟨a, ha, by simp_all⟩
  rw [Tables.uses, decide_eq_true_eq]
  exact Or.inr hruns

/-- Either nothing is written, or a deployment of an application of the team is queued. -/
theorem triggerDeploy_cases (given : Given) (force : Bool) :
    (∃ r, triggerDeploy given teamId i force db = (db, r) ∧
      triggerDeploy given teamId i force (restrict teamId db) = (restrict teamId db, r)) ∨
    ∃ a ∈ db.applications, a.teamId = teamId ∧ ∃ d r, d.applicationId = a.id ∧
      triggerDeploy given teamId i force db = (db.queue d, r) ∧
      triggerDeploy given teamId i force (restrict teamId db) = ((restrict teamId db).queue d, r) := by
  rw [triggerDeploy, triggerDeploy, findApplication_restrict]
  cases ha : findApplication teamId i db with
  | none => exact Or.inl ⟨_, rfl, rfl⟩
  | some a =>
      obtain ⟨hmem, -, hteam⟩ := findApplication_some ha
      dsimp only
      rw [server_restrict hmem hteam]
      split
      · exact Or.inl ⟨_, rfl, rfl⟩
      · split
        · exact Or.inl ⟨_, rfl, rfl⟩
        · exact Or.inr ⟨a, hmem, hteam, _, _, rfl, rfl, rfl⟩

theorem triggerDeploy_confined (given : Given) (force : Bool) :
    Confined restrict Unique teamId (triggerDeploy given teamId i force) := by
  apply Confined.of_view
  · intro db h
    obtain ⟨r, hr, -⟩ | ⟨a, -, -, d, r, -, hr, -⟩ := triggerDeploy_cases  given force
    · rw [hr]
      exact h
    · rw [hr]
      exact ⟨h.applications, h.databases, h.tokens⟩
  · intro db h
    obtain ⟨r, hr, hr'⟩ | ⟨a, -, -, d, r, -, hr, hr'⟩ := triggerDeploy_cases  given force
    · rw [hr, hr']
    · rw [hr, hr']
  · intro db h
    obtain ⟨r, hr, hr'⟩ | ⟨a, ha, hteam, d, r, hd, hr, hr'⟩ :=
      triggerDeploy_cases  given force
    · rw [hr, hr', restrict_restrict]
    · rw [hr, hr', restrict_queue, restrict_queue, owns_restrict, restrict_restrict, hd, owns_of_mem ha hteam]
  · intro db j h hj
    obtain ⟨r, hr, -⟩ | ⟨a, ha, hteam, d, r, hd, hr, -⟩ :=
      triggerDeploy_cases  given force
    · rw [hr]
    · rw [hr, restrict_queue, hd, not_owns h ha (hteam.symm ▸ hj), if_neg (by decide)]

/-! A backup -/

def Tables.queueBackup (db : Tables) (s : BackupSchedule) : Tables := { db with backupJobs := db.backupJobs ++ [s] }

theorem restrict_queueBackup {s : BackupSchedule} : restrict teamId (db.queueBackup s) =
    if db.ownsDatabase teamId s.databaseId then (restrict teamId db).queueBackup s else restrict teamId db := by
  have hqueue : restrict teamId (db.queueBackup s) = { restrict teamId db with
      backupJobs := (db.backupJobs ++ [s]).filter fun s => db.ownsDatabase teamId s.databaseId } := rfl
  rw [hqueue, List.filter_append, List.filter_singleton, Bool.cond_eq_ite]
  split
  · rfl
  · rw [List.append_nil]
    rfl

/-- Either nothing is written, or the schedule of a database of the team is queued. -/
theorem triggerBackup_cases :
    (∃ r, triggerBackup teamId i db = (db, r) ∧ triggerBackup teamId i (restrict teamId db) = (restrict teamId db, r)) ∨
    ∃ d ∈ db.databases, d.teamId = teamId ∧ ∃ s r, s.databaseId = d.id ∧
      triggerBackup teamId i db = (db.queueBackup s, r) ∧
      triggerBackup teamId i (restrict teamId db) = ((restrict teamId db).queueBackup s, r) := by
  have hdatabase : ((restrict teamId db).databases.find? fun d => d.id = i ∧ d.teamId = teamId) =
      db.databases.find? fun d => d.id = i ∧ d.teamId = teamId := find?_filter_of_imp fun d _ hd => by simp_all
  rw [triggerBackup, triggerBackup, hdatabase]
  cases hd : db.databases.find? fun d => d.id = i ∧ d.teamId = teamId with
  | none => exact Or.inl ⟨_, rfl, rfl⟩
  | some d =>
      have hp := List.find?_some hd
      rw [decide_eq_true_eq] at hp
      have hmem := List.mem_of_find?_eq_some hd
      have howns : db.ownsDatabase teamId d.id = true := List.any_eq_true.2 ⟨d, hmem, by simpa using hp.2⟩
      have hschedule : ((restrict teamId db).schedules.find? fun s => s.databaseId = d.id) =
          db.schedules.find? fun s => s.databaseId = d.id := by
        apply find?_filter_of_imp
        intro s _ hs
        rw [of_decide_eq_true hs, howns]
      dsimp only
      rw [hschedule]
      cases hs : db.schedules.find? fun s => s.databaseId = d.id with
      | none => exact Or.inl ⟨_, rfl, rfl⟩
      | some s => exact Or.inr ⟨d, hmem, hp.2, s, _, by simpa using List.find?_some hs, rfl, rfl⟩

theorem triggerBackup_confined : Confined restrict Unique teamId (triggerBackup teamId i) := by
  apply Confined.of_view
  · intro db h
    obtain ⟨r, hr, -⟩ | ⟨d, -, -, s, r, -, hr, -⟩ := triggerBackup_cases 
    · rw [hr]
      exact h
    · rw [hr]
      exact ⟨h.applications, h.databases, h.tokens⟩
  · intro db h
    obtain ⟨r, hr, hr'⟩ | ⟨d, -, -, s, r, -, hr, hr'⟩ := triggerBackup_cases 
    · rw [hr, hr']
    · rw [hr, hr']
  · intro db h
    obtain ⟨r, hr, hr'⟩ | ⟨d, hd, hteam, s, r, hs, hr, hr'⟩ := triggerBackup_cases 
    · rw [hr, hr', restrict_restrict]
    · have howns : db.ownsDatabase teamId d.id = true := List.any_eq_true.2 ⟨d, hd, by simpa using hteam⟩
      rw [hr, hr', restrict_queueBackup, restrict_queueBackup, ownsDatabase_restrict, restrict_restrict, hs, howns]
  · intro db j h hj
    obtain ⟨r, hr, -⟩ | ⟨d, hd, hteam, s, r, hs, hr, -⟩ := triggerBackup_cases 
    · rw [hr]
    · rw [hr, restrict_queueBackup, hs, not_ownsDatabase h hd (hteam.symm ▸ hj), if_neg (by decide)]

/-! A move -/

section Rows

variable {α : Type} (team : α → Uuid) {p : α → Bool} (f : α → α) {rows : List α} {j : Uuid}

theorem updateWhere_filter (hteam : ∀ a, team (f a) = team a) :
    (updateWhere p f rows).1.filter (fun a => team a = j) = (updateWhere p f (rows.filter fun a => team a = j)).1 := by
  rw [updateWhere, updateWhere, List.filter_map]
  congr 2
  funext a
  rw [Function.comp_apply]
  split
  · rw [hteam]
  · rfl

theorem updateWhere_other (hteam : ∀ a, team (f a) = team a) (hp : ∀ a, p a = true → team a = teamId) (hj : j ≠ teamId) :
    (updateWhere p f rows).1.filter (fun a => team a = j) = rows.filter fun a => team a = j := by
  rw [updateWhere_filter team f hteam, updateWhere]
  conv_rhs => rw [← List.map_id (rows.filter fun a => team a = j)]
  apply List.map_congr_left
  intro a ha
  have hj' : team a = j := of_decide_eq_true (List.mem_filter.1 ha).2
  rw [if_neg fun hpa => hj (hj'.symm.trans (hp a hpa)), id]

theorem updateWhere_count (hp : ∀ a, p a = true → team a = teamId) :
    (updateWhere p f (rows.filter fun a => team a = teamId)).2 = (updateWhere p f rows).2 := by
  rw [updateWhere, updateWhere, List.countP_filter]
  apply List.countP_congr
  intro a _
  rw [Bool.and_eq_true, decide_eq_true_eq]
  exact ⟨And.left, fun h => ⟨h, hp a h⟩⟩

theorem updateWhere_map {β : Type} {g : α → β} (hg : ∀ a, g (f a) = g a) :
    (updateWhere p f rows).1.map g = rows.map g := by
  rw [updateWhere, List.map_map]
  apply List.map_congr_left
  intro a _
  rw [Function.comp_apply]
  split
  · exact hg a
  · rfl

theorem updateWhere_any {q : α → Bool} (hq : ∀ a, q (f a) = q a) : (updateWhere p f rows).1.any q = rows.any q := by
  have hmap (l : List α) : l.any q = (l.map q).any id := by rw [List.any_map, Function.id_comp]
  rw [hmap, updateWhere_map f hq, ← hmap]

end Rows

variable {kind : MovableKind} {r target j : Uuid}

theorem restrict_with_applications {rows : List Application}
    (howns : ∀ i, ({ db with applications := rows } : Tables).owns j i = db.owns j i)
    (huses : ∀ s, ({ db with applications := rows } : Tables).uses j s = db.uses j s) :
    restrict j { db with applications := rows } =
      { restrict j db with applications := rows.filter fun a => a.teamId = j } := by
  have h : ({ db with applications := rows } : Tables).uses j = db.uses j := funext huses
  rw [restrict, h]
  simp only [howns]
  rfl

theorem restrict_with_databases {rows : List Database}
    (howns : ∀ i, ({ db with databases := rows } : Tables).ownsDatabase j i = db.ownsDatabase j i) :
    restrict j { db with databases := rows } = { restrict j db with databases := rows.filter fun d => d.teamId = j } := by
  rw [restrict]
  simp only [howns]
  rfl

/-- A move touches neither the ids of the rows, nor their teams, nor the servers of the applications. -/
theorem restrict_moveRow_eq : restrict j (moveRow teamId kind r target db).1 =
    match kind with
    | .application =>
        { restrict j db with
          applications := (updateWhere (fun a => a.id = r ∧ a.teamId = teamId)
            (Application.moved target) db.applications).1.filter fun a => a.teamId = j }
    | .database =>
        { restrict j db with
          databases := (updateWhere (fun d => d.id = r ∧ d.teamId = teamId)
            (Database.moved target) db.databases).1.filter fun d => d.teamId = j }
    | .service =>
        { restrict j db with
          services := (updateWhere (fun s => s.id = r ∧ s.teamId = teamId)
            (Service.moved target) db.services).1.filter fun s => s.teamId = j } := by
  cases kind with
  | application =>
      apply restrict_with_applications
      · exact fun i => updateWhere_any (Application.moved target) fun a => rfl
      · intro s
        rw [Tables.uses, Tables.uses]
        congr 2
        rw [updateWhere_any (Application.moved target) fun a => rfl]
  | database => exact restrict_with_databases fun i => updateWhere_any (Database.moved target) fun d => rfl
  | service => rfl

theorem restrict_moveRow : restrict teamId (moveRow teamId kind r target db).1 =
    (moveRow teamId kind r target (restrict teamId db)).1 := by
  rw [restrict_moveRow_eq]
  cases kind with
  | application =>
      dsimp only
      rw [updateWhere_filter Application.teamId (Application.moved target) fun a => rfl]
      rfl
  | database =>
      dsimp only
      rw [updateWhere_filter Database.teamId (Database.moved target) fun a => rfl]
      rfl
  | service =>
      dsimp only
      rw [updateWhere_filter Service.teamId (Service.moved target) fun a => rfl]
      rfl

theorem restrict_moveRow_other (hj : j ≠ teamId) : restrict j (moveRow teamId kind r target db).1 = restrict j db := by
  rw [restrict_moveRow_eq]
  cases kind with
  | application =>
      dsimp only
      rw [updateWhere_other Application.teamId (Application.moved target) (fun a => rfl) (fun a ha => (of_decide_eq_true ha).2) hj]
      rfl
  | database =>
      dsimp only
      rw [updateWhere_other Database.teamId (Database.moved target) (fun a => rfl) (fun a ha => (of_decide_eq_true ha).2) hj]
      rfl
  | service =>
      dsimp only
      rw [updateWhere_other Service.teamId (Service.moved target) (fun a => rfl) (fun a ha => (of_decide_eq_true ha).2) hj]
      rfl

theorem moveRow_count_restrict :
    (moveRow teamId kind r target (restrict teamId db)).2 = (moveRow teamId kind r target db).2 := by
  cases kind with
  | application => exact updateWhere_count Application.teamId (Application.moved target) fun a ha => (of_decide_eq_true ha).2
  | database => exact updateWhere_count Database.teamId (Database.moved target) fun a ha => (of_decide_eq_true ha).2
  | service => exact updateWhere_count Service.teamId (Service.moved target) fun a ha => (of_decide_eq_true ha).2

theorem moveRow_unique (h : Unique db) : Unique (moveRow teamId kind r target db).1 := by
  cases kind with
  | application =>
      refine ⟨?_, h.databases, h.tokens⟩
      rw [moveRow, updateWhere_map (Application.moved target) fun a => rfl]
      exact h.applications
  | database =>
      refine ⟨h.applications, ?_, h.tokens⟩
      rw [moveRow, updateWhere_map (Database.moved target) fun a => rfl]
      exact h.databases
  | service => exact ⟨h.applications, h.databases, h.tokens⟩

/-- The environment of a move is one of a project of the team. -/
theorem environment_restrict : ((restrict teamId db).environments.find? fun e => e.id = i ∧
      ∃ p ∈ (restrict teamId db).projects, p.id = e.projectId ∧ p.teamId = teamId) =
    db.environments.find? fun e => e.id = i ∧ ∃ p ∈ db.projects, p.id = e.projectId ∧ p.teamId = teamId := by
  have hprojects (e : Environment) : (∃ p ∈ (restrict teamId db).projects, p.id = e.projectId ∧ p.teamId = teamId) ↔
      ∃ p ∈ db.projects, p.id = e.projectId ∧ p.teamId = teamId := by
    simp only [restrict, List.mem_filter, decide_eq_true_eq]
    exact ⟨fun ⟨p, hp, hid⟩ => ⟨p, hp.1, hid⟩, fun ⟨p, hp, hid⟩ => ⟨p, ⟨hp, hid.2⟩, hid⟩⟩
  simp only [hprojects]
  apply find?_filter_of_imp
  intro e _ he
  obtain ⟨-, p, hp, hid, hteam⟩ := of_decide_eq_true he
  exact List.any_eq_true.2 ⟨p, hp, by simp [hid, hteam]⟩

/-- Either nothing is written, or a row of the team is moved. -/
theorem moveResource_cases (db : Tables) (resourceId : Option Uuid) :
    (∃ a, moveResource teamId kind resourceId i db = (db, a) ∧
      moveResource teamId kind resourceId i (restrict teamId db) = (restrict teamId db, a)) ∨
    ∃ r target a, moveResource teamId kind resourceId i db = ((moveRow teamId kind r target db).1, a) ∧
      moveResource teamId kind resourceId i (restrict teamId db) =
        ((moveRow teamId kind r target (restrict teamId db)).1, a) := by
  rw [moveResource, moveResource, environment_restrict]
  split
  · exact Or.inl ⟨_, rfl, rfl⟩
  · split
    · exact Or.inl ⟨_, rfl, rfl⟩
    · dsimp only
      rw [moveRow_count_restrict]
      split
      · exact Or.inl ⟨_, rfl, rfl⟩
      · exact Or.inr ⟨_, _, _, rfl, rfl⟩

theorem moveResource_confined (resourceId : Option Uuid) :
    Confined restrict Unique teamId (moveResource teamId kind resourceId i) := by
  apply Confined.of_view
  · intro db h
    obtain ⟨a, ha, -⟩ | ⟨r, target, a, ha, -⟩ := moveResource_cases db resourceId
    · rw [ha]
      exact h
    · rw [ha]
      exact moveRow_unique h
  · intro db h
    obtain ⟨a, ha, ha'⟩ | ⟨r, target, a, ha, ha'⟩ := moveResource_cases db resourceId
    · rw [ha, ha']
    · rw [ha, ha']
  · intro db h
    obtain ⟨a, ha, ha'⟩ | ⟨r, target, a, ha, ha'⟩ := moveResource_cases db resourceId
    · rw [ha, ha', restrict_restrict]
    · rw [ha, ha', restrict_moveRow, restrict_moveRow, restrict_restrict]
  · intro db j h hj
    obtain ⟨a, ha, -⟩ | ⟨r, target, a, ha, -⟩ := moveResource_cases db resourceId
    · rw [ha]
    · rw [ha, restrict_moveRow_other hj]

end Actions

end Yeah.Tokens
