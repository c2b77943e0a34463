import Yeah.Databases.Restores
import Yeah.Databases.Tool
import Yeah.Deploy.Application
import Yeah.Noninterference
import Yeah.Provision.Service
import Yeah.Text.Uuid

namespace Yeah.Tokens

open Text Databases

/-! ### Rows -/

structure Application where
  id : Uuid
  teamId : Uuid
  environmentId : Uuid
  serverId : Uuid
  name : String
  status : Deploy.ApplicationStatus
  domain : Option String
  branch : String
  previewOfId : Option Uuid
  prNumber : Option Nat
  createdAt : Int
  deriving DecidableEq

structure Deployment where
  id : Uuid
  applicationId : Uuid
  status : Restores.Status
  createdAt : Int
  finishedAt : Option Int
  deriving DecidableEq

structure Database where
  id : Uuid
  teamId : Uuid
  environmentId : Uuid
  name : String
  engine : Engine
  status : Restores.DatabaseStatus

structure Service where
  id : Uuid
  teamId : Uuid
  environmentId : Uuid
  name : String
  status : Provision.Status

/-- What a server's row says of its load. -/
structure ServerLoadSnapshot where
  name : String
  memPercent : Option Nat
  diskPercent : Option Nat
  metricsCheckedAt : Option Int

structure Server extends ServerLoadSnapshot where
  id : Uuid
  teamId : Uuid
  host : String
  status : String
  proxyStatus : String

structure Project where
  id : Uuid
  teamId : Uuid
  name : String

structure Environment where
  id : Uuid
  projectId : Uuid
  name : String

structure BackupSchedule where
  id : Uuid
  databaseId : Uuid

structure Storage where
  id : Uuid
  teamId : Uuid
  name : String
  bucket : String
  region : String
  endpoint : Option String

structure Channel where
  id : Uuid
  teamId : Uuid
  name : String
  type : String

structure ScheduledTask where
  id : Uuid
  applicationId : Uuid
  name : String
  cron : String
  enabled : Bool

inductive Permission
  | read
  | full
  deriving DecidableEq

structure ApiToken where
  id : Uuid
  teamId : Uuid
  name : String
  tokenHash : String
  permission : Permission
  expiresAt : Option Int
  allowedIps : Option String
  lastUsedAt : Option Int

structure Team where
  id : Uuid
  mcpEnabled : Bool

structure AuditEvent where
  teamId : Uuid
  actor : String
  action : String
  level : String
  resourceType : String
  resourceId : Option String
  ip : Option String
  method : String
  path : String

/-- The tables, and the queues with the rows that their jobs name. -/
structure Tables where
  tokens : List ApiToken
  teams : List Team
  applications : List Application
  deployments : List Deployment
  databases : List Database
  schedules : List BackupSchedule
  services : List Service
  servers : List Server
  projects : List Project
  environments : List Environment
  storages : List Storage
  channels : List Channel
  tasks : List ScheduledTask
  deployJobs : List Deployment
  backupJobs : List BackupSchedule
  audit : List AuditEvent

/-! ### The actions -/

inductive ActionResult (α : Type)
  | ok (value : α)
  | error (status : Nat) (error : String) (code : Option String)

def listApplications (teamId : Uuid) (db : Tables) :
    List (Uuid × String × Deploy.ApplicationStatus × Option String × Uuid) :=
  (db.applications.filter fun a => a.teamId = teamId).map fun a => (a.id, a.name, a.status, a.domain, a.serverId)

def listDatabases (teamId : Uuid) (db : Tables) : List (Uuid × String × Engine × Restores.DatabaseStatus) :=
  (db.databases.filter fun d => d.teamId = teamId).map fun d => (d.id, d.name, d.engine, d.status)

def listServices (teamId : Uuid) (db : Tables) : List (Uuid × String × Provision.Status) :=
  (db.services.filter fun s => s.teamId = teamId).map fun s => (s.id, s.name, s.status)

def listServers (teamId : Uuid) (db : Tables) : List (Uuid × String × String × String × String) :=
  (db.servers.filter fun s => s.teamId = teamId).map fun s => (s.id, s.name, s.host, s.status, s.proxyStatus)

def listStorages (teamId : Uuid) (db : Tables) : List (Uuid × String × String × String × Option String) :=
  (db.storages.filter fun s => s.teamId = teamId).map fun s => (s.id, s.name, s.bucket, s.region, s.endpoint)

def listNotificationChannels (teamId : Uuid) (db : Tables) : List (Uuid × String × String) :=
  (db.channels.filter fun c => c.teamId = teamId).map fun c => (c.id, c.name, c.type)

def listProjects (teamId : Uuid) (db : Tables) : List (Uuid × String × List (Uuid × String)) :=
  let projectRows := db.projects.filter fun p => p.teamId = teamId
  let envRows := db.environments.filter fun e => e.projectId ∈ projectRows.map Project.id
  projectRows.map fun p => (p.id, p.name, (envRows.filter fun e => e.projectId = p.id).map fun e => (e.id, e.name))

/-- The inner join with the applications. -/
def listScheduledTasks (teamId : Uuid) (db : Tables) : List (Uuid × String × String × Bool × Uuid) :=
  db.tasks.flatMap fun t =>
    (db.applications.filter fun a => a.id = t.applicationId ∧ a.teamId = teamId).map fun _ =>
      (t.id, t.name, t.cron, t.enabled, t.applicationId)

/-- The newest rows first. -/
def newest {α : Type} (createdAt : α → Int) (rows : List α) : List α :=
  rows.mergeSort fun a b => createdAt b ≤ createdAt a

def findApplication (teamId applicationId : Uuid) (db : Tables) : Option Application :=
  db.applications.find? fun a => a.id = applicationId ∧ a.teamId = teamId

def Deployment.dto (d : Deployment) : Uuid × Restores.Status × Int × Option Int :=
  (d.id, d.status, d.createdAt, d.finishedAt)

def Application.preview (a : Application) :
    Uuid × String × Option Nat × String × Option String × Deploy.ApplicationStatus × Int :=
  (a.id, a.name, a.prNumber, a.branch, a.domain, a.status, a.createdAt)

def latestDeployments (applicationId : Uuid) (limit : Nat) (db : Tables) :
    List (Uuid × Restores.Status × Int × Option Int) :=
  ((newest Deployment.createdAt (db.deployments.filter fun d => d.applicationId = applicationId)).take limit).map
    Deployment.dto

def listDeployments (teamId applicationId : Uuid) (db : Tables) :
    ActionResult (List (Uuid × Restores.Status × Int × Option Int)) :=
  match findApplication teamId applicationId db with
  | none => .error 404 "application not found" none
  | some _ => .ok (latestDeployments applicationId 10 db)

def listPreviews (teamId applicationId : Uuid) (db : Tables) :
    ActionResult (List (Uuid × String × Option Nat × String × Option String × Deploy.ApplicationStatus × Int)) :=
  match findApplication teamId applicationId db with
  | none => .error 404 "application not found" none
  | some _ => .ok ((newest Application.createdAt
      (db.applications.filter fun a => a.previewOfId = some applicationId ∧ a.teamId = teamId)).map Application.preview)

def getPreview (teamId applicationId previewId : Uuid) (db : Tables) :
    ActionResult ((Uuid × String × Option Nat × String × Option String × Deploy.ApplicationStatus × Int) ×
      List (Uuid × Restores.Status × Int × Option Int)) :=
  match db.applications.find? fun a => a.id = previewId ∧ a.previewOfId = some applicationId ∧ a.teamId = teamId with
  | none => .error 404 "preview not found" none
  | some preview => .ok (preview.preview, latestDeployments previewId 5 db)

def overloadReason (server : ServerLoadSnapshot) (now : Int) : Option String :=
  match server.metricsCheckedAt with
  | none => none
  | some checked =>
      if now - checked > 10 * 60000 then none
      else
        let problems :=
          (server.diskPercent.filter (95 ≤ ·)).toList.map (fun n => s!"disk at {n}%") ++
            (server.memPercent.filter (95 ≤ ·)).toList.map fun n => s!"memory at {n}%"
        if problems = [] then none
        else
          some ("Server \"" ++ server.name ++ "\" is at " ++ " and ".intercalate problems ++
            " — the build/provisioning will probably fail. Free up space/memory first, or confirm to try anyway.")

/-- What the database and the clock give to a request. -/
structure Given where
  now : Int
  /-- The id of a row that is inserted; an insert may return none. -/
  inserted : Option Uuid

def triggerDeploy (given : Given) (teamId applicationId : Uuid) (force : Bool) (db : Tables) :
    Tables × ActionResult Uuid :=
  match findApplication teamId applicationId db with
  | none => (db, .error 404 "application not found" none)
  | some application =>
      let overload := (db.servers.find? fun s => s.id = application.serverId).bind fun s => overloadReason s.toServerLoadSnapshot given.now
      match overload, force with
      | some reason, false => (db, .error 409 reason (some "server_overloaded"))
      | _, _ =>
          match given.inserted with
          | none => (db, .error 500 "failed to create deployment" none)
          | some id =>
              let deployment : Deployment := ⟨id, application.id, .queued, given.now, none⟩
              ({ db with
                  deployments := db.deployments ++ [deployment]
                  deployJobs := db.deployJobs ++ [deployment] }, .ok id)

def triggerBackup (teamId databaseId : Uuid) (db : Tables) : Tables × ActionResult Unit :=
  match db.databases.find? fun d => d.id = databaseId ∧ d.teamId = teamId with
  | none => (db, .error 404 "database not found" none)
  | some database =>
      match db.schedules.find? fun s => s.databaseId = database.id with
      | none => (db, .error 404 "this database has no backup schedule — create one in the panel before triggering from here" none)
      | some schedule => ({ db with backupJobs := db.backupJobs ++ [schedule] }, .ok ())

inductive MovableKind
  | application
  | database
  | service

def MovableKind.text : MovableKind → String
  | .application => "application"
  | .database => "database"
  | .service => "service"

/-- `update … where id and teamId … returning`: the rows, and how many of them were changed. -/
def updateWhere {α : Type} (p : α → Bool) (f : α → α) (rows : List α) : List α × Nat :=
  (rows.map fun a => if p a then f a else a, rows.countP p)

def Application.moved (target : Uuid) (a : Application) : Application := { a with environmentId := target }

def Database.moved (target : Uuid) (d : Database) : Database := { d with environmentId := target }

def Service.moved (target : Uuid) (s : Service) : Service := { s with environmentId := target }

/-- The update of a move, and how many rows it has found. -/
def moveRow (teamId : Uuid) (kind : MovableKind) (resourceId target : Uuid) (db : Tables) : Tables × Nat :=
  match kind with
  | .application =>
      let updated := updateWhere (fun a => a.id = resourceId ∧ a.teamId = teamId)
        (Application.moved target) db.applications
      ({ db with applications := updated.1 }, updated.2)
  | .database =>
      let updated := updateWhere (fun d => d.id = resourceId ∧ d.teamId = teamId)
        (Database.moved target) db.databases
      ({ db with databases := updated.1 }, updated.2)
  | .service =>
      let updated := updateWhere (fun s => s.id = resourceId ∧ s.teamId = teamId)
        (Service.moved target) db.services
      ({ db with services := updated.1 }, updated.2)

/-- A text that is no id is refused by the database: it is looked up only once the environment is found. -/
def moveResource (teamId : Uuid) (kind : MovableKind) (resourceId : Option Uuid) (targetEnvironmentId : Uuid)
    (db : Tables) : Tables × Option (ActionResult Uuid) :=
  match db.environments.find? fun e => e.id = targetEnvironmentId ∧
      ∃ p ∈ db.projects, p.id = e.projectId ∧ p.teamId = teamId with
  | none => (db, some (.error 404 "environment not found" none))
  | some target =>
      match resourceId with
      | none => (db, none)
      | some resourceId =>
          let (moved, updated) := moveRow teamId kind resourceId target.id db
          if updated = 0 then (db, some (.error 404 (kind.text ++ " not found") none))
          else (moved, some (.ok target.id))

end Yeah.Tokens
