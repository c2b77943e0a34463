import Yeah.Databases.Ports
import Yeah.Deploy.Application
import Yeah.Relational
import Yeah.Tokens.Actions
import Mathlib.Logic.Function.Basic

namespace Yeah.Teams

open Databases Deploy Relational

inductive Table
  | teams
  | users
  | teamMembers
  | projects
  | environments
  | sshKeys
  | servers
  | gitSources
  | registries
  | s3Storages
  | applications
  | applicationVolumes
  | databases
  | backupSchedules
  | services
  | volumeBackups
  | sharedVariables
  | tags
  | resourceTags
  deriving DecidableEq

/-- A table and the id of a row; ids are numbers, in the order in which they are made. -/
abbrev Key := Table × Nat

/-! ### Rows, with the columns that a route reads or that refer to a row -/

structure Team where
  requireTwoFactor : Bool

structure User where
  totpEnabled : Bool

structure TeamMember where
  teamId : Nat
  userId : Nat
  role : String

/-- The row of a project, an ssh key, a git source, a registry, an S3 storage or a tag. -/
structure TeamRow where
  teamId : Nat

structure Environment where
  projectId : Nat

structure Server extends Tokens.ServerLoadSnapshot where
  teamId : Nat
  sshKeyId : Option Nat
  status : String
  proxyStatus : String
  wildcardDomain : Option String

structure Application where
  teamId : Nat
  environmentId : Nat
  serverId : Nat
  buildServerId : Option Nat
  previewOfId : Option Nat
  gitSourceId : Option Nat
  registryId : Option Nat
  registryImage : Option String
  buildPack : BuildPack
  branch : String
  githubInstallationId : Option Nat
  githubRepo : Option String
  previewEnabled : Bool
  prNumber : Option Nat
  status : ApplicationStatus

/-- `databaseId` is that of the database whose data volume a volume of kind `database` names as its `hostPath`. -/
structure ApplicationVolume where
  applicationId : Nat
  databaseId : Option Nat
  mountPath : String

structure Database where
  teamId : Nat
  environmentId : Nat
  serverId : Nat
  engine : Engine

structure BackupSchedule where
  databaseId : Nat
  storageId : Option Nat

structure Service where
  teamId : Nat
  environmentId : Nat
  serverId : Nat

inductive VolumeBackupOwner
  | application
  | service
  deriving DecidableEq

def VolumeBackupOwner.table : VolumeBackupOwner → Table
  | application => .applications
  | service => .services

/-- `volumeId` is that of an application's volume. -/
structure VolumeBackup where
  teamId : Nat
  ownerType : VolumeBackupOwner
  ownerId : Nat
  volumeId : Option Nat
  s3StorageId : Option Nat

structure SharedVariable where
  teamId : Nat
  projectId : Option Nat
  environmentId : Option Nat

inductive TaggableType
  | application
  | database
  | service
  deriving DecidableEq

def TaggableType.table : TaggableType → Table
  | application => .applications
  | database => .databases
  | service => .services

structure ResourceTag where
  tagId : Nat
  resourceType : TaggableType
  resourceId : Nat

inductive Row
  | team (r : Team)
  | user (r : User)
  | teamMember (r : TeamMember)
  | project (r : TeamRow)
  | environment (r : Environment)
  | sshKey (r : TeamRow)
  | server (r : Server)
  | gitSource (r : TeamRow)
  | registry (r : TeamRow)
  | s3Storage (r : TeamRow)
  | application (r : Application)
  | applicationVolume (r : ApplicationVolume)
  | database (r : Database)
  | backupSchedule (r : BackupSchedule)
  | service (r : Service)
  | volumeBackup (r : VolumeBackup)
  | sharedVariable (r : SharedVariable)
  | tag (r : TeamRow)
  | resourceTag (r : ResourceTag)

namespace Row

def table : Row → Table
  | team _ => .teams
  | user _ => .users
  | teamMember _ => .teamMembers
  | project _ => .projects
  | environment _ => .environments
  | sshKey _ => .sshKeys
  | server _ => .servers
  | gitSource _ => .gitSources
  | registry _ => .registries
  | s3Storage _ => .s3Storages
  | application _ => .applications
  | applicationVolume _ => .applicationVolumes
  | database _ => .databases
  | backupSchedule _ => .backupSchedules
  | service _ => .services
  | volumeBackup _ => .volumeBackups
  | sharedVariable _ => .sharedVariables
  | tag _ => .tags
  | resourceTag _ => .resourceTags

/-- `onDelete: "cascade"` -/
def cascade (table : Table) (id : Nat) : List (Key × Bool) := [((table, id), true)]

def cascadeOptional (table : Table) (id : Option Nat) : List (Key × Bool) := id.toList.map fun i => ((table, i), true)

/-- `onDelete: "set null"` -/
def setNull (table : Table) (id : Option Nat) : List (Key × Bool) := id.toList.map fun i => ((table, i), false)

def references : Row → List (Key × Bool)
  | team _ | user _ => []
  | teamMember r => cascade .teams r.teamId ++ cascade .users r.userId
  | project r | sshKey r | gitSource r | registry r | s3Storage r | tag r => cascade .teams r.teamId
  | environment r => cascade .projects r.projectId
  | server r => cascade .teams r.teamId ++ setNull .sshKeys r.sshKeyId
  | application r =>
      cascade .teams r.teamId ++ cascade .environments r.environmentId ++ cascade .servers r.serverId ++
        setNull .servers r.buildServerId ++ cascadeOptional .applications r.previewOfId ++
        setNull .gitSources r.gitSourceId ++ setNull .registries r.registryId
  | applicationVolume r => cascade .applications r.applicationId
  | database r => cascade .teams r.teamId ++ cascade .environments r.environmentId ++ cascade .servers r.serverId
  | backupSchedule r => cascade .databases r.databaseId ++ setNull .s3Storages r.storageId
  | service r => cascade .teams r.teamId ++ cascade .environments r.environmentId ++ cascade .servers r.serverId
  | volumeBackup r => cascade .teams r.teamId ++ setNull .s3Storages r.s3StorageId
  | sharedVariable r =>
      cascade .teams r.teamId ++ cascadeOptional .projects r.projectId ++ cascadeOptional .environments r.environmentId
  | resourceTag r => cascade .tags r.tagId

/-- The rows it names without a foreign key. -/
def mentions : Row → List Key
  | applicationVolume r => r.databaseId.toList.map fun i => (.databases, i)
  | volumeBackup r => (r.ownerType.table, r.ownerId) :: r.volumeId.toList.map fun i => (.applicationVolumes, i)
  | resourceTag r => [(r.resourceType.table, r.resourceId)]
  | _ => []

/-- The team of a row, in the tables where a query names the row and the team at once. -/
def teamRow : Row → Option TeamRow
  | project r | sshKey r | gitSource r | registry r | s3Storage r | tag r => some r
  | sharedVariable r => some ⟨r.teamId⟩
  | _ => none

def links (r : Row) : List Key := r.references.map (·.1) ++ r.mentions

def kept (gone : Key → Bool) (table : Table) (id : Option Nat) : Option Nat := id.filter fun i => !gone (table, i)

def clear (gone : Key → Bool) : Row → Row
  | server r => server { r with sshKeyId := kept gone .sshKeys r.sshKeyId }
  | application r =>
      application { r with
        buildServerId := kept gone .servers r.buildServerId
        gitSourceId := kept gone .gitSources r.gitSourceId
        registryId := kept gone .registries r.registryId }
  | backupSchedule r => backupSchedule { r with storageId := kept gone .s3Storages r.storageId }
  | volumeBackup r => volumeBackup { r with s3StorageId := kept gone .s3Storages r.s3StorageId }
  | r => r

variable (gone : Key → Bool)

@[simp] theorem filter_cascade (t : Table) (i : Nat) :
    (cascade t i).filter (fun e => e.2 || !gone e.1) = cascade t i := rfl

@[simp] theorem filter_cascadeOptional (t : Table) (i : Option Nat) :
    (cascadeOptional t i).filter (fun e => e.2 || !gone e.1) = cascadeOptional t i := by
  cases i <;> rfl

@[simp] theorem filter_setNull (t : Table) (i : Option Nat) :
    (setNull t i).filter (fun e => e.2 || !gone e.1) = setNull t (kept gone t i) := by
  cases i with
  | none => rfl
  | some i =>
      by_cases h : gone (t, i) = true
      · simp [setNull, kept, Option.filter, h]
      · simp [setNull, kept, Option.filter, h]

theorem references_clear (r : Row) : references (clear gone r) = (references r).filter fun e => e.2 || !gone e.1 := by
  cases r <;> simp only [references, clear, List.filter_append, filter_cascade, filter_cascadeOptional, filter_setNull,
    List.filter_nil]

theorem kept_eq {t : Table} {i : Option Nat} (h : ∀ e ∈ setNull t i, gone e.1 = false) : kept gone t i = i := by
  cases i with
  | none => rfl
  | some i =>
      have hi := h ((t, i), false) (List.mem_singleton_self _)
      simp [kept, Option.filter, hi]

theorem clear_eq (r : Row) (h : ∀ e ∈ references r, gone e.1 = false) : clear gone r = r := by
  cases r with
  | server r =>
      have hkey := kept_eq gone (t := .sshKeys) (i := r.sshKeyId) fun e he => h e (List.mem_append_right _ he)
      simp [clear, hkey]
  | application r =>
      simp only [references, List.forall_mem_append] at h
      obtain ⟨⟨⟨⟨-, hbuild⟩, -⟩, hsource⟩, hregistry⟩ := h
      simp [clear, kept_eq gone hbuild, kept_eq gone hsource, kept_eq gone hregistry]
  | backupSchedule r =>
      have hstorage := kept_eq gone (t := .s3Storages) (i := r.storageId) fun e he => h e (List.mem_append_right _ he)
      simp [clear, hstorage]
  | volumeBackup r =>
      have hstorage := kept_eq gone (t := .s3Storages) (i := r.s3StorageId) fun e he => h e (List.mem_append_right _ he)
      simp [clear, hstorage]
  | _ => rfl

end Row

def schema : Schema Key Row := ⟨Row.references, Row.clear, Row.references_clear, Row.clear_eq⟩

/-- The rows, the next id, and the team or user that every id made so far belongs to; no route reads the last. -/
structure Db where
  rows : List (Key × Row)
  next : Nat
  owner : Nat → Option Nat

namespace Db

def find (db : Db) (k : Key) : Option Row := Relational.find db.rows k

/-- The team of the row that the new one refers to first; teams and users are their own. -/
def homeOf (db : Db) (r : Row) : Option Nat :=
  match r.references with
  | [] => some db.next
  | e :: _ => db.owner e.1.2

def insert (db : Db) (r : Row) : Option Db :=
  (Relational.insert schema db.rows (r.table, db.next) r).map fun rows =>
    ⟨rows, db.next + 1, Function.update db.owner db.next (db.homeOf r)⟩

def update (db : Db) (k : Key) (f : Row → Row) : Option Db :=
  (Relational.update schema db.rows k f).map fun rows => { db with rows := rows }

def delete (db : Db) (k : Key) : Db := { db with rows := Relational.delete schema db.rows k }

def deleteWhere (db : Db) (p : Row → Bool) : Db :=
  ((db.rows.filter fun e => p e.2).map (·.1)).foldl delete db

end Db

end Yeah.Teams
