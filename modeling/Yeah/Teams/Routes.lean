import Yeah.Resumption
import Yeah.Teams.Tables

namespace Yeah.Teams

open Databases Deploy

inductive Answer
  | ok
  | refused (status : Nat) (error : String)
  | threw

abbrev Route := Resumption.Prog Db Answer

/-! ### Queries -/

def ok : Route := .answer .ok

def refuse (status : Nat) (error : String) : Route := .answer (.refused status error)

/-- What the checks of a body that read no row lead to. -/
def unlessRefused (refusal : Option (Nat × String)) (k : Route) : Route :=
  match refusal with
  | some (status, error) => refuse status error
  | none => k

def select (k : Db → Route) : Route := .await id k

/-- A statement that the database may reject. -/
def execute (f : Db → Option Db) (k : Db → Route) : Route :=
  .await (fun db => (f db).getD db) fun db => if (f db).isSome then k db else .answer .threw

def create (r : Row) (k : Nat → Route) : Route := execute (fun db => db.insert r) fun db => k db.next

/-- The rows of one `insert`. -/
def Db.insertAll (db : Db) : List Row → Option Db
  | [] => some db
  | r :: rs => (db.insert r).bind fun db => db.insertAll rs

def createAll (rs : List Row) (k : Route) : Route := execute (fun db => db.insertAll rs) fun _ => k

def change (key : Key) (f : Row → Row) (k : Route) : Route := execute (fun db => db.update key f) fun _ => k

def remove (key : Key) (k : Route) : Route := .await (fun db => db.delete key) fun _ => k

def removeWhere (p : Row → Bool) (k : Route) : Route := .await (fun db => db.deleteWhere p) fun _ => k

/-! ### Access -/

def assertMember (db : Db) (teamId userId : Nat) : Bool :=
  (db.rows.any fun e => match e.2 with
    | .teamMember m => m.teamId = teamId ∧ m.userId = userId
    | _ => false) &&
  match db.find (.teams, teamId), db.find (.users, userId) with
  | some (.team team), some (.user user) => !team.requireTwoFactor || user.totpEnabled
  | _, _ => false

/-- `user` is the user of the session, if there is a session. -/
def signedIn (user : Option Nat) (k : Nat → User → Route) : Route :=
  match user with
  | none => refuse 401 "unauthorized"
  | some userId => select fun db =>
      match db.find (.users, userId) with
      | some (.user r) => k userId r
      | _ => refuse 401 "unauthorized"

def member (user : Option Nat) (teamId : Nat) (k : Route) : Route :=
  signedIn user fun userId _ => select fun db => if assertMember db teamId userId then k else refuse 403 "forbidden"

/-- Owner or admin of the team. -/
def assertTeamAdmin (db : Db) (teamId userId : Nat) : Bool :=
  db.rows.any fun e => match e.2 with
    | .teamMember m => m.teamId = teamId ∧ m.userId = userId ∧ (m.role = "owner" ∨ m.role = "admin")
    | _ => false

def teamRowIn (db : Db) (key : Key) (teamId : Nat) : Bool :=
  ((db.find key).bind Row.teamRow).any fun r => r.teamId = teamId

def findTeamRow (key : Key) (teamId : Nat) (error : String) (k : Route) : Route :=
  select fun db => if teamRowIn db key teamId then k else refuse 404 error

def environmentInTeam (db : Db) (environmentId teamId : Nat) : Bool :=
  match db.find (.environments, environmentId) with
  | some (.environment e) => teamRowIn db (.projects, e.projectId) teamId
  | _ => false

def findEnvironment (environmentId teamId : Nat) (error : String) (k : Route) : Route :=
  select fun db => if environmentInTeam db environmentId teamId then k else refuse 404 error

def findServer (id teamId : Nat) (error : String) (k : Server → Route) : Route :=
  select fun db =>
    match db.find (.servers, id) with
    | some (.server r) => if r.teamId = teamId then k r else refuse 404 error
    | _ => refuse 404 error

structure Params where
  teamId : Nat
  projectId : Nat
  environmentId : Nat

def isEnvironmentOf (db : Db) (environmentId projectId : Nat) : Bool :=
  match db.find (.environments, environmentId) with
  | some (.environment e) => e.projectId = projectId
  | _ => false

def requireEnvironmentScope (p : Params) (k : Route) : Route :=
  select fun db =>
    if isEnvironmentOf db p.environmentId p.projectId && teamRowIn db (.projects, p.projectId) p.teamId then k
    else refuse 404 "not found"

def loadEnvironment (p : Params) (k : Route) : Route :=
  findTeamRow (.projects, p.projectId) p.teamId "environment not found" <| select fun db =>
    if isEnvironmentOf db p.environmentId p.projectId then k else refuse 404 "environment not found"

/-- A route below an environment of the team. -/
def inEnvironment (user : Option Nat) (p : Params) (k : Route) : Route :=
  requireEnvironmentScope p <| member user p.teamId k

def loadApplication (environmentId applicationId : Nat) (k : Application → Route) : Route :=
  select fun db =>
    match db.find (.applications, applicationId) with
    | some (.application r) =>
        if r.environmentId = environmentId ∧ (db.find (.servers, r.serverId)).isSome then k r
        else refuse 404 "application not found"
    | _ => refuse 404 "application not found"

def loadDatabase (environmentId databaseId : Nat) (k : Database → Route) : Route :=
  select fun db =>
    match db.find (.databases, databaseId) with
    | some (.database r) =>
        if r.environmentId = environmentId ∧ (db.find (.servers, r.serverId)).isSome then k r
        else refuse 404 "database not found"
    | _ => refuse 404 "database not found"

def loadService (environmentId serviceId : Nat) (k : Service → Route) : Route :=
  select fun db =>
    match db.find (.services, serviceId) with
    | some (.service r) =>
        if r.environmentId = environmentId ∧ (db.find (.servers, r.serverId)).isSome then k r
        else refuse 404 "service not found"
    | _ => refuse 404 "service not found"

/-! ### Teams and projects -/

def createDefaultProject (teamId : Nat) (k : Route) : Route :=
  create (.project ⟨teamId⟩) fun projectId => create (.environment ⟨projectId⟩) fun _ => k

def createTeam (userId : Nat) (k : Nat → Route) : Route :=
  create (.team ⟨false⟩) fun teamId => create (.teamMember ⟨teamId, userId, "owner"⟩) fun _ =>
    createDefaultProject teamId (k teamId)

def isUser : Row → Bool
  | .user _ => true
  | _ => false

/-- `localhost` are the columns of the machine the panel runs on, if it was set up as a server. -/
def register (localhost : Option Server) (refusal : Option (Nat × String)) : Route :=
  select fun db =>
    if db.rows.any fun e => isUser e.2 then refuse 403 "sign-up disabled — this instance already has an account"
    else unlessRefused refusal <| create (.user ⟨false⟩) fun userId => createTeam userId fun teamId =>
      match localhost with
      | none => ok
      | some columns => create (.server { columns with teamId := teamId, sshKeyId := none }) fun _ => ok

def postTeam (user : Option Nat) : Route := signedIn user fun userId _ => createTeam userId fun _ => ok

def putSecurity (user : Option Nat) (teamId : Nat) (requireTwoFactor : Bool) : Route :=
  signedIn user fun userId r => select fun db =>
    if !assertTeamAdmin db teamId userId then refuse 403 "only the team owner or an admin can change this"
    else if requireTwoFactor && !r.totpEnabled then
      refuse 400 "enable 2FA on your own account before requiring 2FA for the team"
    else
      change (.teams, teamId) (fun
        | .team _ => .team ⟨requireTwoFactor⟩
        | r => r) ok

/-- `POST /auth/2fa/enable` and `/disable`; `refusal` is that of the code or the password. -/
def setTwoFactor (user : Option Nat) (totpEnabled : Bool) (refusal : User → Option (Nat × String)) : Route :=
  signedIn user fun userId r => unlessRefused (refusal r) <|
    change (.users, userId) (fun
      | .user _ => .user ⟨totpEnabled⟩
      | r => r) ok

def postProject (user : Option Nat) (teamId : Nat) : Route := member user teamId <| createDefaultProject teamId ok

def postEnvironment (user : Option Nat) (teamId projectId : Nat) : Route :=
  member user teamId <| findTeamRow (.projects, projectId) teamId "project not found" <|
    create (.environment ⟨projectId⟩) fun _ => ok

/-! ### Rows of a team: keys, sources, registries, storages and tags -/

def postTeamRow (make : TeamRow → Row) (user : Option Nat) (teamId : Nat) (refusal : Option (Nat × String)) : Route :=
  member user teamId <| unlessRefused refusal <| create (make ⟨teamId⟩) fun _ => ok

def postSshKey : Option Nat → Nat → Option (Nat × String) → Route := postTeamRow .sshKey

def postGitSource : Option Nat → Nat → Option (Nat × String) → Route := postTeamRow .gitSource

def postRegistry : Option Nat → Nat → Option (Nat × String) → Route := postTeamRow .registry

def postStorage (user : Option Nat) (teamId : Nat) : Route := postTeamRow .s3Storage user teamId none

def postTag : Option Nat → Nat → Option (Nat × String) → Route := postTeamRow .tag

/-- One `delete` with the team among its conditions. -/
def removeTeamRow (key : Key) (teamId : Nat) (k : Route) (missing : Route) : Route :=
  .await (fun db => if teamRowIn db key teamId then db.delete key else db) fun db =>
    if teamRowIn db key teamId then k else missing

def deleteGitSource (user : Option Nat) (teamId sourceId : Nat) : Route :=
  member user teamId <| removeTeamRow (.gitSources, sourceId) teamId ok (refuse 404 "source not found")

def deleteRegistry (user : Option Nat) (teamId registryId : Nat) : Route :=
  member user teamId <| removeTeamRow (.registries, registryId) teamId ok (refuse 404 "registry not found")

def deleteStorage (user : Option Nat) (teamId storageId : Nat) : Route :=
  member user teamId <| removeTeamRow (.s3Storages, storageId) teamId ok ok

def deleteTag (user : Option Nat) (teamId tagId : Nat) : Route :=
  member user teamId <| removeTeamRow (.tags, tagId) teamId ok (refuse 404 "tag not found")

def usesKey (keyId : Nat) : Row → Bool
  | .server r => r.sshKeyId = some keyId
  | _ => false

def deleteSshKey (user : Option Nat) (teamId keyId : Nat) : Route :=
  member user teamId <| findTeamRow (.sshKeys, keyId) teamId "ssh key not found" <| select fun db =>
    let used := db.rows.countP fun e => usesKey keyId e.2
    let plural := if used > 1 then "s" else ""
    if 0 < used then refuse 409 s!"this key is used by {used} server{plural} — change their key before deleting"
    else remove (.sshKeys, keyId) ok

/-! ### Servers -/

/-- `columns` are those of the new row that refer to nothing. -/
def postServer (user : Option Nat) (teamId : Nat) (columns : Server) (hasPrivateKey : Bool) (sshKeyId : Option Nat) : Route :=
  member user teamId <|
    match sshKeyId with
    | some keyId =>
        findTeamRow (.sshKeys, keyId) teamId "ssh key not found" <|
          create (.server { columns with teamId := teamId, sshKeyId := some keyId }) fun _ => ok
    | none =>
        if hasPrivateKey then create (.server { columns with teamId := teamId, sshKeyId := none }) fun _ => ok
        else refuse 400 "informe privateKey ou sshKeyId"

/-- `created` is whether the provider created the machine. -/
def createVps (user : Option Nat) (teamId sshKeyId : Nat) (columns : Server) (created : Except String Unit) : Route :=
  member user teamId <| findTeamRow (.sshKeys, sshKeyId) teamId "ssh key not found" <|
    match created with
    | .error message => refuse 502 message
    | .ok _ => create (.server { columns with teamId := teamId, sshKeyId := some sshKeyId }) fun _ => ok

def changeServer (serverId : Nat) (columns : Server) (k : Route) : Route :=
  change (.servers, serverId) (fun
    | .server r => .server { columns with teamId := r.teamId, sshKeyId := r.sshKeyId }
    | r => r) k

/-- The routes that set columns of a server, none of which refers to a row. -/
def putServerColumns (user : Option Nat) (teamId serverId : Nat) (columns : Server) (refusal : Option (Nat × String)) :
    Route :=
  member user teamId <| findServer serverId teamId "server not found" fun _ => unlessRefused refusal <|
    changeServer serverId columns ok

def isApplicationOn (serverId : Nat) : Row → Bool
  | .application r => r.serverId = serverId
  | _ => false

def isDatabaseOn (serverId : Nat) : Row → Bool
  | .database r => r.serverId = serverId
  | _ => false

def isServiceOn (serverId : Nat) : Row → Bool
  | .service r => r.serverId = serverId
  | _ => false

def deleteServer (user : Option Nat) (teamId serverId : Nat) : Route :=
  member user teamId <| findServer serverId teamId "server not found" fun _ => select fun db =>
    let apps := db.rows.countP fun e => isApplicationOn serverId e.2
    let dbs := db.rows.countP fun e => isDatabaseOn serverId e.2
    let svcs := db.rows.countP fun e => isServiceOn serverId e.2
    if 0 < apps + dbs + svcs then
      refuse 409 s!"This server still has resources ({apps} application(s), {dbs} database(s), {svcs} service(s)). Delete or move them before removing the server."
    else remove (.servers, serverId) ok

/-! ### Applications -/

structure ApplicationBody where
  serverId : Nat
  buildPack : BuildPack
  branch : Option String
  githubRepo : Option String
  gitSourceId : Option Nat
  useDeployKey : Bool
  deployKeySshKeyId : Option Nat

/-- `installation` is the team's GitHub installation. -/
def pickInstallation (githubRepo : Option String) (installation : Option Nat) (k : Option Nat → Route) : Route :=
  match githubRepo with
  | none => k none
  | some _ =>
      match installation with
      | none => refuse 400 "no GitHub installation connected to this team"
      | some installationId => k (some installationId)

def pickGitSource (teamId : Nat) (body : ApplicationBody) (k : Route) : Route :=
  match body.gitSourceId with
  | none => k
  | some sourceId =>
      if body.githubRepo.isSome || body.useDeployKey then
        refuse 400 "choose a single source: Git source, GitHub or deploy key"
      else findTeamRow (.gitSources, sourceId) teamId "Git source not found" k

def pickDeployKey (teamId : Nat) (body : ApplicationBody) (k : Route) : Route :=
  match body.deployKeySshKeyId with
  | none => k
  | some keyId => findTeamRow (.sshKeys, keyId) teamId "ssh key not found" k

def postApplication (user : Option Nat) (p : Params) (body : ApplicationBody) (installation : Option Nat)
    (refusal : Option (Nat × String)) : Route :=
  let application (gitSourceId githubInstallationId : Option Nat) : Application :=
    { teamId := p.teamId, environmentId := p.environmentId, serverId := body.serverId, buildServerId := none,
      previewOfId := none, gitSourceId, registryId := none, registryImage := none, buildPack := body.buildPack,
      branch := body.branch.getD "main", githubInstallationId, githubRepo := body.githubRepo, previewEnabled := false,
      prNumber := none, status := .idle }
  inEnvironment user p <| loadEnvironment p <| findServer body.serverId p.teamId "server not found" fun _ =>
    if buildPackUsesGit body.buildPack then
      pickInstallation body.githubRepo installation fun githubInstallationId =>
        pickGitSource p.teamId body <| pickDeployKey p.teamId body <| unlessRefused refusal <|
          create (.application (application body.gitSourceId githubInstallationId)) fun _ => ok
    else unlessRefused refusal <| create (.application (application none none)) fun _ => ok

def changeApplication (id : Nat) (f : Application → Application) (k : Route) : Route :=
  change (.applications, id) (fun
    | .application r => .application (f r)
    | r => r) k

def onApplication (user : Option Nat) (p : Params) (id : Nat) (k : Application → Route) : Route :=
  inEnvironment user p <| loadApplication p.environmentId id k

/-- `PUT …/source`, as far as it concerns columns that a route reads. -/
def putSource (user : Option Nat) (p : Params) (id : Nat) (githubRepo : Option (Option String)) (installation : Option Nat)
    (branch : Option String) (refusal : Option (Nat × String)) : Route :=
  onApplication user p id fun app =>
    if buildPackUsesGit app.buildPack then
      pickInstallation (githubRepo.getD none) installation fun githubInstallationId => unlessRefused refusal <|
        changeApplication id (fun r =>
          { r with
            githubInstallationId := if githubRepo.isSome then githubInstallationId else r.githubInstallationId
            githubRepo := githubRepo.getD r.githubRepo
            branch := branch.getD r.branch }) ok
    else unlessRefused refusal ok

/-- `failure` is that of the teardown on the old server. -/
def putServer (user : Option Nat) (p : Params) (id serverId : Nat) (failure : Option String) (force : Bool) : Route :=
  onApplication user p id fun app =>
    if app.status = .deploying then refuse 409 "a deployment is in progress — wait for it to finish"
    else if serverId = app.serverId then refuse 400 "the application is already on that server"
    else findServer serverId p.teamId "destination server not found" fun target =>
      if target.status ≠ "connected" then refuse 409 "the destination server is not connected"
      else
        match failure, force with
        | some reason, false =>
            refuse 502 s!"could not clean up the old server ({reason}). Try again, or confirm to move anyway — the old container stays there."
        | _, _ => changeApplication id (fun r => { r with serverId := serverId, status := .idle }) ok

/-- `applicationCopyValues`, without the overrides. -/
def applicationCopyValues (app : Application) : Application :=
  { app with status := .idle, previewEnabled := false, previewOfId := none, prNumber := none }

def volumesOf (db : Db) (applicationId : Nat) : List ApplicationVolume :=
  db.rows.filterMap fun e => match e.2 with
    | .applicationVolume r => if r.applicationId = applicationId then some r else none
    | _ => none

def copyVolumes (fromId toId : Nat) (k : Route) : Route :=
  select fun db => createAll ((volumesOf db fromId).map fun v => .applicationVolume { v with applicationId := toId }) k

def clone (user : Option Nat) (p : Params) (id : Nat) (environmentId serverId : Option Nat)
    (refusal : Option (Nat × String)) : Route :=
  onApplication user p id fun app =>
    findEnvironment (environmentId.getD app.environmentId) p.teamId "destination environment not found" <|
      findServer (serverId.getD app.serverId) p.teamId "destination server not found" fun _ => unlessRefused refusal <|
        create (.application { applicationCopyValues app with
            environmentId := environmentId.getD app.environmentId, serverId := serverId.getD app.serverId }) fun copyId =>
          copyVolumes id copyId ok

def hostsPreviews (db : Db) (serverId : Nat) : Bool :=
  match db.find (.servers, serverId) with
  | some (.server r) => r.proxyStatus = "active" ∧ r.wildcardDomain.isSome
  | _ => false

def putPreview (user : Option Nat) (p : Params) (id : Nat) (enabled : Bool) : Route :=
  onApplication user p id fun app =>
    if app.previewOfId.isSome then refuse 400 "a preview cannot have previews of its own"
    else if enabled && (app.githubRepo.isNone || app.githubInstallationId.isNone) then
      refuse 400 "previews only work for applications linked to a GitHub repository (GitHub App)"
    else select fun db =>
      if enabled && !hostsPreviews db app.serverId then
        refuse 409 "each preview gets its own domain: the server needs an active proxy and a wildcard domain configured"
      else changeApplication id (fun r => { r with previewEnabled := enabled }) ok

def putRegistry (user : Option Nat) (p : Params) (id : Nat) (registryId : Option Nat) (repository : Option String)
    (refusal : Option (Nat × String)) : Route :=
  onApplication user p id fun app =>
    if app.buildPack = .dockerCompose then
      refuse 400 "Docker Compose applications do not use the panel's registry (use docker login inside the compose file)"
    else
      match registryId with
      | none => changeApplication id (fun r => { r with registryId := none, registryImage := none, buildServerId := none }) ok
      | some registryId =>
          findTeamRow (.registries, registryId) p.teamId "registry not found" <| unlessRefused refusal <|
            changeApplication id (fun r =>
              { r with
                registryId := some registryId
                registryImage := if app.buildPack = .image then none else repository }) ok

def putBuildServer (user : Option Nat) (p : Params) (id : Nat) (buildServerId : Option Nat) : Route :=
  onApplication user p id fun app =>
    match buildServerId with
    | none => changeApplication id (fun r => { r with buildServerId := none }) ok
    | some serverId =>
        if app.buildPack = .image ∨ app.buildPack = .dockerCompose then
          refuse 400 "a build server only applies to build packs that build an image from the repository (not image or docker_compose)"
        else if app.registryId.isNone || app.registryImage.isNone then
          refuse 400 "configure a registry and the image repository first (Source tab) — that is how the built image reaches the deploy server"
        else findServer serverId p.teamId "server not found" fun _ =>
          changeApplication id (fun r => { r with buildServerId := some serverId }) ok

def moveApplication (user : Option Nat) (p : Params) (id environmentId : Nat) : Route :=
  onApplication user p id fun app =>
    if environmentId = app.environmentId then refuse 400 "the application is already in that environment"
    else findEnvironment environmentId p.teamId "destination environment not found" <|
      changeApplication id (fun r => { r with environmentId := environmentId }) ok

/-- The other routes that set columns of an application, none of which refers to a row. -/
def putColumns (user : Option Nat) (p : Params) (id : Nat) (refusal : Application → Option (Nat × String)) : Route :=
  onApplication user p id fun app => unlessRefused (refusal app) <| changeApplication id (fun r => r) ok

/-- `refusal` is that of the paths or of the file's content. -/
def postVolume (user : Option Nat) (p : Params) (id : Nat) (mountPath : String) (refusal : Option (Nat × String)) : Route :=
  onApplication user p id fun _ => unlessRefused refusal <|
    create (.applicationVolume ⟨id, none, mountPath⟩) fun _ => ok

def findVolume (applicationId volumeId : Nat) (k : Route) : Route :=
  select fun db =>
    match db.find (.applicationVolumes, volumeId) with
    | some (.applicationVolume v) => if v.applicationId = applicationId then k else refuse 404 "volume not found"
    | _ => refuse 404 "volume not found"

def deleteVolume (user : Option Nat) (p : Params) (id volumeId : Nat) : Route :=
  onApplication user p id fun _ => findVolume id volumeId <| remove (.applicationVolumes, volumeId) ok

def tags (type : TaggableType) (id : Nat) : Row → Bool
  | .resourceTag r => r.resourceType = type ∧ r.resourceId = id
  | _ => false

def backups (type : VolumeBackupOwner) (id : Nat) : Row → Bool
  | .volumeBackup r => r.ownerType = type ∧ r.ownerId = id
  | _ => false

def deleteApplication (user : Option Nat) (p : Params) (id : Nat) : Route :=
  onApplication user p id fun _ => removeWhere (tags .application id) <|
    removeWhere (backups .application id) <| remove (.applications, id) ok

/-! ### Databases -/

def unlessOverloaded (now : Int) (force : Bool) (server : Server) (k : Route) : Route :=
  match Tokens.overloadReason server.toServerLoadSnapshot now, force with
  | some reason, false => refuse 409 reason
  | _, _ => k

def postDatabase (user : Option Nat) (p : Params) (serverId : Nat) (engine : Engine) (now : Int) (force : Bool)
    (refusal : Option (Nat × String)) : Route :=
  inEnvironment user p <| loadEnvironment p <| findServer serverId p.teamId "server not found" fun server =>
    unlessOverloaded now force server <| unlessRefused refusal <|
      create (.database ⟨p.teamId, p.environmentId, serverId, engine⟩) fun _ => ok

def onDatabase (user : Option Nat) (p : Params) (id : Nat) (k : Database → Route) : Route :=
  inEnvironment user p <| loadDatabase p.environmentId id k

def mounts (databaseId : Nat) : Row → Bool
  | .applicationVolume r => r.databaseId = some databaseId
  | _ => false

def mountAt (db : Db) (applicationId databaseId : Nat) : Option Nat :=
  (db.rows.find? fun e => match e.2 with
    | .applicationVolume r => r.applicationId = applicationId ∧ r.databaseId = some databaseId
    | _ => false).map (·.1.2)

def clash (db : Db) (applicationId : Nat) (mountPath : String) (existing : Option Nat) : Bool :=
  db.rows.any fun e => match e.2 with
    | .applicationVolume r => r.applicationId = applicationId ∧ r.mountPath = mountPath ∧ existing ≠ some e.1.2
    | _ => false

/-- A file-based database is mounted into an application of its environment and server. -/
def connect (user : Option Nat) (p : Params) (id applicationId : Nat) (mountPath : String)
    (refusal : Option (Nat × String)) : Route :=
  onDatabase user p id fun d =>
    if !d.engine.fileBased then
      refuse 400 "only file-based databases (SQLite) are mounted into applications — the others are reached over the network"
    else select fun db =>
      match db.find (.applications, applicationId) with
      | some (.application app) =>
          if app.environmentId ≠ p.environmentId then refuse 404 "application not found in this environment"
          else if app.serverId ≠ d.serverId then
            refuse 400 "the application runs on another server: a file can only be shared on the same server"
          else if app.buildPack = .dockerCompose then
            refuse 400 "Docker Compose applications manage their own volumes — mount the volume in the compose file instead"
          else unlessRefused refusal <| select fun db =>
            let existing := mountAt db applicationId id
            select fun db =>
              if clash db applicationId mountPath existing then
                refuse 409 s!"the application already has a volume mounted at {mountPath}: pick another mount path"
              else
                match existing with
                | some volumeId =>
                    change (.applicationVolumes, volumeId) (fun
                      | .applicationVolume v => .applicationVolume { v with mountPath := mountPath }
                      | r => r) ok
                | none => create (.applicationVolume ⟨applicationId, some id, mountPath⟩) fun _ => ok
      | _ => refuse 404 "application not found in this environment"

def deleteDatabase (user : Option Nat) (p : Params) (id : Nat) : Route :=
  onDatabase user p id fun _ => removeWhere (mounts id) <| removeWhere (tags .database id) <| remove (.databases, id) ok

def scheduleOf (db : Db) (databaseId : Nat) : Bool :=
  db.rows.any fun e => match e.2 with
    | .backupSchedule r => r.databaseId = databaseId
    | _ => false

/-- The destination, if one is asked for, is one of the team. -/
def findTeamStorage (teamId : Nat) (storageId : Option Nat) (error : String) (k : Route) : Route :=
  match storageId with
  | none => k
  | some storageId => findTeamRow (.s3Storages, storageId) teamId error k

def isValidStorageForTeam (teamId : Nat) (storageId : Option Nat) : Route → Route :=
  findTeamStorage teamId storageId "storage not found"

/-- `scheduled` is whether the scheduler took the cron expression. -/
def postBackupSchedule (user : Option Nat) (p : Params) (id : Nat) (storageId : Option Nat)
    (refusal : Database → Option (Nat × String)) (scheduled : Except String Unit) : Route :=
  onDatabase user p id fun d => unlessRefused (refusal d) <| select fun db =>
    if scheduleOf db id then refuse 409 "a backup schedule already exists — delete it before creating a new one"
    else isValidStorageForTeam p.teamId storageId <| create (.backupSchedule ⟨id, storageId⟩) fun scheduleId =>
      match scheduled with
      | .ok _ => ok
      | .error message => remove (.backupSchedules, scheduleId) <| refuse 400 s!"invalid schedule: {message}"

def findSchedule (databaseId scheduleId : Nat) (k : BackupSchedule → Route) : Route :=
  select fun db =>
    match db.find (.backupSchedules, scheduleId) with
    | some (.backupSchedule r) => if r.databaseId = databaseId then k r else refuse 404 "backup schedule not found"
    | _ => refuse 404 "backup schedule not found"

/-- `storageId` is absent, null or a destination. -/
def putBackupSchedule (user : Option Nat) (p : Params) (id scheduleId : Nat) (storageId : Option (Option Nat))
    (refusal : Option (Nat × String)) : Route :=
  onDatabase user p id fun _ => findSchedule id scheduleId fun existing =>
    let nextStorageId := storageId.getD existing.storageId
    isValidStorageForTeam p.teamId nextStorageId <| unlessRefused refusal <|
      change (.backupSchedules, scheduleId) (fun
        | .backupSchedule r => .backupSchedule { r with storageId := nextStorageId }
        | r => r) ok

def deleteBackupSchedule (user : Option Nat) (p : Params) (id scheduleId : Nat) : Route :=
  onDatabase user p id fun _ => findSchedule id scheduleId fun _ => remove (.backupSchedules, scheduleId) ok

/-! ### Services -/

def postService (user : Option Nat) (p : Params) (serverId : Nat) (now : Int) (force : Bool)
    (refusal : Option (Nat × String)) : Route :=
  inEnvironment user p <| loadEnvironment p <| unlessRefused refusal <|
    findServer serverId p.teamId "server not found" fun server => unlessOverloaded now force server <|
      create (.service ⟨p.teamId, p.environmentId, serverId⟩) fun _ => ok

def onService (user : Option Nat) (p : Params) (id : Nat) (k : Service → Route) : Route :=
  inEnvironment user p <| loadService p.environmentId id k

def deleteService (user : Option Nat) (p : Params) (id : Nat) : Route :=
  onService user p id fun _ => removeWhere (tags .service id) <| removeWhere (backups .service id) <|
    remove (.services, id) ok

/-! ### Volume backups -/

/-- `refusal` is that of the volume's last backup still being under way. -/
def postVolumeBackup (user : Option Nat) (p : Params) (id volumeId : Nat) (storageId : Option Nat)
    (refusal : Option (Nat × String)) : Route :=
  onApplication user p id fun app =>
    if app.buildPack = .dockerCompose then refuse 400 "Docker Compose applications manage their own volumes"
    else findVolume id volumeId <| unlessRefused refusal <|
      findTeamStorage app.teamId storageId "S3 destination not found" <|
        create (.volumeBackup ⟨app.teamId, .application, id, some volumeId, storageId⟩) fun _ => ok

/-- `refusal` is that of the stack not having the volume, or of an operation on it still being under way. -/
def postServiceVolumeBackup (user : Option Nat) (p : Params) (id : Nat) (storageId : Option Nat)
    (refusal : Option (Nat × String)) : Route :=
  onService user p id fun service => unlessRefused refusal <|
    findTeamStorage service.teamId storageId "S3 destination not found" <|
      create (.volumeBackup ⟨service.teamId, .service, id, none, storageId⟩) fun _ => ok

def findVolumeBackup (p : VolumeBackup → Bool) (backupId : Nat) (error : String) (k : VolumeBackup → Route) : Route :=
  select fun db =>
    match db.find (.volumeBackups, backupId) with
    | some (.volumeBackup r) => if p r then k r else refuse 404 error
    | _ => refuse 404 error

/-- A route below an application asks for the owner's id alone. -/
def isBackupOf (id : Nat) (r : VolumeBackup) : Bool := r.ownerId = id

def isServiceBackupOf (id : Nat) (r : VolumeBackup) : Bool := r.ownerType = .service ∧ r.ownerId = id

def restoreVolumeBackup (user : Option Nat) (p : Params) (id backupId : Nat) (refusal : Option (Nat × String)) : Route :=
  onApplication user p id fun app =>
    findVolumeBackup (isBackupOf id) backupId "backup not found (or did not finish successfully)" fun source =>
      unlessRefused refusal <|
        create (.volumeBackup ⟨app.teamId, .application, id, source.volumeId, none⟩) fun _ => ok

def restoreServiceVolumeBackup (user : Option Nat) (p : Params) (id backupId : Nat) (refusal : Option (Nat × String)) :
    Route :=
  onService user p id fun service =>
    findVolumeBackup (isServiceBackupOf id) backupId "backup not found (or did not finish successfully)" fun _ =>
      unlessRefused refusal <| create (.volumeBackup ⟨service.teamId, .service, id, none, none⟩) fun _ => ok

def deleteVolumeBackup (user : Option Nat) (p : Params) (id backupId : Nat) : Route :=
  onApplication user p id fun _ => findVolumeBackup (isBackupOf id) backupId "backup not found" fun _ =>
    remove (.volumeBackups, backupId) ok

def deleteServiceVolumeBackup (user : Option Nat) (p : Params) (id backupId : Nat) : Route :=
  onService user p id fun _ => findVolumeBackup (isServiceBackupOf id) backupId "backup not found" fun _ =>
    remove (.volumeBackups, backupId) ok

/-! ### Shared variables and tags -/

inductive VariableScope
  | team
  | project (projectId : Nat)
  | environment (environmentId : Nat)

def postSharedVariable (user : Option Nat) (teamId : Nat) (scope : VariableScope) (refusal : Option (Nat × String)) : Route :=
  member user teamId <| unlessRefused refusal <|
    match scope with
    | .team => create (.sharedVariable ⟨teamId, none, none⟩) fun _ => ok
    | .project projectId =>
        findTeamRow (.projects, projectId) teamId "project not found" <|
          create (.sharedVariable ⟨teamId, some projectId, none⟩) fun _ => ok
    | .environment environmentId =>
        findEnvironment environmentId teamId "environment not found" <|
          create (.sharedVariable ⟨teamId, none, some environmentId⟩) fun _ => ok

def deleteSharedVariable (user : Option Nat) (teamId variableId : Nat) : Route :=
  member user teamId <| removeTeamRow (.sharedVariables, variableId) teamId ok (refuse 404 "variable not found")

def resourceBelongsToTeam (db : Db) (type : TaggableType) (id teamId : Nat) : Bool :=
  match db.find (type.table, id) with
  | some (.application r) => r.teamId = teamId
  | some (.database r) => r.teamId = teamId
  | some (.service r) => r.teamId = teamId
  | _ => false

def tagsAmong (type : TaggableType) (id : Nat) (teamTagIds : List Nat) : Row → Bool
  | .resourceTag r => r.resourceType = type ∧ r.resourceId = id ∧ r.tagId ∈ teamTagIds
  | _ => false

def tagIdsOf (db : Db) (teamId : Nat) : List Nat :=
  db.rows.filterMap fun e => match e.2 with
    | .tag r => if r.teamId = teamId then some e.1.2 else none
    | _ => none

/-- The three columns are the primary key. -/
def isTagged (db : Db) (type : TaggableType) (id tagId : Nat) : Bool :=
  db.rows.any fun e => tagsAmong type id [tagId] e.2

def assignTags (user : Option Nat) (teamId : Nat) (type : TaggableType) (resourceId : Nat) (tagIds : List Nat) : Route :=
  member user teamId <| select fun db =>
    if !resourceBelongsToTeam db type resourceId teamId then refuse 404 "resource not found"
    else select fun db =>
      let wanted := tagIds.eraseDups
      if !wanted.all fun tagId => teamRowIn db (.tags, tagId) teamId then refuse 400 "invalid tag"
      else select fun db =>
        removeWhere (tagsAmong type resourceId (tagIdsOf db teamId)) <|
          execute (fun db =>
            if wanted.any fun tagId => isTagged db type resourceId tagId then none
            else db.insertAll (wanted.map fun tagId => .resourceTag ⟨tagId, type, resourceId⟩)) fun _ => ok

/-! ### Without a session -/

/-- What the jobs write back about a server or an application. -/
def serverJob (serverId : Nat) (columns : Server) : Route := changeServer serverId columns ok

def applicationJob (id : Nat) (status : ApplicationStatus) : Route := changeApplication id (fun r => { r with status := status }) ok

/-- The columns of `moveResource`'s `update`, on a row that its condition on the team holds of. -/
def moveTo (teamId environmentId : Nat) : Row → Row
  | .application r => .application (if r.teamId = teamId then { r with environmentId := environmentId } else r)
  | .database r => .database (if r.teamId = teamId then { r with environmentId := environmentId } else r)
  | .service r => .service (if r.teamId = teamId then { r with environmentId := environmentId } else r)
  | r => r

def moveResource (teamId : Nat) (kind : TaggableType) (resourceId targetEnvironmentId : Nat) : Route :=
  findEnvironment targetEnvironmentId teamId "environment not found" <|
    change (kind.table, resourceId) (moveTo teamId targetEnvironmentId) ok

structure PullRequestEvent where
  closed : Bool
  number : Nat
  headRef : String
  baseRef : String
  repo : String
  installationId : Option Nat
  fromFork : Bool

def PullRequestEvent.parents (pr : PullRequestEvent) (db : Db) : List (Nat × Application) :=
  db.rows.filterMap fun e => match e.2 with
    | .application r =>
        if r.githubInstallationId = pr.installationId ∧ r.githubRepo = some pr.repo ∧ r.branch = pr.baseRef ∧
          r.previewEnabled = true then some (e.1.2, r) else none
    | _ => none

def PullRequestEvent.existing (pr : PullRequestEvent) (db : Db) (parentId : Nat) : Option Nat :=
  (db.rows.find? fun e => match e.2 with
    | .application r => r.previewOfId = some parentId ∧ r.prNumber = some pr.number
    | _ => false).map (·.1.2)

def applyToParent (pr : PullRequestEvent) (parentId : Nat) (parent : Application) (k : Route) : Route :=
  select fun db =>
    let existing := pr.existing db parentId
    select fun db =>
      match pr.closed, existing with
      | true, none => k
      | true, some previewId => remove (.applications, previewId) k
      | false, some previewId =>
          if hostsPreviews db parent.serverId then changeApplication previewId (fun r => { r with branch := pr.headRef }) k
          else k
      | false, none =>
          if hostsPreviews db parent.serverId then
            create (.application { applicationCopyValues parent with
                branch := pr.headRef, previewOfId := some parentId, prNumber := some pr.number }) fun previewId =>
              copyVolumes parentId previewId k
          else k

def handleParents (pr : PullRequestEvent) : List (Nat × Application) → Route
  | [] => ok
  | (parentId, parent) :: rest => applyToParent pr parentId parent (handleParents pr rest)

def handlePullRequestEvent (pr : PullRequestEvent) : Route :=
  if pr.fromFork || pr.installationId.isNone then ok else select fun db => handleParents pr (pr.parents db)

end Yeah.Teams
