import Yeah.Accounts.IpAllowlist
import Yeah.Text.Space
import Yeah.Tokens.Mcp

namespace Yeah.Tokens

open Text Databases Noninterference Keyed

/-! ### Requests -/

inductive Call
  | applications
  | databases
  | services
  | servers
  | projects
  | storages
  | notificationChannels
  | scheduledTasks
  | deployments (applicationId : String)
  | previews (applicationId : String)
  | preview (applicationId previewId : String)
  | deploy (applicationId : String) (force : Option String)
  | backup (databaseId : String)
  | moveResource (kind : MovableKind) (resourceId targetEnvironmentId : String)
  | mcp (req : RpcRequest)

/-- A request under a team's path, `ip` being what `clientIp` makes of its headers. -/
structure Request where
  teamId : String
  authorization : Option String
  ip : String
  path : String
  given : Given
  call : Call

inductive Response
  | ok (content : Content)
  | refused (status : Nat) (error : String) (code : Option String)
  | rpc (r : RpcResponse)
  | accepted
  | failed

def ActionResult.map {α β : Type} (f : α → β) : ActionResult α → ActionResult β
  | .ok value => .ok (f value)
  | .error status message code => .error status message code

def Response.ofResult : Option (ActionResult Content) → Response
  | none => .failed
  | some (.ok content) => .ok content
  | some (.error status error code) => .refused status error code

def Response.ofMcp : McpOutcome → Response
  | .response r => .rpc r
  | .notification => .accepted
  | .failed => .failed

section Api

variable (sha256 : String → String) (parse : String → Option Uuid)

def hashApiToken (token : String) : String := sha256 token

def bearer (authorizationHeader : Option String) : Option String :=
  match authorizationHeader with
  | none => none
  | some header =>
      if "Bearer ".toList.isPrefixOf header.toList then
        let raw := trim (String.ofList (header.toList.drop "Bearer ".length))
        if raw = "" then none else some raw
      else none

def ApiToken.used (id : Uuid) (now : Int) (t : ApiToken) : ApiToken :=
  if t.id = id then { t with lastUsedAt := some now } else t

def resolveApiToken (authorizationHeader : Option String) (now : Int) (db : Tables) : Tables × Option ApiToken :=
  match bearer authorizationHeader with
  | none => (db, none)
  | some raw =>
      match db.tokens.find? fun t => t.tokenHash = hashApiToken sha256 raw with
      | none => (db, none)
      | some token =>
          if token.expiresAt.any (· < now) then (db, none)
          else ({ db with tokens := db.tokens.map (ApiToken.used token.id now) }, some token)

/-- The token's team is compared only once the token has been marked as used. -/
def derive (request : Request) (db : Tables) : Tables × Except (Nat × String) ApiToken :=
  match resolveApiToken sha256 request.authorization request.given.now db with
  | (db, none) => (db, .error (401, "unauthorized"))
  | (db, some token) =>
      if token.teamId.text ≠ request.teamId then (db, .error (401, "unauthorized"))
      else if Accounts.ipAllowed request.ip token.allowedIps then (db, .ok token)
      else (db, .error (403, "IP not allowed for this token"))

/-- The database refuses a text that is no id. -/
def withId {ρ : Type} (text : String) (f : Uuid → Tables → Tables × ρ) : Tables → Tables × Option ρ :=
  match parse text with
  | none => answer none
  | some id => mapAnswer some (f id)

def apiTokenActor (name : String) : String :=
  if name = "" then "API token" else String.ofList (("API token: " ++ name).toList.take 255)

def recordTokenAction (token : ApiToken) (request : Request) (action resourceType resourceId : String) (db : Tables) :
    Tables :=
  { db with audit := db.audit ++ [⟨token.teamId, apiTokenActor token.name, action, "info", resourceType,
      some resourceId, some request.ip, "POST", String.ofList (request.path.toList.take 512)⟩] }

/-- A tool that writes, and the audit row of its success. -/
def recorded (token : ApiToken) (request : Request) (action resourceType resourceId : String)
    (f : Tables → Tables × Option (ActionResult Content)) : Tables → Tables × Option (ActionResult Content) :=
  andThen f fun result =>
    match result with
    | some (.ok value) => fun db => (recordTokenAction token request action resourceType resourceId db, some (.ok value))
    | result => answer result

def mcpOps (token : ApiToken) (request : Request) : McpOps where
  listApplications db := .applications (listApplications token.teamId db)
  listDatabases db := .databases (listDatabases token.teamId db)
  listServices db := .services (listServices token.teamId db)
  listDeployments id db := (parse id).map fun id => (listDeployments token.teamId id db).map .deployments
  deploy id force := recorded token request "Started a deployment (MCP)" "application" id
    (withId parse id fun id => mapAnswer (ActionResult.map .deploymentId) (triggerDeploy request.given token.teamId id force))
  backup id := recorded token request "Ran a backup (MCP)" "database" id
    (withId parse id fun id => mapAnswer (ActionResult.map fun _ => .queued) (triggerBackup token.teamId id))

/-- The calls that write ask for a token that may. -/
def writing (token : ApiToken) (f : Tables → Tables × Response) : Tables → Tables × Response :=
  if token.permission ≠ .full then answer (.refused 403 "this token is read-only" none) else f

/-- A listing that looks for its resource first. -/
def lookup (text : String) (f : Uuid → Tables → ActionResult Content) : Tables → Tables × Response :=
  mapAnswer Response.ofResult (withId parse text fun id => query (f id))

def serve (token : ApiToken) (request : Request) : Tables → Tables × Response :=
  match request.call with
  | .applications => query fun db => .ok (.applications (listApplications token.teamId db))
  | .databases => query fun db => .ok (.databases (listDatabases token.teamId db))
  | .services => query fun db => .ok (.services (listServices token.teamId db))
  | .servers => query fun db => .ok (.servers (listServers token.teamId db))
  | .projects => query fun db => .ok (.projects (listProjects token.teamId db))
  | .storages => query fun db => .ok (.storages (listStorages token.teamId db))
  | .notificationChannels => query fun db => .ok (.notificationChannels (listNotificationChannels token.teamId db))
  | .scheduledTasks => query fun db => .ok (.scheduledTasks (listScheduledTasks token.teamId db))
  | .deployments applicationId =>
      lookup parse applicationId fun id db => (listDeployments token.teamId id db).map .deployments
  | .previews applicationId => lookup parse applicationId fun id db => (listPreviews token.teamId id db).map .previews
  | .preview applicationId previewId =>
      match parse applicationId with
      | none => answer .failed
      | some applicationId =>
          lookup parse previewId fun id db => (getPreview token.teamId applicationId id db).map .preview
  | .deploy applicationId force =>
      writing token (mapAnswer Response.ofResult (withId parse applicationId fun id =>
        mapAnswer (ActionResult.map .deploymentId) (triggerDeploy request.given token.teamId id (force = some "true"))))
  | .backup databaseId =>
      writing token (mapAnswer Response.ofResult (withId parse databaseId fun id =>
        mapAnswer (ActionResult.map fun _ => .queued) (triggerBackup token.teamId id)))
  | .moveResource kind resourceId targetEnvironmentId =>
      writing token (match parse targetEnvironmentId with
        | none => answer .failed
        | some target =>
            mapAnswer (fun result => Response.ofResult (result.map (ActionResult.map .environmentId)))
              (moveResource token.teamId kind (parse resourceId) target))
  | .mcp req =>
      andThen (query fun db => (db.teams.find? fun t => t.id = token.teamId).any Team.mcpEnabled) fun enabled =>
        if enabled then
          mapAnswer Response.ofMcp (handleMcp req (mcpOps parse token request) (token.permission ≠ .full))
        else answer (.refused 403 "the MCP server is turned off for this team" none)

def handle (request : Request) : Tables → Tables × Response :=
  andThen (derive sha256 request) fun ci =>
    match ci with
    | .error (status, error) => answer (.refused status error none)
    | .ok token => serve parse token request

end Api

end Yeah.Tokens
