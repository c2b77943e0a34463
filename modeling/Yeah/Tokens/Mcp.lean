import Yeah.Tokens.View

namespace Yeah.Tokens

open Text Databases Noninterference

/-! ### The protocol -/

/-- What a member of a parsed body may be; `other` is a value that is shown as this text. -/
inductive Value
  | null
  | string (s : String)
  | bool (b : Bool)
  | other (shown : String)
  deriving DecidableEq

/-- `String(value)`, where a missing member is undefined. -/
def Value.shown : Option Value → String
  | none => "undefined"
  | some .null => "null"
  | some (.string s) => s
  | some (.bool b) => if b then "true" else "false"
  | some (.other shown) => shown

inductive RpcId
  | null
  | string (s : String)
  | number (n : Int)

/-- A request, with the members of `params` that are read. -/
structure RpcRequest where
  jsonrpc : Option String
  id : RpcId
  method : Option String
  name : Option Value
  uri : Option Value
  arguments : List (String × Value)

def PROTOCOL_VERSION : String := "2025-03-26"

inductive ToolName
  | listApplications
  | listDatabases
  | listServices
  | listDeployments
  | deployApplication
  | backupDatabase
  deriving DecidableEq

def ToolName.text : ToolName → String
  | .listApplications => "list_applications"
  | .listDatabases => "list_databases"
  | .listServices => "list_services"
  | .listDeployments => "list_deployments"
  | .deployApplication => "deploy_application"
  | .backupDatabase => "backup_database"

structure Tool where
  name : ToolName
  description : String
  write : Bool
  props : List (String × String)
  required : List String

def TOOLS : List Tool :=
  [⟨.listApplications, "Lists the team's applications.", false, [], []⟩,
    ⟨.listDatabases, "Lists the team's databases.", false, [], []⟩,
    ⟨.listServices, "Lists the team's services.", false, [], []⟩,
    ⟨.listDeployments, "Last 10 deployments of an application (status and dates, without the build log).", false,
      [("applicationId", "string")], ["applicationId"]⟩,
    ⟨.deployApplication, "Queues a deployment. Only available with a write token.", true,
      [("applicationId", "string"), ("force", "boolean")], ["applicationId"]⟩,
    ⟨.backupDatabase, "Triggers a manual backup. Only available with a write token.", true,
      [("databaseId", "string")], ["databaseId"]⟩]

structure Resource where
  uri : String
  name : String
  mimeType : String

def RESOURCES : List Resource :=
  [⟨"yeah://applications", "Applications", "application/json"⟩, ⟨"yeah://databases", "Databases", "application/json"⟩,
    ⟨"yeah://services", "Services", "application/json"⟩]

/-- Name, description, and the arguments with their descriptions and whether they are required. -/
structure Prompt where
  name : String
  description : String
  arguments : List (String × String × Bool)

def PROMPTS : List Prompt :=
  [⟨"debug_deploy", "Helps investigate a failed deployment.", [("applicationId", "Application id", true)]⟩]

/-- The rows that a request is answered with. -/
inductive Content
  | applications (rows : List (Uuid × String × Deploy.ApplicationStatus × Option String × Uuid))
  | databases (rows : List (Uuid × String × Engine × Restores.DatabaseStatus))
  | services (rows : List (Uuid × String × Provision.Status))
  | servers (rows : List (Uuid × String × String × String × String))
  | projects (rows : List (Uuid × String × List (Uuid × String)))
  | storages (rows : List (Uuid × String × String × String × Option String))
  | notificationChannels (rows : List (Uuid × String × String))
  | scheduledTasks (rows : List (Uuid × String × String × Bool × Uuid))
  | deployments (rows : List (Uuid × Restores.Status × Int × Option Int))
  | previews (rows : List (Uuid × String × Option Nat × String × Option String × Deploy.ApplicationStatus × Int))
  | preview (row : (Uuid × String × Option Nat × String × Option String × Deploy.ApplicationStatus × Int) ×
      List (Uuid × Restores.Status × Int × Option Int))
  | deploymentId (id : Uuid)
  | queued
  | environmentId (id : Uuid)

/-- A text as it is, or the JSON of some rows. -/
inductive ToolText
  | plain (s : String)
  | json (c : Content)

inductive McpResult
  | initialized (protocolVersion name version : String)
  | pong
  | tools (tools : List Tool)
  | text (value : ToolText) (isError : Bool)
  | resources (resources : List Resource)
  | contents (uri : String) (c : Content)
  | prompts (prompts : List Prompt)
  | messages (text : String)

inductive RpcResponse
  | ok (id : RpcId) (result : McpResult)
  | error (id : RpcId) (code : Int) (message : String)

/-- No response to a notification; none at all where the database refuses a query. -/
inductive McpOutcome
  | response (r : RpcResponse)
  | notification
  | failed

def McpOutcome.ok (id : RpcId) (result : McpResult) : McpOutcome := .response (.ok id result)

def rpcError (id : RpcId) (code : Int) (message : String) : McpOutcome := .response (.error id code message)

/-- What the endpoint can do; no result where the database refuses the id. -/
structure McpOps where
  listApplications : Tables → Content
  listDatabases : Tables → Content
  listServices : Tables → Content
  listDeployments : String → Tables → Option (ActionResult Content)
  deploy : String → Bool → Tables → Tables × Option (ActionResult Content)
  backup : String → Tables → Tables × Option (ActionResult Content)

def answer {ρ : Type} (a : ρ) (db : Tables) : Tables × ρ := (db, a)

def query {ρ : Type} (q : Tables → ρ) (db : Tables) : Tables × ρ := (db, q db)

/-- The argument, or the empty text where it is no text. -/
def RpcRequest.str (req : RpcRequest) (key : String) : String :=
  match req.arguments.lookup key with
  | some (.string s) => s
  | _ => ""

def RpcRequest.isTrue (req : RpcRequest) (key : String) : Bool :=
  match req.arguments.lookup key with
  | some (.bool b) => b
  | _ => false

/-- The reply with the result of an action. -/
def fromResult (id : RpcId) : Option (ActionResult Content) → McpOutcome
  | none => .failed
  | some (.ok value) => .ok id (.text (.json value) false)
  | some (.error _ error _) => .ok id (.text (.plain error) true)

def runTool (req : RpcRequest) (ops : McpOps) : ToolName → Tables → Tables × McpOutcome
  | .listApplications => query fun db => .ok req.id (.text (.json (ops.listApplications db)) false)
  | .listDatabases => query fun db => .ok req.id (.text (.json (ops.listDatabases db)) false)
  | .listServices => query fun db => .ok req.id (.text (.json (ops.listServices db)) false)
  | .listDeployments => query fun db => fromResult req.id (ops.listDeployments (req.str "applicationId") db)
  | .deployApplication => mapAnswer (fromResult req.id) (ops.deploy (req.str "applicationId") (req.isTrue "force"))
  | .backupDatabase => mapAnswer (fromResult req.id) (ops.backup (req.str "databaseId"))

def callTool (req : RpcRequest) (ops : McpOps) (readOnly : Bool) : Tables → Tables × McpOutcome :=
  match TOOLS.find? fun t => req.name = some (.string t.name.text) with
  | none => answer (rpcError req.id (-32602) ("unknown tool: " ++ Value.shown req.name))
  | some tool =>
      if tool.write && readOnly then answer (.ok req.id (.text (.plain "this token is read-only") true))
      else
        match tool.required.find? fun key => req.str key = "" with
        | some key => answer (.ok req.id (.text (.plain ("required argument: " ++ key)) true))
        | none => runTool req ops tool.name

def readResource (req : RpcRequest) (ops : McpOps) : Tables → Tables × McpOutcome :=
  let uri := Value.shown req.uri
  match uri with
  | "yeah://applications" => query fun db => .ok req.id (.contents uri (ops.listApplications db))
  | "yeah://databases" => query fun db => .ok req.id (.contents uri (ops.listDatabases db))
  | "yeah://services" => query fun db => .ok req.id (.contents uri (ops.listServices db))
  | _ => answer (rpcError req.id (-32602) ("unknown resource: " ++ uri))

def debugDeploy (applicationId : String) : String :=
  "Investigate the recent deployments of application " ++ applicationId ++ ": use list_deployments to see the history, compare the status of the latest deployments, and use list_applications to check the current state. Summarize what failed and suggest next steps. You have no access to build logs here — ask the user to paste the relevant excerpt if needed."

def getPrompt (req : RpcRequest) : McpOutcome :=
  match req.name with
  | some (.string "debug_deploy") =>
      let applicationId :=
        match req.arguments.lookup "applicationId" with
        | none | some .null => ""
        | some value => Value.shown (some value)
      .ok req.id (.messages (debugDeploy applicationId))
  | name => rpcError req.id (-32602) ("prompt desconhecido: " ++ Value.shown name)

/-- `readOnly` hides and rejects the tools that write. -/
def handleMcp (req : RpcRequest) (ops : McpOps) (readOnly : Bool) : Tables → Tables × McpOutcome :=
  let method := req.method.getD ""
  if req.jsonrpc ≠ some "2.0" ∨ method = "" then answer (rpcError req.id (-32600) "invalid request")
  else if "notifications/".toList.isPrefixOf method.toList then answer .notification
  else
    match method with
    | "initialize" => answer (.ok req.id (.initialized PROTOCOL_VERSION "yeah" "1.0.0"))
    | "ping" => answer (.ok req.id .pong)
    | "tools/list" => answer (.ok req.id (.tools (TOOLS.filter fun t => !readOnly || !t.write)))
    | "tools/call" => callTool req ops readOnly
    | "resources/list" => answer (.ok req.id (.resources RESOURCES))
    | "resources/read" => readResource req ops
    | "prompts/list" => answer (.ok req.id (.prompts PROMPTS))
    | "prompts/get" => answer (getPrompt req)
    | _ => answer (rpcError req.id (-32601) ("unknown method: " ++ method))

/-! ### What a request comes to -/

section

variable {teamId : Uuid} {req : RpcRequest} {ops : McpOps} {readOnly : Bool}

def ToolName.writes : ToolName → Bool
  | .deployApplication | .backupDatabase => true
  | _ => false

theorem writes_eq : ∀ t ∈ TOOLS, t.name.writes = t.write := by decide

/-- A tool that writes is not run for a token that may only read. -/
theorem callTool_cases {P : (Tables → Tables × McpOutcome) → Prop} (hanswer : ∀ a, P (answer a))
    (htool : ∀ name : ToolName, (readOnly = true → name.writes = false) → P (runTool req ops name)) :
    P (callTool req ops readOnly) := by
  rw [callTool]
  split
  next => exact hanswer _
  next tool hfind =>
    split
    next => exact hanswer _
    next hwrite =>
      split
      next => exact hanswer _
      next =>
        apply htool
        rintro rfl
        rw [writes_eq tool (List.mem_of_find?_eq_some hfind)]
        rw [Bool.and_true] at hwrite
        exact Bool.eq_false_iff.2 hwrite

theorem readResource_cases {P : (Tables → Tables × McpOutcome) → Prop} (hanswer : ∀ a, P (answer a))
    (hquery : ∀ q ∈ [ops.listApplications, ops.listDatabases, ops.listServices], ∀ uri,
      P (query fun db => .ok req.id (.contents uri (q db)))) : P (readResource req ops) := by
  rw [readResource]
  split
  · exact hquery _ (by simp) _
  · exact hquery _ (by simp) _
  · exact hquery _ (by simp) _
  · exact hanswer _

theorem handleMcp_cases {P : (Tables → Tables × McpOutcome) → Prop} (hanswer : ∀ a, P (answer a))
    (htool : ∀ name : ToolName, (readOnly = true → name.writes = false) → P (runTool req ops name))
    (hquery : ∀ q ∈ [ops.listApplications, ops.listDatabases, ops.listServices], ∀ uri,
      P (query fun db => .ok req.id (.contents uri (q db)))) : P (handleMcp req ops readOnly) := by
  rw [handleMcp]
  split
  · exact hanswer _
  · split
    · exact hanswer _
    · split
      case _ => exact hanswer _
      case _ => exact hanswer _
      case _ => exact hanswer _
      case _ => exact callTool_cases hanswer htool
      case _ => exact hanswer _
      case _ => exact readResource_cases hanswer hquery
      case _ => exact hanswer _
      case _ => exact hanswer _
      case _ => exact hanswer _

/-! What it shows of the team, and what it does to the others -/

/-- What the endpoint is given stays within the team. -/
structure McpOps.Within (teamId : Uuid) (ops : McpOps) : Prop where
  listApplications : ∀ db, ops.listApplications (restrict teamId db) = ops.listApplications db
  listDatabases : ∀ db, ops.listDatabases (restrict teamId db) = ops.listDatabases db
  listServices : ∀ db, ops.listServices (restrict teamId db) = ops.listServices db
  listDeployments : ∀ id db, ops.listDeployments id (restrict teamId db) = ops.listDeployments id db
  deploy : ∀ id force, Confined restrict Unique teamId (ops.deploy id force)
  backup : ∀ id, Confined restrict Unique teamId (ops.backup id)

theorem answer_confined {ρ : Type} (a : ρ) : Confined restrict Unique teamId (answer a) := Confined.pure a

theorem query_confined {ρ : Type} {q : Tables → ρ} (h : ∀ db, q (restrict teamId db) = q db) :
    Confined restrict Unique teamId (query q) := confined_read h

theorem runTool_confined (h : ops.Within teamId) (name : ToolName) :
    Confined restrict Unique teamId (runTool req ops name) := by
  cases name with
  | listApplications =>
      apply query_confined
      intro db
      rw [h.listApplications]
  | listDatabases =>
      apply query_confined
      intro db
      rw [h.listDatabases]
  | listServices =>
      apply query_confined
      intro db
      rw [h.listServices]
  | listDeployments =>
      apply query_confined
      intro db
      rw [h.listDeployments]
  | deployApplication => exact (h.deploy _ _).mapAnswer _
  | backupDatabase => exact (h.backup _).mapAnswer _

theorem handleMcp_confined (h : ops.Within teamId) : Confined restrict Unique teamId (handleMcp req ops readOnly) := by
  apply handleMcp_cases answer_confined fun name _ => runTool_confined h name
  intro q hq uri
  apply query_confined
  intro db
  rw [List.mem_cons, List.mem_cons, List.mem_singleton] at hq
  obtain rfl | rfl | rfl := hq
  · rw [h.listApplications]
  · rw [h.listDatabases]
  · rw [h.listServices]

/-! With a token that may only read -/

/-- A step that writes nothing. -/
def ReadsOnly {ρ : Type} (f : Tables → Tables × ρ) : Prop := ∀ db, (f db).1 = db

theorem answer_reads {ρ : Type} (a : ρ) : ReadsOnly (answer a) := fun _ => rfl

theorem query_reads {ρ : Type} (q : Tables → ρ) : ReadsOnly (query q) := fun _ => rfl

theorem runTool_reads {name : ToolName} (h : name.writes = false) : ReadsOnly (runTool req ops name) := by
  cases name with
  | deployApplication | backupDatabase => cases h
  | _ => exact query_reads _

theorem handleMcp_reads : ReadsOnly (handleMcp req ops true) :=
  handleMcp_cases answer_reads (fun _ hwrites => runTool_reads (hwrites rfl)) fun _ _ _ => query_reads _

end

end Yeah.Tokens
