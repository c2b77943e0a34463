import Yeah.Compose.Routed
import Yeah.Runs

namespace Yeah.Compose.Rows

open Proxy Runs Text

/-- A value of a YAML document, as far as the compose file's checks tell values apart. -/
inductive Doc
  | text (s : String)
  | object (fields : List (String × Doc))
  | other

def Doc.get (key : String) : Doc → Option Doc
  | .object fields => (fields.find? fun e => e.1 = key).map (·.2)
  | _ => none

def MAX_COMPOSE_BYTES : Nat := 200000

section Parse

variable (parseYaml : String → Except String Doc)

def checkService (name : String) (service : Doc) : Except String Unit :=
  if isValidComposeService name = false then .error ("invalid service name: " ++ name)
  else
    match service with
    | .object _ =>
        if (service.get "build").isSome then
          .error ("service " ++ name ++ " uses \"build\": only \"image\" is supported here (there is no source code to build)")
        else
          match service.get "image" with
          | some (.text image) => if trim image = "" then .error ("service " ++ name ++ " needs an \"image\"") else .ok ()
          | _ => .error ("service " ++ name ++ " needs an \"image\"")
    | _ => .error ("service " ++ name ++ " must be an object")

def parseComposeStack (content : String) : Except String (List (String × Doc)) :=
  if utf16Length content = 0 then .error "the compose file is empty"
  else if utf16Length content > MAX_COMPOSE_BYTES then .error "the compose file is too large (maximum 200 KB)"
  else
    match parseYaml content with
    | .error message => .error ("Invalid YAML: " ++ message)
    | .ok doc =>
        match doc with
        | .object _ =>
            match doc.get "services" with
            | some (.object (service :: services)) => ((service :: services).forM fun e => checkService e.1 e.2).map fun _ => service :: services
            | _ => .error "the compose file needs at least one service under \"services\""
        | _ => .error "the compose file must be a YAML object with a \"services\" key"

def serviceNames (content : Option String) : List String :=
  match content with
  | none => []
  | some text =>
      match parseComposeStack parseYaml text with
      | .error _ => []
      | .ok services => services.map (·.1)

end Parse

/-- The columns of a service that name services of its compose file, and those that its maintenance reads. -/
structure Service where
  composeContent : Option String
  domain : Option String
  domains : List StackDomain
  mainService : Option String
  maintenanceMode : Bool
  maintenanceContainers : List String

/-! ### Requests -/

/-- A template: its main service is one of its compose file's. -/
structure Template (parseYaml : String → Except String Doc) where
  compose : String
  mainService : String
  port : Nat
  main_mem : mainService ∈ serviceNames parseYaml (some compose)

inductive Source (parseYaml : String → Except String Doc)
  | catalog
  | template (t : Template parseYaml)
  | compose (content : String) (port : Nat)

/-- The body of a request for a stack; for the domains also who else uses a host. -/
inductive Request
  | compose (content : String)
  | domains (domains : List StackDomain) (claimed : String → Option String)
  | maintenance (enabled : Bool) (containers : List String)

/-- The columns that a request sets. -/
inductive Update
  | compose (content : String) (domains : List StackDomain) (mainService : Option String)
  | domains (domains : List StackDomain)
  | maintenance (enabled : Bool) (containers : List String)

/-- Drops names that are not compose services of the stack. -/
def sanitizeMaintenanceContainers (containers stackServices : List String) : List String :=
  (containers.filter fun c => c ∈ stackServices).eraseDups

structure ServiceMaintenanceInput where
  domain : Option String
  domains : List StackDomain
  containers : List String
  isStack : Bool

/-- The hosts that are put into maintenance; no containers are all containers. -/
def serviceMaintenanceHosts (input : ServiceMaintenanceInput) : List String :=
  if input.isStack then ((input.domains.filter fun d => input.containers = [] ∨ d.service ∈ input.containers).map (·.domain)).eraseDups
  else input.domain.toList

section Routes

variable (parseYaml : String → Except String Doc) (lower : String → String)

/-- A new service; `candidate` is the host that a stack gets where the server has a wildcard. -/
def createService (source : Source parseYaml) (candidate : Option String) : Except String Service :=
  match source with
  | .catalog => .ok ⟨none, none, [], none, false, []⟩
  | .template t => .ok ⟨some t.compose, none, candidate.toList.map fun host => ⟨t.mainService, host, t.port⟩, some t.mainService, false, []⟩
  | .compose content port =>
      (parseComposeStack parseYaml content).map fun services =>
        let first := services.head?.map (·.1)
        ⟨some content, none, first.toList.flatMap fun name => candidate.toList.map fun host => ⟨name, host, port⟩, first, false, []⟩

def request (row : Service) : Request → Except String Update
  | .compose content =>
      if row.composeContent = none then .error "this is a single-container service (legacy catalog) and has no compose file"
      else
        (parseComposeStack parseYaml content).map fun services =>
          let names := services.map (·.1)
          let kept := row.mainService.filter fun main => main ≠ "" ∧ main ∈ names
          .compose content (row.domains.filter fun d => d.service ∈ names) (kept.orElse fun _ => names.head?)
  | .domains domains claimed =>
      if row.composeContent = none then .error "per-container domains only exist for stacks — use the General tab for this service"
      else
        let domains := domains.map fun d => { d with domain := normalizeHost lower d.domain }
        match validateStackDomains lower domains (serviceNames parseYaml row.composeContent) with
        | some invalid => .error invalid
        | none =>
            match domains.findSome? fun d => (claimed d.domain).map fun owner => "the domain " ++
              d.domain ++ " is already used by " ++ owner with
            | some error => .error error
            | none => .ok (.domains domains)
  | .maintenance enabled containers =>
      .ok (.maintenance enabled (sanitizeMaintenanceContainers containers (serviceNames parseYaml row.composeContent)))

def Update.set (row : Service) : Update → Service
  | .compose content ds mainService => { row with composeContent := some content, domains := ds, mainService := mainService }
  | .domains ds => { row with domains := ds }
  | .maintenance enabled containers => { row with maintenanceMode := enabled, maintenanceContainers := containers }

/-- A row, and the requests that have read it and are about to write. -/
structure State where
  row : Service
  pending : List Update

inductive Action
  | read (r : Request)
  | write (i : Nat)

def step (s : State) : Action → State
  | .read r =>
      match request parseYaml lower s.row r with
      | .error _ => s
      | .ok u => { s with pending := s.pending ++ [u] }
  | .write i =>
      match s.pending[i]? with
      | none => s
      | some u => ⟨u.set s.row, s.pending.eraseIdx i⟩

/-- The services that the row names are in its compose text. -/
structure Consistent (row : Service) : Prop where
  domains : ∀ d ∈ row.domains, d.service ∈ serviceNames parseYaml row.composeContent
  main : ∀ main ∈ row.mainService, main ∈ serviceNames parseYaml row.composeContent
  containers : ∀ c ∈ row.maintenanceContainers, c ∈ serviceNames parseYaml row.composeContent

/-- What is written names services of the compose text that is there by then: that of the row, or the one written. -/
def Calm (s : State) : Action → Prop
  | .read _ => True
  | .write i =>
      ∀ u, s.pending[i]? = some u →
        match u with
        | .compose content _ _ => ∀ c ∈ s.row.maintenanceContainers, c ∈ serviceNames parseYaml (some content)
        | .domains ds => ∀ d ∈ ds, d.service ∈ serviceNames parseYaml s.row.composeContent
        | .maintenance _ containers => ∀ c ∈ containers, c ∈ serviceNames parseYaml s.row.composeContent

/-- A compose text comes with domains and a main service of its own. -/
def Update.Own : Update → Prop
  | .compose content ds mainService =>
      (∀ d ∈ ds, d.service ∈ serviceNames parseYaml (some content)) ∧
          ∀ main ∈ mainService, main ∈ serviceNames parseYaml (some content)
  | _ => True

variable {parseYaml}

theorem serviceNames_of_parse {content : String} {services : List (String × Doc)}
    (h : parseComposeStack parseYaml content = .ok services) :
    serviceNames parseYaml (some content) = services.map (·.1) := by
  rw [serviceNames, h]

theorem map_eq_ok {ε α β : Type} {x : Except ε α} {f : α → β} {b : β} (h : x.map f = .ok b) :
    ∃ a, x = .ok a ∧ f a = b := by
  cases x with
  | error e => cases h
  | ok a => exact ⟨a, rfl, Except.ok.inj h⟩

theorem own_request {row : Service} {r : Request} {u : Update} (h : request parseYaml lower row r = .ok u) :
    u.Own parseYaml := by
  cases r with
  | compose content =>
      rw [request] at h
      split_ifs at h
      obtain ⟨services, hparse, rfl⟩ := map_eq_ok h
      rw [Update.Own, serviceNames_of_parse hparse]
      refine ⟨fun d hd => by simpa using (List.mem_filter.1 hd).2, fun main hmain => ?_⟩
      rcases hkept : row.mainService.filter fun main => main ≠ "" ∧
        main ∈ services.map (·.1) with - | kept
      · rw [hkept] at hmain
        exact List.mem_of_head? hmain
      · rw [hkept] at hmain
        obtain rfl := Option.some.inj hmain
        have := (Option.filter_eq_some_iff.1 hkept).2
        simp only [decide_eq_true_eq] at this
        exact this.2
  | domains domains claimed =>
      simp only [request] at h
      repeat' split at h
      all_goals cases h
      trivial
  | maintenance enabled containers =>
      obtain rfl := Except.ok.inj h
      trivial

theorem own_step {s : State} (h : ∀ u ∈ s.pending, u.Own parseYaml) (a : Action) :
    ∀ u ∈ (step parseYaml lower s a).pending, u.Own parseYaml := by
  cases a with
  | read r =>
      rw [step]
      split
      · exact h
      · next u hu =>
          intro v hv
          rcases List.mem_append.1 hv with hv | hv
          · exact h v hv
          · rw [List.mem_singleton.1 hv]
            exact own_request lower hu
  | write i =>
      rw [step]
      split
      · exact h
      · exact fun v hv => h v (List.mem_of_mem_eraseIdx hv)

theorem consistent_step_iff {s : State} (ho : ∀ u ∈ s.pending, u.Own parseYaml)
    (h : Consistent parseYaml s.row) (a : Action) :
    Consistent parseYaml (step parseYaml lower s a).row ↔ Calm parseYaml s a := by
  cases a with
  | read r =>
      rw [step]
      split <;> exact iff_of_true h trivial
  | write i =>
      rw [step, Calm]
      cases hi : s.pending[i]? with
      | none => simp [h]
      | some u =>
          simp only [Option.some.injEq, forall_eq']
          cases u with
          | compose content domains mainService =>
              obtain ⟨hd, hm⟩ := ho _ (List.mem_of_getElem? hi)
              exact ⟨fun hc => hc.containers, fun hc => ⟨hd, hm, hc⟩⟩
          | domains domains => exact ⟨fun hc => hc.domains, fun hc => ⟨hc, h.main, h.containers⟩⟩
          | maintenance enabled containers => exact ⟨fun hc => hc.containers, fun hc => ⟨h.domains, h.main, hc⟩⟩

theorem consistent_create {source : Source parseYaml} {candidate : Option String} {row : Service}
    (h : createService parseYaml source candidate = .ok row) : Consistent parseYaml row := by
  cases source with
  | catalog =>
      obtain rfl := Except.ok.inj h
      exact ⟨nofun, nofun, nofun⟩
  | template t =>
      obtain rfl := Except.ok.inj h
      refine ⟨fun d hd => ?_, fun main hmain => ?_, nofun⟩
      · obtain ⟨host, -, rfl⟩ := List.mem_map.1 hd
        exact t.main_mem
      · obtain rfl := Option.some.inj hmain
        exact t.main_mem
  | compose content port =>
      obtain ⟨services, hparse, rfl⟩ := map_eq_ok h
      have hfirst : ∀ name, services.head?.map (·.1) = some name →
        name ∈ serviceNames parseYaml (some content) := by
        intro name hname
        rw [serviceNames_of_parse hparse]
        obtain ⟨e, he, rfl⟩ := Option.map_eq_some_iff.1 hname
        exact List.mem_map_of_mem (List.mem_of_head? he)
      refine ⟨fun d hd => ?_, hfirst, nofun⟩
      obtain ⟨name, hname, hd⟩ := List.mem_flatMap.1 hd
      obtain ⟨host, -, rfl⟩ := List.mem_map.1 hd
      exact hfirst name (Option.mem_toList.1 hname)

/-- In a consistent row a domain is in maintenance, or other services of the compose file were chosen for it. -/
theorem Consistent.replaces {row : Service} (h : Consistent parseYaml row) (domain : Option String)
    {d : StackDomain} (hd : d ∈ row.domains) :
    d.domain ∈ serviceMaintenanceHosts ⟨domain, row.domains, row.maintenanceContainers, row.composeContent.isSome⟩ ∨
      ∃ c ∈ row.maintenanceContainers, c ≠ d.service ∧ c ∈ serviceNames parseYaml row.composeContent := by
  have hstack : row.composeContent.isSome = true := by
    by_contra hnone
    have := h.domains d hd
    rw [Option.not_isSome_iff_eq_none.1 hnone] at this
    cases this
  rw [serviceMaintenanceHosts, if_pos hstack]
  by_cases hin : row.maintenanceContainers = [] ∨ d.service ∈ row.maintenanceContainers
  · left
    rw [List.mem_eraseDups]
    exact List.mem_map_of_mem (List.mem_filter.2 ⟨hd, decide_eq_true hin⟩)
  · right
    rw [not_or] at hin
    obtain ⟨c, hc⟩ := List.exists_mem_of_ne_nil _ hin.1
    exact ⟨c, hc, fun he => hin.2 (he ▸ hc), h.containers c hc⟩

end Routes

section Instances

def fileOf (name : String) : String := "services:\n  " ++ name ++ ":\n    image: nginx\n"

/-- A parser that knows the compose files of one service, `web` or `app`. -/
def parseFile (text : String) : Except String Doc :=
  let doc (name : String) : Doc :=
    .object [("services", .object [(name, .object [("image", .text "nginx")])])]
  if text = fileOf "web" then .ok (doc "web")
  else if text = fileOf "app" then .ok (doc "app")
  else .error "syntax error"

def webRow : Service := ⟨some (fileOf "web"), none, [⟨"web", "a.example.com", 80⟩], some "web", false, []⟩

theorem create_webRow : createService parseFile (.compose (fileOf "web") 80) (some "a.example.com") = .ok webRow := by
  rfl

end Instances

end Yeah.Compose.Rows
