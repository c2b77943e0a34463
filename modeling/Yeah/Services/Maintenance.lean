import Yeah.Compose.Routed
import Yeah.Digits
import Yeah.Sorting
import Yeah.Waker.Maintenance

namespace Yeah.Services.Maintenance

open Text Proxy Yaml Compose

def WAKER_CONTAINER_NAME : String := "yeah-waker"

def WAKER_PORT : Nat := 8080

/-! ### The files -/

def serviceMaintenanceName (serviceId : Uuid) : String := "yeah-svc-" ++ serviceId.text ++ "-maint"

/-- `domain` is that of a service without a compose file; the domains are those of the containers of a stack. -/
structure ServiceMaintenanceInput where
  domain : Option String
  domains : List StackDomain
  containers : List String
  isStack : Bool

def serviceMaintenanceHosts (input : ServiceMaintenanceInput) : List String :=
  if input.isStack = false then (input.domain.filter fun d => d ≠ "").toList
  else ((input.domains.filter fun d => input.containers = [] ∨ d.service ∈ input.containers).map (·.domain)).eraseDups

def sanitizeMaintenanceContainers (containers stackServices : List String) : List String :=
  (containers.filter (· ∈ stackServices)).eraseDups

def wakerBackendUrl : String := "http://" ++ WAKER_CONTAINER_NAME ++ ":" ++ WAKER_PORT.repr

def serviceMaintenanceDynamicConfig (serviceId : Uuid) (hosts : List String) : Option String :=
  match hosts with
  | [] => none
  | host :: rest =>
      some (traefikDynamicConfig (serviceMaintenanceName serviceId) (computeRouting host rest .none) WAKER_PORT
        ⟨some wakerBackendUrl, none⟩)

/-- The columns of a service; `domain` is what `resolveDomain` makes of it and its server. -/
structure Service where
  id : Uuid
  domain : Option String
  domains : List StackDomain
  isStack : Bool
  maintenanceMode : Bool
  maintenanceMessage : Option String
  maintenanceContainers : List String

/-- The router's file and the waker's entry, of which `Waker.Cfg` are the members. -/
structure MaintenanceFiles where
  dynamicYaml : String
  wake : Waker.Cfg

def serviceMaintenanceFiles (service : Service) : Option MaintenanceFiles :=
  if service.maintenanceMode = false then none
  else
    let hosts := serviceMaintenanceHosts
      ⟨service.domain, service.domains, service.maintenanceContainers, service.isStack⟩
    (serviceMaintenanceDynamicConfig service.id hosts).map fun dynamicYaml =>
      ⟨dynamicYaml, serviceMaintenanceName service.id, hosts, 80, 0, some (service.maintenanceMessage.getD "")⟩

/-- The proxy's directories on a server: the routers' files and the waker's entries, by their names without extension. -/
structure ProxyDir where
  dynamic : String → Option String
  wake : String → Option Waker.Cfg

/-- Both files are written, or both are removed. -/
def applyServiceMaintenance (service : Service) (dir : ProxyDir) : ProxyDir :=
  let name := serviceMaintenanceName service.id
  let files := serviceMaintenanceFiles service
  ⟨Function.update dir.dynamic name (files.map (·.dynamicYaml)), Function.update dir.wake name (files.map (·.wake))⟩

/-! ### How Traefik chooses -/

/-- The hosts of a rule stand between backquotes. -/
def oddParts : List (List Char) → List String
  | _ :: host :: rest => String.ofList host :: oddParts rest
  | _ => []

def ruleHosts (rule : String) : List String := oddParts (rule.toList.splitOn '\x60')

inductive Provider
  | docker (service : String)
  | file
  deriving DecidableEq

/-- A router that Traefik has loaded; one without a priority is ranked by the length of its rule. -/
structure Route where
  provider : Provider
  name : String
  rule : String
  priority : Option Nat
  /-- Where it forwards to, if its service is known. -/
  url : Option String

def Route.rank (r : Route) : Nat := r.priority.getD r.rule.length

def Route.answers (r : Route) (host : String) : Prop := host ∈ ruleHosts r.rule

/-- The router of the highest rank takes the request. -/
structure Takes (routes : Route → Prop) (host : String) (r : Route) : Prop where
  loaded : routes r
  answers : r.answers host
  first : ∀ q, routes q → q.answers host → q = r ∨ q.rank < r.rank

def digitsValue (s : String) : Nat := Digits.number 10 (s.toList.map fun c => c.toNat - 48)

/-- The routers of the containers' labels. -/
def dockerRoutes (labels : String → List Entry) (r : Route) : Prop :=
  ∃ s router, r.provider = .docker s ∧ labelRouter (labels s) r.name = some router ∧ router.rule = some r.rule ∧
    r.priority = (lookup (labels s) ["traefik", "http", "routers", r.name, "priority"]).map digitsValue ∧
    r.url = router.service.bind (labelService s (labels s))

def filePriority (t : Node) (name : String) : Option Nat :=
  match ((((t.get "http").bind (·.get "routers")).bind (·.get name)).bind (·.get "priority")).bind Node.value with
  | some (.other s) => some (digitsValue s)
  | _ => none

/-- The routers of a file, which is left aside where it is no YAML. -/
def fileRoutes (text : Option String) (r : Route) : Prop :=
  ∃ yaml t router, text = some yaml ∧ parse yaml.toList = some t ∧ r.provider = .file ∧
    (fromFile t).router r.name = some router ∧ router.rule = some r.rule ∧ r.priority = filePriority t r.name ∧
    r.url = router.service.bind (fromFile t).service

/-! ### Rules -/

theorem oddParts_ruleOf {hosts : List String} (h : ∀ host ∈ hosts, '\x60' ∉ host.toList) {p : List Char}
    (hp : '\x60' ∉ p) : oddParts ((p ++ (ruleOf hosts).toList).splitOn '\x60') = hosts := by
  induction hosts generalizing p with
  | nil =>
      have htext : p ++ (ruleOf []).toList = p := List.append_nil p
      rw [htext, List.splitOn_eq_singleton hp]
      rfl
  | cons host hosts ih =>
      have hhost := h host List.mem_cons_self
      have hopen : '\x60' ∉ p ++ "Host(".toList := by simp [hp]
      obtain ⟨q, hq, htext⟩ : ∃ q : List Char, '\x60' ∉ q ∧ p ++ (ruleOf (host :: hosts)).toList =
          (p ++ "Host(".toList) ++ '\x60' :: (host.toList ++ '\x60' :: (q ++ (ruleOf hosts).toList)) := by
        cases hosts with
        | nil => exact ⟨")".toList, by simp, by simp [ruleOf]⟩
        | cons host' hosts => exact ⟨") || ".toList, by simp, by simp [ruleOf, String.intercalate_cons_cons]⟩
      rw [htext, List.splitOn_append_cons_self_of_not_mem hopen, List.splitOn_append_cons_self_of_not_mem hhost, oddParts,
        String.ofList_toList, ih (fun h' hm => h h' (List.mem_cons_of_mem _ hm)) hq]

theorem ruleHosts_ruleOf {hosts : List String} (h : ∀ host ∈ hosts, '\x60' ∉ host.toList) :
    ruleHosts (ruleOf hosts) = hosts := oddParts_ruleOf h List.not_mem_nil

theorem length_ruleOf (host : String) : (ruleOf [host]).length = host.length + 8 := by
  have hopen : "Host(`".length = 6 := rfl
  have hclose : "`)".length = 2 := rfl
  simp only [ruleOf, List.map_cons, List.map_nil, String.intercalate_singleton, String.length_append, hopen, hclose]
  omega

/-! ### The file's router -/

theorem eraseDups_of_nodup {l : List String} (h : l.Nodup) : l.eraseDups = l := by
  induction l with
  | nil => rfl
  | cons a l ih =>
      obtain ⟨ha, hl⟩ := List.nodup_cons.1 h
      have hkept : (l.filter fun b => !b == a) = l := List.filter_eq_self.2 fun b hb => by
        simpa using fun he : b = a => ha (he ▸ hb)
      rw [List.eraseDups_cons, hkept, ih hl]

theorem computeRouting_none {host : String} {rest : List String} (h : (host :: rest).Nodup) :
    computeRouting host rest .none = ⟨host :: rest, host, none⟩ := by
  have hkept : (rest.filter fun e => some e ≠ none) = rest := List.filter_eq_self.2 fun _ _ => rfl
  rw [computeRouting, hkept, eraseDups_of_nodup h]

section File

variable (id : Uuid) {hosts : List String}

theorem named_serviceMaintenanceName : Named (serviceMaintenanceName id) := by
  have hyeah : Named "yeah-svc-" := ⟨by simp, by simp⟩
  exact (hyeah.append id.plain).append (by simp)

theorem literal_wakerBackendUrl : Literal wakerBackendUrl :=
  (literal_const (s := "http://yeah-waker:") (by decide)).append (literal_repr WAKER_PORT)

/-- What the proxy makes of the file. -/
theorem parse_serviceMaintenance (hne : hosts ≠ []) (hnodup : hosts.Nodup) (hhosts : ∀ host ∈ hosts, HostText host) :
    ∃ yaml, serviceMaintenanceDynamicConfig id hosts = some yaml ∧
      parse yaml.toList = some (dynamicDoc (serviceMaintenanceName id) ⟨hosts, hosts.headD "", none⟩ wakerBackendUrl none) := by
  cases hosts with
  | nil => exact absurd rfl hne
  | cons host rest =>
      refine ⟨_, rfl, ?_⟩
      have hrouting : HostRouting ⟨host :: rest, host, none⟩ :=
        ⟨hhosts, hhosts host List.mem_cons_self, fun r hr => by cases hr⟩
      rw [computeRouting_none hnodup,
        parse_traefikDynamicConfig (named_serviceMaintenanceName id) WAKER_PORT
          (writable_of_hosts hrouting literal_wakerBackendUrl)]
      rfl

theorem filePriority_dynamicDoc {name : String} (h : Named name) (hosts : List String) (canonical url : String) :
    filePriority (dynamicDoc name ⟨hosts, canonical, none⟩ url none) name = some 1000 := by
  have hrouter : ((routersOf name ⟨hosts, canonical, none⟩ none).find? fun e => e.1 = name).map (·.2) =
      some (routerDoc (ruleOf hosts) name []) := by
    rw [routersOf, List.find?_cons_of_pos (by simp)]
    rfl
  have hget := get_mapOf (l := [("rule", .text (ruleOf hosts)), ("entryPoints", .seqOf [.word "websecure"]),
    ("tls", .mapOf [("certResolver", .word "letsencrypt")]), ("service", .word name), ("priority", .word "1000")])
    (Word.keys ["rule", "entryPoints", "tls", "service", "priority"] rfl (by decide))
  have hpriority : (routerDoc (ruleOf hosts) name []).get "priority" = some (.word "1000") := hget "priority"
  rw [filePriority, get_router h, hrouter, Option.bind_some, hpriority]
  rfl

theorem fileRoutes_iff (hne : hosts ≠ []) (hnodup : hosts.Nodup) (hhosts : ∀ host ∈ hosts, HostText host) (r : Route) :
    fileRoutes (serviceMaintenanceDynamicConfig id hosts) r ↔
      r = ⟨.file, serviceMaintenanceName id, ruleOf hosts, some 1000, some wakerBackendUrl⟩ := by
  have hname := named_serviceMaintenanceName id
  have hcanonical : HostText (hosts.headD "") := by
    cases hosts with
    | nil => exact absurd rfl hne
    | cons host rest => exact hhosts host List.mem_cons_self
  have hquotable : Quotable ⟨hosts, hosts.headD "", none⟩ wakerBackendUrl none :=
    { rule := literal_ruleOf hhosts
      redirect := fun r hr => by cases hr
      canonical := ((literal_const (s := "https://") (by decide)).append hcanonical.literal).append
        (literal_const (s := "/$\x7b1\x7d") (by decide))
      url := literal_wakerBackendUrl
      auth := fun a ha => by cases ha }
  obtain ⟨yaml, hyaml, hparse⟩ := parse_serviceMaintenance id hne hnodup hhosts
  have hconfig := fromFile_dynamicDoc hname hquotable
  have hredirect : (⟨hosts, hosts.headD "", none⟩ : Routing).redirect = none := rfl
  constructor
  · rintro ⟨yaml', t, router, hyaml', hparse', hprovider, hrouter, hrule, hpriority, hurl⟩
    obtain rfl := Option.some.inj (hyaml.symm.trans hyaml')
    obtain rfl := Option.some.inj (hparse.symm.trans hparse')
    rw [hconfig] at hrouter hurl
    by_cases hn : r.name = serviceMaintenanceName id
    · have hmain : (routingConfig (serviceMaintenanceName id) wakerBackendUrl [] ⟨hosts, hosts.headD "", none⟩).router
          r.name = _ := if_pos hn
      obtain rfl := Option.some.inj (hmain.symm.trans hrouter)
      have hservice : (routingConfig (serviceMaintenanceName id) wakerBackendUrl [] ⟨hosts, hosts.headD "", none⟩).service
          (serviceMaintenanceName id) = some wakerBackendUrl := if_pos rfl
      rw [hn, filePriority_dynamicDoc hname] at hpriority
      rw [Option.bind_some] at hurl
      cases r
      obtain rfl := Option.some.inj hrule
      exact (Route.mk.injEq ..).mpr ⟨hprovider, hn, rfl, hpriority, hurl.trans hservice⟩
    · have hother : (routingConfig (serviceMaintenanceName id) wakerBackendUrl [] ⟨hosts, hosts.headD "", none⟩).router
          r.name = none := by
        rw [routingConfig]
        dsimp only
        rw [if_neg hn, hredirect]
        exact ite_self none
      cases hother.symm.trans hrouter
  · rintro rfl
    refine ⟨yaml, _, ⟨some (ruleOf hosts), ["websecure"], some "letsencrypt", some (serviceMaintenanceName id), []⟩, hyaml,
      hparse, rfl, ?_, rfl, (filePriority_dynamicDoc hname _ _ _).symm, ?_⟩
    · rw [hconfig]
      exact if_pos rfl
    · rw [hconfig]
      exact (if_pos rfl).symm

end File

/-! ### The routers of the stack -/

section Stack

variable (lower : String → String) (env : List Char → List Char) (stack : Stack) (id : Uuid) (domains : List StackDomain)

def stackEntries (service : String) : List Entry :=
  ((composeLabels env (composeStackOverride lower stack.services (stackProject id) domains) service).getD []).map readLabel

def stackRoutes : Route → Prop := dockerRoutes (stackEntries lower env stack id domains)

variable {stack domains} {r : Route}

theorem stackEntries_routed {s : StackService} (hs : s ∈ routedServices stack.services domains) (hplain : PlainName s.name) :
    stackEntries lower env stack id domains s.name = serviceEntries lower (stackProject id) domains s.name := by
  rw [stackEntries, composeLabels_stack lower env stack _ domains hs, hplain.1, if_neg (by decide), Option.getD_some]
  exact readLabels_stack lower (segment_stackProject id) (segment_service stack (mem_routedServices.1 hs).1 hplain.2)

/-- A router of the stack is that of one of its domains, and has no priority. -/
theorem domain_of_stackRoutes (hplain : ∀ s ∈ routedServices stack.services domains, PlainName s.name)
    (hr : stackRoutes lower env stack id domains r) :
    ∃ d ∈ domains, r.provider = .docker d.service ∧ r.rule = ruleOf [normalizeHost lower d.domain] ∧ r.priority = none := by
  obtain ⟨service, router, hprovider, hrouter, hrule, hpriority, -⟩ := hr
  have hconfig : (stackConfig lower env stack (stackProject id) domains service).router r.name = some router := hrouter
  obtain ⟨⟨s, hs, rfl⟩, d, hd, hn⟩ :=
    domain_of_config lower env id hplain (Or.inl (by rw [hconfig]; exact Option.some_ne_none _))
  have hmade := router_routed lower env stack id domains hs (hplain s hs) hd
  rw [hn] at hconfig hpriority
  obtain rfl := Option.some.inj (hmade.symm.trans hconfig)
  obtain ⟨hget, hservice⟩ := get_domainsOf hd
  refine ⟨d.1, List.mem_of_getElem? hget, hservice ▸ hprovider, (Option.some.inj hrule).symm, ?_⟩
  have hlookup := filter_serviceEntries lower hd (of_router (routerName (stackProject id) s.name d.2) ["priority"])
  rw [List.cons_append, List.cons_append, List.cons_append, List.cons_append, List.nil_append] at hlookup
  rw [hpriority, stackEntries_routed lower env id hs (hplain s hs), lookup, hlookup, domainEntries_eq]
  simp

theorem notMem_backquote {host : String} (h : HostText host) : '\x60' ∉ host.toList := by
  intro hm
  rcases h _ hm with hc | hc
  · exact absurd hc (by decide)
  · exact absurd hc (by decide)

theorem ruleHosts_single {host : String} (h : HostText host) : ruleHosts (ruleOf [host]) = [host] :=
  ruleHosts_ruleOf fun _ hm => List.mem_singleton.1 hm ▸ notMem_backquote h

/-- A hostname is too short for its router to outrank a file's. -/
theorem rank_stackRoutes (h : Stored lower (stack.services.map (·.name)) domains)
    (hplain : ∀ s ∈ routedServices stack.services domains, PlainName s.name)
    (hr : stackRoutes lower env stack id domains r) : r.rank < 1000 := by
  obtain ⟨d, hd, -, hrule, hpriority⟩ := domain_of_stackRoutes lower env id hplain hr
  have hvalid := h.valid d hd
  rw [isValidHostname] at hvalid
  simp only [Bool.and_eq_true, decide_eq_true_eq] at hvalid
  rw [Route.rank, hpriority, hrule, Option.getD_none, length_ruleOf]
  omega

theorem mem_serviceMaintenanceHosts (h : Stored lower (stack.services.map (·.name)) domains) {d : StackDomain} (hd : d ∈ domains)
    (domain : Option String) (containers : List String) :
    d.domain ∈ serviceMaintenanceHosts ⟨domain, domains, containers, true⟩ ↔ containers = [] ∨ d.service ∈ containers := by
  rw [serviceMaintenanceHosts, if_neg (by simp), List.mem_eraseDups, List.mem_map]
  constructor
  · rintro ⟨e, he, hsame⟩
    obtain ⟨hmem, hselected⟩ := List.mem_filter.1 he
    obtain rfl : e = d := List.inj_on_of_nodup_map h.nodup hmem hd (congrArg (normalizeHost lower) hsame)
    exact of_decide_eq_true hselected
  · exact fun hselected => ⟨d, List.mem_filter.2 ⟨hd, decide_eq_true hselected⟩, rfl⟩

theorem hostText_serviceMaintenanceHosts (h : Stored lower (stack.services.map (·.name)) domains)
    (hnormal : ∀ d ∈ domains, normalizeHost lower d.domain = d.domain) (domain : Option String) (containers : List String) :
    ∀ host ∈ serviceMaintenanceHosts ⟨domain, domains, containers, true⟩, HostText host := by
  intro host hhost
  rw [serviceMaintenanceHosts, if_neg (by simp), List.mem_eraseDups, List.mem_map] at hhost
  obtain ⟨d, hd, rfl⟩ := hhost
  have hmem := (List.mem_filter.1 hd).1
  have hvalid := h.valid d hmem
  rw [hnormal d hmem] at hvalid
  exact hostText_of_valid hvalid

/-- What the proxy has loaded: the labels of the stack's containers, and the maintenance file. -/
def routesOf (stack : Stack) (service : Service) (dir : ProxyDir) (r : Route) : Prop :=
  stackRoutes lower env stack service.id service.domains r ∨ fileRoutes (dir.dynamic (serviceMaintenanceName service.id)) r

def Service.hosts (service : Service) : List String :=
  serviceMaintenanceHosts ⟨service.domain, service.domains, service.maintenanceContainers, service.isStack⟩

theorem dynamic_apply (service : Service) (dir : ProxyDir) :
    (applyServiceMaintenance service dir).dynamic (serviceMaintenanceName service.id) =
      if service.maintenanceMode = true then serviceMaintenanceDynamicConfig service.id service.hosts else none := by
  have hfiles : (applyServiceMaintenance service dir).dynamic (serviceMaintenanceName service.id) =
      (serviceMaintenanceFiles service).map (·.dynamicYaml) := Function.update_self ..
  rw [hfiles, serviceMaintenanceFiles]
  cases service.maintenanceMode with
  | false => rfl
  | true =>
      rw [if_neg (by decide), if_pos rfl, Option.map_map]
      exact congrFun Option.map_id _

theorem wake_apply (service : Service) (dir : ProxyDir) (hmode : service.maintenanceMode = true) (hne : service.hosts ≠ []) :
    (applyServiceMaintenance service dir).wake (serviceMaintenanceName service.id) =
      some ⟨serviceMaintenanceName service.id, service.hosts, 80, 0, some (service.maintenanceMessage.getD "")⟩ := by
  have hfiles : (applyServiceMaintenance service dir).wake (serviceMaintenanceName service.id) =
      (serviceMaintenanceFiles service).map (·.wake) := Function.update_self ..
  obtain ⟨yaml, hyaml⟩ : ∃ yaml, serviceMaintenanceDynamicConfig service.id service.hosts = some yaml := by
    cases hhosts : service.hosts with
    | nil => exact absurd hhosts hne
    | cons host rest => exact ⟨_, rfl⟩
  rw [Service.hosts] at hyaml
  rw [hfiles, serviceMaintenanceFiles, hmode, if_neg (by decide)]
  dsimp only
  rw [hyaml]
  rfl

/-- Where the file's router does not answer, the stack's routers do as they would without it. -/
theorem takes_iff {routes others : Route → Prop} {host : String} (h : ∀ q, others q → ¬ q.answers host) (r : Route) :
    Takes (fun q => routes q ∨ others q) host r ↔ Takes routes host r := by
  constructor
  · intro ht
    exact ⟨ht.loaded.resolve_right fun hr => h r hr ht.answers, ht.answers, fun q hq => ht.first q (Or.inl hq)⟩
  · intro ht
    exact ⟨Or.inl ht.loaded, ht.answers, fun q hq ha => ht.first q (hq.resolve_right fun hr => h q hr ha) ha⟩

end Stack

def webService (maintenanceMode : Bool) : Service :=
  ⟨.fill 'a' rfl, none, webDomains, true, maintenanceMode, none, ["web"]⟩

end Yeah.Services.Maintenance
