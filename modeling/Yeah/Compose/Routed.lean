import Yeah.Compose.Override
import Yeah.Text.Stamp

namespace Yeah.Compose

open Yaml Proxy Text

variable (lower : String → String)

/-- The error of the first domain that is not accepted; `seen` are the hosts before it. -/
def validateFrom (serviceNames : List String) : List String → List StackDomain → Option String
  | _, [] => none
  | seen, d :: ds =>
      let host := normalizeHost lower d.domain
      if d.service ∉ serviceNames then some ("service \"" ++ d.service ++ "\" does not exist in the compose file")
      else if isValidHostname host = false then some ("invalid domain: " ++ d.domain)
      else if d.port < 1 ∨ d.port > 65535 then some ("invalid port for domain " ++ host)
      else if host ∈ seen then some ("the domain " ++ host ++ " appears more than once")
      else validateFrom serviceNames (host :: seen) ds

def validateStackDomains (domains : List StackDomain) (serviceNames : List String) : Option String :=
  if domains.length > 20 then some "at most 20 domains per service" else validateFrom lower serviceNames [] domains

/-- The domains that are stored with a stack. -/
structure Stored (serviceNames : List String) (domains : List StackDomain) : Prop where
  known : ∀ d ∈ domains, d.service ∈ serviceNames
  valid : ∀ d ∈ domains, isValidHostname (normalizeHost lower d.domain) = true
  nodup : (domains.map fun d => normalizeHost lower d.domain).Nodup

theorem stored_of_validateFrom {serviceNames seen : List String} {domains : List StackDomain}
    (h : validateFrom lower serviceNames seen domains = none) :
    Stored lower serviceNames domains ∧ ∀ d ∈ domains, normalizeHost lower d.domain ∉ seen := by
  induction domains generalizing seen with
  | nil => exact ⟨⟨nofun, nofun, List.nodup_nil⟩, nofun⟩
  | cons d ds ih =>
      rw [validateFrom] at h
      split_ifs at h with hknown hvalid hport hseen
      obtain ⟨⟨hk, hv, hn⟩, hs⟩ := ih h
      refine ⟨⟨?_, ?_, ?_⟩, ?_⟩
      · exact List.forall_mem_cons.2 ⟨hknown, hk⟩
      · exact List.forall_mem_cons.2 ⟨by simpa using hvalid, hv⟩
      · refine List.nodup_cons.2 ⟨fun hm => ?_, hn⟩
        obtain ⟨e, he, heq⟩ := List.mem_map.1 hm
        exact hs e he (by simp [heq])
      · exact List.forall_mem_cons.2 ⟨hseen, fun e he hm => hs e he (List.mem_cons_of_mem _ hm)⟩

/-- What the route for domains accepts. -/
theorem stored_of_validate {serviceNames : List String} {domains : List StackDomain}
    (h : validateStackDomains lower domains serviceNames = none) : Stored lower serviceNames domains := by
  rw [validateStackDomains] at h
  split_ifs at h
  exact (stored_of_validateFrom lower h).1

/-- What the route for the compose file keeps: the domains whose service is still there. -/
theorem Stored.filter {serviceNames : List String} {domains : List StackDomain}
    (h : Stored lower serviceNames domains)
    (newNames : List String) : Stored lower newNames (domains.filter fun d => d.service ∈ newNames) where
  known d hd := by simpa using (List.mem_filter.1 hd).2
  valid d hd := h.valid d (List.mem_filter.1 hd).1
  nodup := h.nodup.sublist (List.filter_sublist.map _)

/-! ### The configuration of the stack -/

/-- What Traefik makes of the labels that the override gives to a service's container. -/
def stackConfig (env : List Char → List Char) (stack : Stack) (project : String)
    (domains : List StackDomain) (service : String) : Config :=
  fromLabels service ((composeLabels env (composeStackOverride lower stack.services project domains) service).getD [])

/-- The router `n` of the container `s` is there for a host, on an entry point. -/
def RouterFor (config : String → Config) (host ep s n : String) : Prop :=
  ∃ r, (config s).router n = some r ∧ r.rule = some (ruleOf [host]) ∧ ep ∈ r.entryPoints

/-- The router `n` of the container `s` is accepted, and leads to `url`: its service is known, and no other container
tells Traefik of a router or a service of these names. -/
def LeadsTo (config : String → Config) (s n url : String) : Prop :=
  ∃ r service, (config s).router n = some r ∧ r.service = some service ∧
    (config s).service service = some url ∧
    ∀ s', s' ≠ s → (config s').router n = none ∧ (config s').service service = none

def routerName (project name : String) (i : Nat) : String := project ++ "-" ++ name ++ "-" ++ i.repr

theorem routerName_inj {project s s' : String} {i i' : Nat}
    (h : routerName project s i = routerName project s' i') : s = s' ∧ i = i' := by
  have hstamp : stamped (project ++ "-" ++ s) i "" = stamped (project ++ "-" ++ s') i' "" := by
    simpa [stamped, routerName] using h
  obtain rfl := stamped_inj hstamp
  refine ⟨?_, rfl⟩
  have hs := congrArg String.toList h
  exact String.toList_inj.1 (by simpa [routerName] using hs)

section Entries

variable {project name : String} {domains : List StackDomain}

def domainsOf (domains : List StackDomain) (name : String) : List (StackDomain × Nat) :=
  domains.zipIdx.filter fun d => d.1.service = name

def domainEntries (project name : String) (d : StackDomain × Nat) : List Entry :=
  routingEntries (routerName project name d.2) (computeRouting (normalizeHost lower d.1.domain) [] .none) d.1.port

def serviceEntries (project : String) (domains : List StackDomain) (name : String) : List Entry :=
  (domainsOf domains name).flatMap (domainEntries lower project name)

theorem computeRouting_single (host : String) : computeRouting host [] .none = ⟨[host], host, none⟩ := by
  simp [computeRouting, List.eraseDups_cons]

theorem domainEntries_eq (d : StackDomain × Nat) :
    domainEntries lower project name d =
      [ (["traefik", "enable"], "true"),
        (["traefik", "docker", "network"], PROXY_NETWORK_NAME),
        (["traefik", "http", "routers", routerName project name d.2, "rule"], ruleOf [normalizeHost lower d.1.domain]),
        (["traefik", "http", "routers", routerName project name d.2, "entrypoints"], "websecure"),
        (["traefik", "http", "routers", routerName project name d.2, "tls", "certresolver"], "letsencrypt"),
        (["traefik", "http", "services", routerName project name d.2, "loadbalancer", "server", "port"], d.1.port.repr) ] := by
  rw [domainEntries, computeRouting_single]
  rfl

theorem segment_routerName (hp : Segment project) (hs : Segment name) (i : Nat) :
    Segment (routerName project name i) := by
  have hdigits (c : Char) (hc : c.isDigit = false) : c ∉ Nat.toDigits 10 i := fun h => by
    have := Nat.isDigit_of_mem_toDigits (by decide) (by decide) h
    simp [hc] at this
  constructor
  · simp [routerName, hp.1, hs.1, hdigits '.' (by decide)]
  · simp [routerName, hp.2, hs.2, hdigits '=' (by decide)]

theorem readLabels_stack (hp : Segment project) (hs : Segment name) :
    (stackLabels lower project domains name).map readLabel = serviceEntries lower project domains name := by
  rw [stackLabels, List.map_flatMap, serviceEntries, domainsOf]
  exact List.flatMap_congr fun d _ => map_readLabel (segment_routerName hp hs d.2) _ _

theorem nodup_domainsOf : (domainsOf domains name).Nodup := by
  have hindices : (domains.zipIdx.map Prod.snd).Nodup := by
    rw [List.zipIdx_map_snd]
    exact List.nodup_range'
  exact hindices.of_map.filter _

theorem get_domainsOf {d : StackDomain × Nat} (hd : d ∈ domainsOf domains name) :
    domains[d.2]? = some d.1 ∧ d.1.service = name := by
  obtain ⟨hmem, hname⟩ := List.mem_filter.1 hd
  exact ⟨List.mem_zipIdx_iff_getElem?.1 hmem, of_decide_eq_true hname⟩

theorem domainsOf_inj {d e : StackDomain × Nat} (hd : d ∈ domainsOf domains name)
    (he : e ∈ domainsOf domains name) (h : d.2 = e.2) : d = e := by
  have hget := (get_domainsOf hd).1.symm.trans (h ▸ (get_domainsOf he).1)
  exact Prod.ext (Option.some_inj.1 hget) h

theorem filter_flatMap_one {α β : Type} {l : List α} (hl : l.Nodup) {a : α} (ha : a ∈ l) {f : α → List β}
    {p : β → Bool}
    (h : ∀ b ∈ l, b ≠ a → (f b).filter p = []) : (l.flatMap f).filter p = (f a).filter p := by
  induction l with
  | nil => cases ha
  | cons b l ih =>
      rw [List.nodup_cons] at hl
      rw [List.flatMap_cons, List.filter_append]
      rcases List.mem_cons.1 ha with rfl | ha
      · have hrest : (l.flatMap f).filter p = [] := by
          rw [List.filter_flatMap]
          exact List.flatMap_eq_nil_iff.2 fun c hc => h c (by simp [hc]) fun he => hl.1 (he ▸ hc)
        rw [hrest, List.append_nil]
      · rw [h b (by simp) fun he => hl.1 (he ▸ ha), List.nil_append]
        exact ih hl.2 ha fun c hc => h c (by simp [hc])

def Of (n : String) (p : Entry → Bool) : Prop :=
  ∀ e, p e = true → ["traefik", "http", "routers", n] <+: e.1 ∨ ["traefik", "http", "services", n] <+: e.1

theorem filter_other {n : String} {p : Entry → Bool} (hp : Of n p) {d : StackDomain × Nat}
    (hd : routerName project name d.2 ≠ n) :
    (domainEntries lower project name d).filter p = [] := by
  refine List.filter_eq_nil_iff.2 fun e he hpe => ?_
  rw [domainEntries_eq] at he
  simp only [List.mem_cons, List.not_mem_nil, or_false] at he
  rcases he with rfl | rfl | rfl | rfl | rfl | rfl <;> rcases hp _ hpe with h | h <;> simp [hd.symm] at h

/-- Of the labels of a container, those of one router are those of one domain. -/
theorem filter_serviceEntries {d : StackDomain × Nat} (hd : d ∈ domainsOf domains name) {p : Entry → Bool}
    (hp : Of (routerName project name d.2) p) :
    (serviceEntries lower project domains name).filter p = (domainEntries lower project name d).filter p :=
  filter_flatMap_one nodup_domainsOf hd fun _ hb hne =>
    filter_other lower hp fun he => hne (domainsOf_inj hb hd (routerName_inj he).2)

theorem filter_serviceEntries_other {n : String}
    (hn : ∀ d ∈ domainsOf domains name, routerName project name d.2 ≠ n) {p : Entry → Bool}
    (hp : Of n p) : (serviceEntries lower project domains name).filter p = [] := by
  rw [serviceEntries, List.filter_flatMap]
  exact List.flatMap_eq_nil_iff.2 fun d hd => filter_other lower hp (hn d hd)

theorem of_router (n : String) (rest : List String) :
    Of n fun e => decide (e.1 = ["traefik", "http", "routers", n] ++ rest) := fun e he => by
  rw [of_decide_eq_true he]
  exact Or.inl (List.prefix_append _ _)

theorem of_service (n : String) (rest : List String) :
    Of n fun e => decide (e.1 = ["traefik", "http", "services", n] ++ rest) := fun e he => by
  rw [of_decide_eq_true he]
  exact Or.inr (List.prefix_append _ _)

theorem of_below (n : String) : Of n fun e => decide (["traefik", "http", "routers", n] <+: e.1) :=
  fun _ he => Or.inl (of_decide_eq_true he)

theorem labelRouter_domain {d : StackDomain × Nat} (hd : d ∈ domainsOf domains name) :
    labelRouter (serviceEntries lower project domains name) (routerName project name d.2) =
      some ⟨some (ruleOf [normalizeHost lower d.1.domain]), ["websecure"], some "letsencrypt",
        onlyService (serviceEntries lower project domains name), []⟩ := by
  have hlookup (rest : List String) :=
    filter_serviceEntries lower hd (of_router (routerName project name d.2) rest)
  have hbelow := filter_serviceEntries lower hd (of_below (routerName project name d.2))
  have hweb : listOf (some "websecure") = ["websecure"] := listOf_single (by simp)
  have hnone : listOf none = [] := rfl
  simp only [labelRouter, lookup, below, hlookup, hbelow]
  simp [domainEntries_eq, hweb, hnone]

theorem labelRouter_other {n : String}
    (hn : ∀ d ∈ domainsOf domains name, routerName project name d.2 ≠ n) :
    labelRouter (serviceEntries lower project domains name) n = none :=
  if_pos (filter_serviceEntries_other lower hn (of_below n))

theorem labelService_domain {d : StackDomain × Nat} (hd : d ∈ domainsOf domains name) :
    labelService name (serviceEntries lower project domains name) (routerName project name d.2) =
      some ("http://" ++ name ++ ":" ++ d.1.port.repr) := by
  have hlookup :=
    filter_serviceEntries lower hd (of_service (routerName project name d.2) ["loadbalancer", "server", "port"])
  rw [List.cons_append, List.cons_append, List.cons_append, List.cons_append, List.nil_append] at hlookup
  rw [labelService, lookup, hlookup]
  simp [domainEntries_eq]

theorem labelService_other {n : String}
    (hn : ∀ d ∈ domainsOf domains name, routerName project name d.2 ≠ n) :
    labelService name (serviceEntries lower project domains name) n = none := by
  have hlookup := filter_serviceEntries_other lower hn (of_service n ["loadbalancer", "server", "port"])
  rw [List.cons_append, List.cons_append, List.cons_append, List.cons_append, List.nil_append] at hlookup
  rw [labelService, lookup, hlookup]
  rfl

theorem onlyService_single {d : StackDomain × Nat} (hd : domainsOf domains name = [d]) :
    onlyService (serviceEntries lower project domains name) = some (routerName project name d.2) := by
  have hdeclared : declared (serviceEntries lower project domains name) =
      [routerName project name d.2] := by
    rw [declared, serviceEntries, hd, List.flatMap_cons, List.flatMap_nil, List.append_nil,
      domainEntries_eq]
    simp [serviceName, List.eraseDups_cons]
  rw [onlyService, hdeclared]

end Entries

theorem eq_singleton {α : Type} {l : List α} (hl : l.Nodup) {a : α} (ha : a ∈ l) (h : ∀ b ∈ l, b = a) :
    l = [a] := by
  cases l with
  | nil => cases ha
  | cons b l =>
      obtain rfl := h b (by simp)
      cases l with
      | nil => rfl
      | cons c l =>
          obtain rfl := h c (by simp)
          simp at hl

section Stack

variable (env : List Char → List Char) (stack : Stack) (id : Uuid) (domains : List StackDomain)

/-- A name that YAML takes for a string and that keeps to its place in a label's key. -/
def PlainName (name : String) : Prop := isOther name.toList = false ∧ '.' ∉ name.toList

theorem segment_stackProject : Segment (stackProject id) := by
  have hdot := id.notMem (c := '.') (by decide) (by decide)
  have heq := id.notMem (c := '=') (by decide) (by decide)
  constructor <;> simp [stackProject, hdot, heq]

theorem segment_service {s : StackService} (hs : s ∈ stack.services) (hdot : '.' ∉ s.name.toList) :
    Segment s.name := by
  refine ⟨hdot, fun heq => ?_⟩
  have hvalid := stack.valid s hs
  simp only [isValidComposeService, Bool.and_eq_true] at hvalid
  exact absurd (List.all_eq_true.1 hvalid.2 _ heq) (by decide)

theorem stackConfig_routed {s : StackService} (hs : s ∈ routedServices stack.services domains)
    (hplain : PlainName s.name) :
    stackConfig lower env stack (stackProject id) domains s.name =
      ⟨labelRouter (serviceEntries lower (stackProject id) domains s.name), labelService s.name (serviceEntries lower (stackProject id) domains s.name),
        labelMiddleware (serviceEntries lower (stackProject id) domains s.name)⟩ := by
  have hread : (stackLabels lower (stackProject id) domains s.name).map readLabel = _ :=
    readLabels_stack lower (segment_stackProject id)
    (segment_service stack (mem_routedServices.1 hs).1 hplain.2)
  rw [stackConfig, composeLabels_stack lower env stack _ domains hs, hplain.1, if_neg (by decide),
    Option.getD_some, fromLabels, hread]

theorem router_routed {s : StackService} (hs : s ∈ routedServices stack.services domains)
    (hplain : PlainName s.name) {d : StackDomain × Nat}
    (hd : d ∈ domainsOf domains s.name) :
    (stackConfig lower env stack (stackProject id) domains s.name).router (routerName (stackProject id) s.name d.2) =
      some ⟨some (ruleOf [normalizeHost lower d.1.domain]), ["websecure"], some "letsencrypt",
        onlyService (serviceEntries lower (stackProject id) domains s.name), []⟩ := by
  rw [stackConfig_routed lower env stack id domains hs hplain]
  exact labelRouter_domain lower hd

theorem service_routed {s : StackService} (hs : s ∈ routedServices stack.services domains)
    (hplain : PlainName s.name) {d : StackDomain × Nat}
    (hd : d ∈ domainsOf domains s.name) :
    (stackConfig lower env stack (stackProject id) domains s.name).service (routerName (stackProject id) s.name d.2) =
      some ("http://" ++ s.name ++ ":" ++ d.1.port.repr) := by
  rw [stackConfig_routed lower env stack id domains hs hplain]
  exact labelService_domain lower hd

theorem stackConfig_unrouted {service : String}
    (h : ∀ s ∈ routedServices stack.services domains, s.name ≠ service) (n : String) :
    (stackConfig lower env stack (stackProject id) domains service).router n = none ∧
      (stackConfig lower env stack (stackProject id) domains service).service n = none := by
  rw [stackConfig, composeLabels_unrouted lower env stack _ domains h]
  exact ⟨rfl, rfl⟩

variable {stack domains} (hplain : ∀ s ∈ routedServices stack.services domains, PlainName s.name)

include hplain

theorem domain_of_config {service n : String}
    (h : (stackConfig lower env stack (stackProject id) domains service).router n ≠ none ∨
      (stackConfig lower env stack (stackProject id) domains service).service n ≠ none) :
    (∃ s ∈ routedServices stack.services domains, s.name = service) ∧
      ∃ d ∈ domainsOf domains service, n = routerName (stackProject id) service d.2 := by
  by_cases hs : ∃ s ∈ routedServices stack.services domains, s.name = service
  · refine ⟨hs, ?_⟩
    obtain ⟨s, hs, rfl⟩ := hs
    by_contra hn
    have hother : ∀ d ∈ domainsOf domains s.name, routerName (stackProject id) s.name d.2 ≠ n :=
      fun d hd he => hn ⟨d, hd, he.symm⟩
    rw [stackConfig_routed lower env stack id domains hs (hplain s hs)] at h
    exact h.elim (fun h => h (labelRouter_other lower hother))
      fun h => h (labelService_other lower hother)
  · have hunrouted : ∀ s ∈ routedServices stack.services domains, s.name ≠ service :=
      fun s hs' he => hs ⟨s, hs', he⟩
    have hnone := stackConfig_unrouted lower env stack id domains hunrouted n
    exact h.elim (fun h => absurd hnone.1 h) fun h => absurd hnone.2 h

theorem domain_of_router {host ep service n : String}
    (h : RouterFor (stackConfig lower env stack (stackProject id) domains) host ep service n) :
    (∃ s ∈ routedServices stack.services domains, s.name = service) ∧ ep = "websecure" ∧
      ∃ d ∈ domainsOf domains service, n = routerName (stackProject id) service d.2 ∧
        normalizeHost lower d.1.domain = host := by
  obtain ⟨r, hr, hrule, hep⟩ := h
  have hne : (stackConfig lower env stack (stackProject id) domains service).router n ≠ none := by
    simp [hr]
  obtain ⟨hs, d, hd, rfl⟩ := domain_of_config lower env id hplain (Or.inl hne)
  refine ⟨hs, ?_⟩
  obtain ⟨s, hs, rfl⟩ := hs
  rw [router_routed lower env stack id domains hs (hplain s hs) hd] at hr
  obtain rfl := Option.some.inj hr
  refine ⟨List.mem_singleton.1 hep, d, hd, rfl, ?_⟩
  have htext := congrArg String.toList (Option.some.inj hrule)
  exact String.toList_inj.1 (by simpa [ruleOf] using htext)

omit hplain in
theorem domain_of_host (h : Stored lower (stack.services.map (·.name)) domains) {d e : StackDomain × Nat}
    {name name' : String}
    (hd : d ∈ domainsOf domains name) (he : e ∈ domainsOf domains name')
    (hhost : normalizeHost lower e.1.domain = normalizeHost lower d.1.domain) :
    e = d ∧ name' = name := by
  obtain ⟨hgetd, rfl⟩ := get_domainsOf hd
  obtain ⟨hgete, rfl⟩ := get_domainsOf he
  have hindex : e.2 = d.2 := by
    obtain ⟨hlt, -⟩ := List.getElem?_eq_some_iff.1 hgete
    refine (List.getElem?_inj (by simpa using hlt) h.nodup).1 ?_
    rw [List.getElem?_map, List.getElem?_map, hgetd, hgete, Option.map_some, Option.map_some, hhost]
  have heq : e.1 = d.1 := Option.some_inj.1 (hgete.symm.trans (hindex ▸ hgetd))
  exact ⟨Prod.ext heq hindex, by rw [heq]⟩

/-- For every stack and list of stored domains. -/
theorem stack_routed (h : Stored lower (stack.services.map (·.name)) domains) {d : StackDomain}
    (hd : d ∈ domains) {s : StackService}
    (hs : s ∈ stack.services) (hname : s.name = d.service) :
    let config := stackConfig lower env stack (stackProject id) domains
    let host := normalizeHost lower d.domain
    let url := "http://" ++ d.service ++ ":" ++ d.port.repr
    (s.networkMode = true → ∀ ep s' n, ¬ RouterFor config host ep s' n) ∧
    (s.networkMode = false → ∃ n, (∀ ep s' n', RouterFor config host ep s' n' ↔ ep = "websecure" ∧ s' = d.service ∧ n' = n) ∧
      (config d.service).service n = some url ∧
      ((∀ e ∈ domains, e.service = d.service → e = d) → LeadsTo config d.service n url)) := by
  intro config host url
  obtain ⟨i, hi⟩ : ∃ i, (d, i) ∈ domainsOf domains d.service := by
    obtain ⟨i, hi⟩ := List.getElem?_of_mem hd
    exact ⟨i, List.mem_filter.2 ⟨List.mem_zipIdx_iff_getElem?.2 hi, by simp⟩⟩
  have hrouter {ep s' n : String} (hr : RouterFor config host ep s' n) :
      (∃ t ∈ routedServices stack.services domains, t.name = d.service) ∧ ep = "websecure" ∧
          s' = d.service ∧
        n = routerName (stackProject id) d.service i := by
    obtain ⟨⟨t, ht, rfl⟩, hep, e, he, rfl, hhost⟩ := domain_of_router lower env id hplain hr
    obtain ⟨rfl, hname⟩ := domain_of_host lower h hi he hhost
    exact ⟨⟨t, ht, hname⟩, hep, hname, by rw [hname]⟩
  constructor
  · intro hmode ep s' n hr
    obtain ⟨⟨t, ht, htname⟩, -⟩ := hrouter hr
    obtain ⟨htmem, htmode, -⟩ := mem_routedServices.1 ht
    obtain rfl : t = s := List.inj_on_of_nodup_map stack.nodup htmem hs (htname.trans hname.symm)
    simp [hmode] at htmode
  · intro hmode
    have hrouted : s ∈ routedServices stack.services domains :=
      mem_routedServices.2 ⟨hs, hmode, d, hd, hname.symm⟩
    have hr :=
      router_routed lower env stack id domains hrouted (hplain s hrouted) (d := (d, i)) (hname ▸ hi)
    have hservice :=
      service_routed lower env stack id domains hrouted (hplain s hrouted) (d := (d, i)) (hname ▸ hi)
    rw [hname] at hr hservice
    refine ⟨_, fun ep s' n' => ⟨fun hr => (hrouter hr).2, ?_⟩, hservice, fun honly => ?_⟩
    · rintro ⟨rfl, rfl, rfl⟩
      exact ⟨_, hr, rfl, List.mem_singleton_self _⟩
    · have hsingle : domainsOf domains d.service = [(d, i)] :=
        eq_singleton nodup_domainsOf hi fun e he => by
        obtain ⟨hget, hen⟩ := get_domainsOf he
        have hed := honly e.1 (List.mem_of_getElem? hget) hen
        exact (domain_of_host lower h hi he (by rw [hed])).1
      refine ⟨_, _, hr, onlyService_single lower hsingle, hservice, fun s' hne => ?_⟩
      by_contra hdeclared
      rw [not_and_or] at hdeclared
      obtain ⟨-, e, he, hn⟩ := domain_of_config lower env id hplain hdeclared
      exact hne (routerName_inj hn).1.symm

end Stack

section Instances

def webStack (networkMode : Bool) : Stack where
  services := [⟨"web", networkMode⟩]
  valid := by cases networkMode <;> decide
  nodup := by cases networkMode <;> decide

def webDomains : List StackDomain := [⟨"web", "a.example.com", 8080⟩]

theorem stored_webDomains (networkMode : Bool) :
    Stored id ((webStack networkMode).services.map (·.name)) webDomains :=
  stored_of_validate id (by cases networkMode <;> decide)

theorem plain_webStack (networkMode : Bool) :
    ∀ s ∈ routedServices (webStack networkMode).services webDomains, PlainName s.name := by
  intro s hs
  obtain rfl : s = ⟨"web", networkMode⟩ := List.mem_singleton.1 (mem_routedServices.1 hs).1
  exact (by decide : isOther "web".toList = false ∧ '.' ∉ "web".toList)

theorem stack_routed_web : ∃ n,
    LeadsTo (stackConfig id (fun _ => []) (webStack false) (stackProject (.fill 'a' rfl)) webDomains) "web" n "http://web:8080" := by
  have h := stack_routed id (fun _ => []) (.fill 'a' rfl) (plain_webStack false) (stored_webDomains false)
    (d := ⟨"web", "a.example.com", 8080⟩) (by simp [webDomains]) (s := ⟨"web", false⟩) (by simp [webStack]) rfl
  obtain ⟨n, -, -, honly⟩ := h.2 rfl
  exact ⟨n, honly (by simp [webDomains])⟩

/-- A service on its host's network: its domain is accepted, and there is no router for it. -/
theorem networkMode_unrouted :
    validateStackDomains id webDomains ((webStack true).services.map (·.name)) = none ∧
      ¬ ∃ ep s n, RouterFor (stackConfig id (fun _ => []) (webStack true) (stackProject (.fill 'a' rfl)) webDomains) "a.example.com" ep s n := by
  refine ⟨by decide, ?_⟩
  rintro ⟨ep, s, n, h⟩
  obtain ⟨⟨t, ht, -⟩, -⟩ := domain_of_router id _ _ (plain_webStack true) h
  revert ht
  have hnone : routedServices (webStack true).services webDomains = [] := by decide
  simp [hnone]

end Instances

end Yeah.Compose
