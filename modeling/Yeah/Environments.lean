import Yeah.DualWrite
import Yeah.Runs

namespace Yeah.Environments

open DualWrite Runs

/-! ### Names -/

/-- Every resource of an environment joins this docker network. -/
def environmentNetworkName (environmentId : String) : String := "yeah-env-" ++ environmentId

/-- `toLowerCase`, as far as it gives letters of ASCII: beyond them the Kelvin sign and the dotted I do. -/
def lower (c : Char) : List Char :=
  if c.toNat = 0x212A then ['k'] else if c.toNat = 0x130 then ['i', Char.ofNat 0x307] else [c.toLower]

def isSlugChar (c : Char) : Bool := ('a' ≤ c ∧ c ≤ 'z') ∨ ('0' ≤ c ∧ c ≤ '9')

/-- Each run of other characters is one dash, none at the ends. -/
def resourceSlug (name : String) : String :=
  String.ofList (List.intercalate ['-'] (((name.toList.flatMap lower).splitOnP fun c => !isSlugChar c).filter (· ≠ [])))

def internalHostName (resourceName : String) : String :=
  if resourceSlug resourceName = "" then "resource" else resourceSlug resourceName

example : internalHostName "  My App! 2 " = "my-app-2" := by decide

/-! ### Rows, containers and jobs -/

inductive Kind
  | application
  | composeApplication
  | database
  /-- A service with a compose file. -/
  | stack
  /-- A service of one image. -/
  | service
  deriving DecidableEq

structure Resource where
  id : String
  kind : Kind
  serverId : String
  environmentId : String
  name : String
  /-- The `composeService` of an application, the `mainService` of a stack. -/
  mainService : Option String
  /-- The services of its compose file. -/
  services : List String
  /-- The networks that its docker options name, or its compose file for a service. -/
  named : String → List String

structure Endpoint where
  network : String
  aliases : List String
  deriving DecidableEq

/-- A container, with the id in its name or its project. -/
structure Container where
  resource : String
  serverId : String
  service : String
  running : Bool
  /-- Without the network of the proxy and the default ones. -/
  endpoints : List Endpoint
  deriving DecidableEq

/-- The tables, the containers on the servers, and the deployment and provision jobs with the row that each has read. -/
structure State where
  environments : List String
  resources : Table Resource.id
  containers : List Container
  jobs : List Resource

def empty : State := ⟨[], .empty, [], []⟩

/-- How far the commands of a job come. -/
inductive Progress
  | started
  | removed
  | ran
  | joined
  deriving DecidableEq

/-- What `docker compose up` does with the container of a service. -/
inductive Fate
  | absent
  | kept (running : Bool)
  | made (running : Bool)

structure Commands where
  progress : Progress
  fate : String → Fate
  connects : String → Bool

inductive LifecycleAction
  | start
  | stop
  | restart

inductive Action
  | createEnvironment (id : String)
  | create (r : Resource)
  | move (id environmentId : String)
  /-- A deployment or provision job reads its row. -/
  | load (id : String)
  | finish (i : Nat) (commands : Commands)
  /-- `which` says for which containers docker does it. -/
  | lifecycle (id : String) (action : LifecycleAction) (which : String → Bool)

/-- The aliases that `stackNetworkJoinCommand` gives. -/
def stackAliases (slug service : String) (mainService : Option String) : List String :=
  (slug ++ "-" ++ service) :: if service = mainService.getD "" then [slug] else []

/-- The names by which a container of the resource is to be reached; for a database it is the host of its
internal connection string. -/
def aliasesOf (r : Resource) (service : String) : List String :=
  match r.kind with
  | .composeApplication | .stack => stackAliases (internalHostName r.name) service r.mainService
  | .application | .database | .service => [internalHostName r.name]

section Commands

variable (j : Resource)

def envEndpoint (service : String) : Endpoint :=
  ⟨environmentNetworkName j.environmentId, aliasesOf j service⟩

def belongs (c : Container) : Bool := c.resource = j.id ∧ c.serverId = j.serverId

def single (endpoints : List Endpoint) : Container := ⟨j.id, j.serverId, "", true, endpoints⟩

def namedEndpoints : List Endpoint := (j.named "").map fun n => ⟨n, []⟩

/-- `up -d --remove-orphans`: compose adds the bare name of the service on each network that it joins. -/
def composeUp (fate : String → Fate) (old : List Container) : List Container :=
  j.services.filterMap fun service =>
    match fate service with
    | .absent => none
    | .kept running => (old.find? fun c => c.service = service).map fun c => { c with running }
    | .made running => some ⟨j.id, j.serverId, service, running, (j.named service).map fun n => ⟨n, [service]⟩⟩

/-- A running container leaves the network and joins it again; one that cannot is skipped. -/
def stackNetworkJoin (connects : String → Bool) (c : Container) : Container :=
  if c.running then
    { c with
      endpoints := (c.endpoints.filter fun e => e.network ≠ environmentNetworkName j.environmentId) ++
        if connects c.service then [envEndpoint j c.service] else [] }
  else c

/-- The containers after the commands of a job that has read `j`. -/
def finish (containers : List Container) (commands : Commands) : List Container :=
  let mine := containers.filter (belongs j)
  let others := containers.filter fun c => !belongs j c
  match j.kind, commands.progress with
  | _, .started => containers
  | .application, .removed | .database, .removed | .service, .removed => others
  | .application, .ran => others ++ [single j (namedEndpoints j)]
  | .application, .joined => others ++ [single j (namedEndpoints j ++ [envEndpoint j ""])]
  | .database, _ => others ++ [single j [envEndpoint j ""]]
  | .service, _ => others ++ [single j []]
  | .composeApplication, .removed | .stack, .removed => containers
  | .composeApplication, .ran | .stack, .ran => others ++ composeUp j commands.fate mine
  | .composeApplication, .joined | .stack, .joined =>
      others ++ (composeUp j commands.fate mine).map (stackNetworkJoin j commands.connects)

end Commands

/-- Databases and services of one image are not started and stopped. -/
def hasLifecycle : Kind → Bool
  | .application | .composeApplication | .stack => true
  | .database | .service => false

def runs (action : LifecycleAction) (which running : Bool) : Bool :=
  match action with
  | .start => running || which
  | .stop => running && !which
  | .restart => which

def step (s : State) : Action → State
  | .createEnvironment id => { s with environments := s.environments ++ [id] }
  | .create r =>
      if r.environmentId ∈ s.environments then { s with resources := (s.resources.insert r).getD s.resources } else s
  | .move id environmentId =>
      if environmentId ∈ s.environments then
        match s.resources.find id with
        | none => s
        | some r => { s with resources := s.resources.replace { r with environmentId } }
      else s
  | .load id =>
      match s.resources.find id with
      | none => s
      | some r => { s with jobs := s.jobs ++ [r] }
  | .finish i commands =>
      match s.jobs[i]? with
      | none => s
      | some j => { s with containers := finish j s.containers commands, jobs := s.jobs.eraseIdx i }
  | .lifecycle id action which =>
      match s.resources.find id with
      | none => s
      | some r =>
          if hasLifecycle r.kind then
            { s with containers := s.containers.map fun c =>
                if belongs r c then { c with running := runs action (which c.service) c.running } else c }
          else s

/-! ### What is promised -/

/-- A container is in the networks of no environment but `env`. -/
def Container.At (env : String) (c : Container) : Prop :=
  ∀ e ∈ c.endpoints, ∀ env', e.network = environmentNetworkName env' → env' = env

/-- Where it is in the network of an environment, the container has the names of its resource. -/
def Container.Named (r : Resource) (c : Container) : Prop :=
  ∀ e ∈ c.endpoints, ∀ env, e.network = environmentNetworkName env → e.aliases = aliasesOf r c.service

structure Isolated (s : State) : Prop where
  at_row : ∀ c ∈ s.containers, c.running = true → ∀ r, s.resources.find c.resource = some r →
    c.At r.environmentId ∧ c.Named r
  apart : ∀ c ∈ s.containers, ∀ d ∈ s.containers, c.running = true → d.running = true →
    c.serverId = d.serverId →
    ∀ e ∈ c.endpoints, ∀ f ∈ d.endpoints, ∀ env, e.network = environmentNetworkName env →
      f.network = environmentNetworkName env →
      ∀ r q, s.resources.find c.resource = some r → s.resources.find d.resource = some q →
        r.environmentId = q.environmentId

/-! ### The condition on a step -/

def Joins (j : Resource) (commands : Commands) : Prop :=
  match j.kind with
  | .application => commands.progress = .joined
  | .database => commands.progress = .ran ∨ commands.progress = .joined
  | .composeApplication | .stack =>
      commands.progress = .joined ∧ ∃ service ∈ j.services, commands.fate service ≠ .absent ∧
        commands.connects service = true
  | .service => False

/-- The docker options or the compose file name the network of an environment. -/
def NamesEnvironment (r : Resource) : Prop :=
  ∃ service, ∃ n ∈ r.named service, ∃ env, n = environmentNetworkName env

/-- A resource is moved while none of its containers runs in the network of another environment; a stopped container
is started only if it was not moved since it joined; a job finishes only in the environment in which it read its row; and
what it runs names no such network. -/
def Calm (s : State) : Action → Prop
  | .createEnvironment _ | .create _ | .load _ => True
  | .move id environmentId =>
      environmentId ∈ s.environments → ∀ c ∈ s.containers, c.resource = id → c.running = true →
        c.At environmentId
  | .finish i commands =>
      ∀ j r, s.jobs[i]? = some j → s.resources.find j.id = some r → commands.progress ≠ .started →
        ¬ NamesEnvironment j ∧ (Joins j commands → j.environmentId = r.environmentId) ∧
          ∀ c ∈ s.containers, belongs j c = true → commands.fate c.service = .kept true →
            c.At r.environmentId
  | .lifecycle id action which =>
      ∀ r, s.resources.find id = some r → hasLifecycle r.kind = true →
        ∀ c ∈ s.containers, belongs r c = true → runs action (which c.service) c.running = true →
          c.At r.environmentId

/-! ### The invariant -/

/-- The container has the names of the resource, and while it runs it is in no other environment. -/
structure Fits (r : Resource) (c : Container) : Prop where
  named : c.Named r
  at_row : c.running = true → c.At r.environmentId

structure Inv (s : State) : Prop where
  containers : ∀ c ∈ s.containers, ∃ r, s.resources.find c.resource = some r ∧ Fits r c
  jobs : ∀ j ∈ s.jobs, ∃ r, s.resources.find j.id = some r ∧
    j = { r with environmentId := j.environmentId }

theorem environmentNetworkName_inj {a b : String}
    (h : environmentNetworkName a = environmentNetworkName b) : a = b := by
  have ht := congrArg String.toList h
  rw [environmentNetworkName, environmentNetworkName, String.toList_append, String.toList_append] at ht
  exact String.toList_inj.1 (List.append_cancel_left ht)

theorem Inv.isolated {s : State} (hi : Inv s) : Isolated s := by
  have hrow (c : Container) (hc : c ∈ s.containers) (hrun : c.running = true) (r : Resource)
      (hr : s.resources.find c.resource = some r) : c.At r.environmentId ∧ c.Named r := by
    obtain ⟨r', hr', hfit⟩ := hi.containers c hc
    obtain rfl : r = r' := Option.some_inj.1 (hr.symm.trans hr')
    exact ⟨hfit.at_row hrun, hfit.named⟩
  refine ⟨hrow, ?_⟩
  intro c hc d hd hcr hdr _ e he f hf env hce hdf r q hr hq
  exact ((hrow c hc hcr r hr).1 e he env hce).symm.trans ((hrow d hd hdr q hq).1 f hf env hdf)

section Finish

variable {j r : Resource} {containers : List Container} {commands : Commands} {c : Container}

theorem notMem_named (hn : ¬ NamesEnvironment j) {service n env : String} (h : n ∈ j.named service) :
    n ≠ environmentNetworkName env :=
  fun he => hn ⟨service, n, h, env, he⟩

theorem fits_of_none (h : ∀ e ∈ c.endpoints, ∀ env, e.network ≠ environmentNetworkName env) : Fits r c :=
  ⟨fun e he env hnet => absurd hnet (h e he env), fun _ e he env hnet => absurd hnet (h e he env)⟩

theorem Fits.snoc {c : Container} {es : List Endpoint} {e : Endpoint}
    (hc : Fits r { c with endpoints := es }) {env : String}
    (hnet : e.network = environmentNetworkName env) (hal : e.aliases = aliasesOf r c.service)
    (henv : c.running = true → env = r.environmentId) :
    Fits r { c with endpoints := es ++ [e] } := by
  refine ⟨fun f hf env' hf' => ?_, fun hrun f hf env' hf' => ?_⟩
  · rcases List.mem_append.1 hf with hf | hf
    · exact hc.named f hf env' hf'
    · exact List.mem_singleton.1 hf ▸ hal
  · rcases List.mem_append.1 hf with hf | hf
    · exact hc.at_row hrun f hf env' hf'
    · obtain rfl := List.mem_singleton.1 hf
      exact (environmentNetworkName_inj (hnet.symm.trans hf')).symm.trans (henv hrun)

theorem Fits.sublist {es es' : List Endpoint} (hc : Fits r { c with endpoints := es }) (h : es' ⊆ es) :
    Fits r { c with endpoints := es' } :=
  ⟨fun e he => hc.named e (h he), fun hrun e he => hc.at_row hrun e (h he)⟩

theorem fits_named (hn : ¬ NamesEnvironment j) : Fits r (single j (namedEndpoints j)) := by
  refine fits_of_none fun e he env => ?_
  obtain ⟨n, hmem, rfl⟩ := List.mem_map.1 he
  exact notMem_named hn hmem

/-- A container of the project after `up`: it was there and is kept, or it is new and has the networks of the file. -/
theorem fits_composeUp (hn : ¬ NamesEnvironment j) (hold : ∀ c ∈ containers, belongs j c = true → Fits r c)
    (hkept : ∀ c ∈ containers, belongs j c = true → commands.fate c.service = .kept true → c.At r.environmentId)
    (hc : c ∈ composeUp j commands.fate (containers.filter (belongs j))) :
    Fits r c ∧ belongs j c = true ∧ c.service ∈ j.services ∧ commands.fate c.service ≠ .absent := by
  obtain ⟨service, hs, hf⟩ := List.mem_filterMap.1 hc
  cases hfate : commands.fate service with
  | absent =>
      rw [hfate] at hf
      cases hf
  | kept running =>
      rw [hfate] at hf
      obtain ⟨d, hd, rfl⟩ := Option.map_eq_some_iff.1 hf
      obtain ⟨hmem, hbel⟩ := List.mem_filter.1 (List.mem_of_find?_eq_some hd)
      have hservice : d.service = service := by simpa using List.find?_some hd
      refine ⟨⟨(hold d hmem hbel).named, fun hrun => ?_⟩, hbel, by simpa [hservice] using hs,
        by simp [hservice, hfate]⟩
      obtain rfl : running = true := hrun
      exact hkept d hmem hbel (hservice ▸ hfate)
  | made running =>
      rw [hfate] at hf
      obtain rfl := Option.some_inj.1 hf
      refine ⟨fits_of_none fun e he env => ?_, by simp [belongs], hs, by simp [hfate]⟩
      obtain ⟨n, hmem, rfl⟩ := List.mem_map.1 he
      exact notMem_named hn hmem

theorem fits_stackNetworkJoin (hal : ∀ service, aliasesOf j service = aliasesOf r service) (hc : Fits r c)
    {connects : String → Bool}
    (henv : connects c.service = true → j.environmentId = r.environmentId) :
    Fits r (stackNetworkJoin j connects c) := by
  rw [stackNetworkJoin]
  split
  · have hless : Fits r { c with endpoints := c.endpoints.filter fun e => e.network ≠ environmentNetworkName j.environmentId } :=
      hc.sublist (List.filter_subset_self _)
    split
    · next hcon => exact hless.snoc rfl (hal c.service) fun _ => henv hcon
    · rw [List.append_nil]
      exact hless
  · exact hc

/-- A container after the commands of a job was there before, or it belongs to the resource. -/
theorem fits_finish (hal : ∀ service, aliasesOf j service = aliasesOf r service)
    (hcalm : commands.progress ≠ .started → ¬ NamesEnvironment j ∧ (Joins j commands → j.environmentId = r.environmentId) ∧
      ∀ c ∈ containers, belongs j c = true → commands.fate c.service = .kept true → c.At r.environmentId)
    (hold : ∀ c ∈ containers, belongs j c = true → Fits r c) (hc : c ∈ finish j containers commands) :
    c ∈ containers ∨ (c.resource = j.id ∧ Fits r c) := by
  have hothers (h : c ∈ containers.filter fun c => !belongs j c) : c ∈ containers :=
    List.mem_of_mem_filter h
  have hjoined (es : List Endpoint) (hes : Fits r (single j es)) (henv : j.environmentId = r.environmentId) :
      Fits r (single j (es ++ [envEndpoint j ""])) :=
    hes.snoc (c := single j es) rfl (hal "") fun _ => henv
  by_cases hstart : commands.progress = .started
  · have hsame : finish j containers commands = containers := by
      rw [finish]
      simp only [hstart]
    rw [hsame] at hc
    exact Or.inl hc
  · obtain ⟨hn, henv, hkept⟩ := hcalm hstart
    cases hk : j.kind <;> cases hp : commands.progress <;> simp only [finish, hk, hp] at hc
    case application.removed | database.removed | service.removed => exact Or.inl (hothers hc)
    case composeApplication.removed | stack.removed => exact Or.inl hc
    case application.started | composeApplication.started | database.started | stack.started | service.started => exact absurd hp hstart
    case application.ran =>
      rcases List.mem_append.1 hc with hc | hc
      · exact Or.inl (hothers hc)
      · obtain rfl := List.mem_singleton.1 hc
        exact Or.inr ⟨rfl, fits_named hn⟩
    case application.joined =>
      rcases List.mem_append.1 hc with hc | hc
      · exact Or.inl (hothers hc)
      · obtain rfl := List.mem_singleton.1 hc
        exact Or.inr ⟨rfl, hjoined _ (fits_named hn) (henv (by simp [Joins, hk, hp]))⟩
    case database.ran | database.joined =>
      rcases List.mem_append.1 hc with hc | hc
      · exact Or.inl (hothers hc)
      · obtain rfl := List.mem_singleton.1 hc
        exact Or.inr ⟨rfl, hjoined [] (fits_of_none fun _ he => absurd he List.not_mem_nil) (henv (by simp [Joins, hk, hp]))⟩
    case service.ran | service.joined =>
      rcases List.mem_append.1 hc with hc | hc
      · exact Or.inl (hothers hc)
      · obtain rfl := List.mem_singleton.1 hc
        exact Or.inr ⟨rfl, fits_of_none fun _ he => absurd he List.not_mem_nil⟩
    case composeApplication.ran | stack.ran =>
      rcases List.mem_append.1 hc with hc | hc
      · exact Or.inl (hothers hc)
      · obtain ⟨hfit, hbel, -⟩ := fits_composeUp hn hold hkept hc
        exact Or.inr ⟨(of_decide_eq_true hbel).1, hfit⟩
    case composeApplication.joined | stack.joined =>
      rcases List.mem_append.1 hc with hc | hc
      · exact Or.inl (hothers hc)
      · obtain ⟨d, hd, rfl⟩ := List.mem_map.1 hc
        obtain ⟨hfit, hbel, hs, hf⟩ := fits_composeUp hn hold hkept hd
        refine Or.inr ⟨?_, fits_stackNetworkJoin hal hfit fun hcon => henv ?_⟩
        · rw [stackNetworkJoin]
          split <;> exact (of_decide_eq_true hbel).1
        · simp only [Joins, hk, hp]
          exact ⟨trivial, d.service, hs, hf, hcon⟩

end Finish

theorem inv_empty : Inv empty :=
  ⟨fun _ hc => absurd hc List.not_mem_nil, fun _ hj => absurd hj List.not_mem_nil⟩

theorem inv_step (s : State) (a : Action) (hi : Inv s) (hcalm : Calm s a) : Inv (step s a) := by
  cases a with
  | createEnvironment id => exact ⟨hi.containers, hi.jobs⟩
  | create r =>
      rw [step]
      split
      · cases hr : s.resources.insert r with
        | none => exact ⟨hi.containers, hi.jobs⟩
        | some resources =>
            refine ⟨fun c hc => ?_, fun j hj => ?_⟩
            · obtain ⟨q, hq, hfit⟩ := hi.containers c hc
              exact ⟨q, Table.find_of_insert hr hq, hfit⟩
            · obtain ⟨q, hq, hjq⟩ := hi.jobs j hj
              exact ⟨q, Table.find_of_insert hr hq, hjq⟩
      · exact hi
  | move id environmentId =>
      rw [step]
      split
      · next henv =>
        cases hr : s.resources.find id with
        | none => exact hi
        | some r =>
            have hid := Table.key_of_find hr
            have hfind (k : String) : (s.resources.replace { r with environmentId }).find k =
                if k = id then (s.resources.find k).map fun _ => { r with environmentId } else s.resources.find k := by
              rw [Table.find_replace]
              simp only [hid]
            refine ⟨fun c hc => ?_, fun j hj => ?_⟩
            · obtain ⟨q, hq, hfit⟩ := hi.containers c hc
              by_cases hk : c.resource = id
              · obtain rfl : r = q := Option.some_inj.1 (hr.symm.trans (hk ▸ hq))
                refine ⟨{ r with environmentId }, ?_, hfit.named, hcalm henv c hc hk⟩
                change (s.resources.replace { r with environmentId }).find c.resource = _
                rw [hfind, if_pos hk, hq, Option.map_some]
              · refine ⟨q, ?_, hfit⟩
                change (s.resources.replace { r with environmentId }).find c.resource = _
                rw [hfind, if_neg hk, hq]
            · obtain ⟨q, hq, hjq⟩ := hi.jobs j hj
              by_cases hk : j.id = id
              · obtain rfl : r = q := Option.some_inj.1 (hr.symm.trans (hk ▸ hq))
                refine ⟨{ r with environmentId }, ?_, hjq⟩
                change (s.resources.replace { r with environmentId }).find j.id = _
                rw [hfind, if_pos hk, hq, Option.map_some]
              · refine ⟨q, ?_, hjq⟩
                change (s.resources.replace { r with environmentId }).find j.id = _
                rw [hfind, if_neg hk, hq]
      · exact hi
  | load id =>
      rw [step]
      split
      · exact hi
      · next r hr =>
        refine ⟨hi.containers, fun j hj => ?_⟩
        rcases List.mem_append.1 hj with hj | hj
        · exact hi.jobs j hj
        · obtain rfl := List.mem_singleton.1 hj
          exact ⟨j, (Table.key_of_find hr).symm ▸ hr, rfl⟩
  | finish i commands =>
      rw [step]
      split
      · exact hi
      · next j hj =>
        obtain ⟨r, hr, hjr⟩ := hi.jobs j (List.mem_of_getElem? hj)
        have hal (service : String) : aliasesOf j service = aliasesOf r service := by
          rw [hjr]
          rfl
        refine ⟨fun c hc => ?_, fun k hk => hi.jobs k (List.mem_of_mem_eraseIdx hk)⟩
        have hold (d : Container) (hd : d ∈ s.containers) (hbel : belongs j d = true) : Fits r d := by
          obtain ⟨q, hq, hfit⟩ := hi.containers d hd
          rw [(of_decide_eq_true hbel).1, hr] at hq
          exact Option.some_inj.1 hq ▸ hfit
        rcases fits_finish hal (hcalm j r hj hr) hold hc with hc | ⟨hid, hfit⟩
        · exact hi.containers c hc
        · exact ⟨r, hid.symm ▸ hr, hfit⟩
  | lifecycle id action which =>
      rw [step]
      split
      · exact hi
      · next r hr =>
        split
        · next hk =>
          refine ⟨fun c hc => ?_, hi.jobs⟩
          obtain ⟨d, hd, rfl⟩ := List.mem_map.1 hc
          obtain ⟨q, hq, hfit⟩ := hi.containers d hd
          by_cases hbel : belongs r d = true
          · rw [if_pos hbel]
            obtain rfl : r = q := by
              rw [(of_decide_eq_true hbel).1, Table.key_of_find hr, hr] at hq
              exact Option.some_inj.1 hq
            exact ⟨r, hq, hfit.named, hcalm r hr hk d hd hbel⟩
          · rw [if_neg hbel]
            exact ⟨q, hq, hfit⟩
        · exact hi

/-- A move is no change of metadata: the network of the old environment is fixed when the container joins it. -/
theorem run_isolated {as : List Action} (h : Along step Calm empty as) : Isolated (run step empty as) :=
  (along_invariant inv_step inv_empty h).isolated

def sampleApp : Resource := ⟨"a", .application, "h", "e", "My App", none, [], fun _ => []⟩

def deployed : Commands := ⟨.joined, fun _ => .absent, fun _ => true⟩

/-- Moved before it is deployed. -/
theorem run_isolated_sampleApp :
    Isolated (run step empty
      [.createEnvironment "e", .createEnvironment "f", .create sampleApp, .move "a" "f", .load "a", .finish 0 deployed]) := by
  refine run_isolated ⟨trivial, trivial, trivial, fun _ c hc => absurd hc List.not_mem_nil, trivial, fun j r hj hr _ => ?_, trivial⟩
  have hjob : j = { sampleApp with environmentId := "f" } := (Option.some_inj.1 hj).symm
  subst hjob
  have hrow : r = { sampleApp with environmentId := "f" } := (Option.some_inj.1 hr).symm
  subst hrow
  refine ⟨?_, fun _ => rfl, fun c hc => absurd hc List.not_mem_nil⟩
  rintro ⟨_, n, hn, -⟩
  exact absurd hn List.not_mem_nil

/-- Deployed in one environment and moved to another: the container stays in the network of the first. -/
theorem moved_stays_attached : ¬ ∀ as : List Action, Isolated (run step empty as) := by
  intro h
  have hat :=
    ((h [.createEnvironment "e", .createEnvironment "f", .create sampleApp, .load "a", .finish 0 deployed, .move "a" "f"]).at_row
    (single sampleApp [envEndpoint sampleApp ""]) (by decide) rfl { sampleApp with environmentId := "f" } rfl).1
  have := hat (envEndpoint sampleApp "") List.mem_cons_self "e" rfl
  revert this
  decide

end Yeah.Environments
