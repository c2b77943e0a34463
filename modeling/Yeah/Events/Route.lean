import Yeah.Text.Replace

namespace Yeah.Events

open Text

inductive EventType
  | serverStatus
  | serverProxy
  | serverMetrics
  | serviceStatus
  | applicationStatus
  | deploymentLog
  | deploymentStatus
  | databaseStatus
  | backupStatus
  | platformOperationLog
  | platformOperationStatus
  | unknown (type : String)
  deriving DecidableEq

/-- A published event: its properties that are texts, and the rest of its JSON. -/
structure Event where
  type : EventType
  teamId : Option String
  serverId : Option String
  serviceId : Option String
  applicationId : Option String
  databaseId : Option String
  deploymentId : Option String
  scheduleId : Option String
  rest : String
  deriving DecidableEq

inductive Kind
  | server
  | service
  | application
  | database
  | deployment
  | backupSchedule
  deriving DecidableEq

inductive Route
  | all
  | team (teamId : String)
  | resource (kind : Kind) (id : String)
  deriving DecidableEq

def given (value : Option String) : Option String := value.filter fun value => value ≠ ""

def resource (kind : Kind) (id : Option String) : Option Route := (given id).map (Route.resource kind)

def routeEvent (event : Event) : Option Route :=
  match given event.teamId with
  | some explicit => some (.team explicit)
  | none =>
      match event.type with
      | .serverStatus | .serverProxy | .serverMetrics => resource .server event.serverId
      | .serviceStatus => resource .service event.serviceId
      | .applicationStatus => resource .application event.applicationId
      | .databaseStatus => resource .database event.databaseId
      | .deploymentLog | .deploymentStatus => resource .deployment event.deploymentId
      | .backupStatus => resource .backupSchedule event.scheduleId
      | .platformOperationLog | .platformOperationStatus => some .all
      | .unknown _ => none

def canReceive (route : Route) (ownerTeamId : Option String) (memberTeams : List String) : Bool :=
  match route with
  | .all => true
  | .team teamId => teamId ∈ memberTeams
  | .resource _ _ => ownerTeamId.any fun owner => owner ∈ memberTeams

/-- The team of each row by its primary key; deployments and backup schedules point to another table. -/
structure Tables where
  servers : String → Option String
  services : String → Option String
  applications : String → Option String
  databases : String → Option String
  deployments : String → Option String
  backupSchedules : String → Option String

def lookupOwner (tables : Tables) (kind : Kind) (id : String) : Option String :=
  match kind with
  | .server => tables.servers id
  | .service => tables.services id
  | .application => tables.applications id
  | .database => tables.databases id
  | .deployment => (tables.deployments id).bind tables.applications
  | .backupSchedule => (tables.backupSchedules id).bind tables.databases

namespace EventType

/-- One platform operation for all. -/
def instanceWide : EventType → Bool
  | platformOperationLog | platformOperationStatus => true
  | _ => false

/-- What an event is about. -/
def kind : EventType → Option Kind
  | serverStatus | serverProxy | serverMetrics => some .server
  | serviceStatus => some .service
  | applicationStatus => some .application
  | databaseStatus => some .database
  | deploymentLog | deploymentStatus => some .deployment
  | backupStatus => some .backupSchedule
  | platformOperationLog | platformOperationStatus | unknown _ => none

end EventType

namespace Event

def id (event : Event) : Kind → Option String
  | .server => event.serverId
  | .service => event.serviceId
  | .application => event.applicationId
  | .database => event.databaseId
  | .deployment => event.deploymentId
  | .backupSchedule => event.scheduleId

def About (event : Event) (kind : Kind) (id : String) : Prop :=
  event.type.kind = some kind ∧ given (event.id kind) = some id

instance (event : Event) (kind : Kind) (id : String) : Decidable (event.About kind id) :=
  inferInstanceAs (Decidable (_ ∧ _))

end Event

def Owns (tables : Tables) (team : String) (kind : Kind) (id : String) : Prop :=
  match kind with
  | .server => tables.servers id = some team
  | .service => tables.services id = some team
  | .application => tables.applications id = some team
  | .database => tables.databases id = some team
  | .deployment => ∃ application, tables.deployments id = some application ∧ tables.applications application = some team
  | .backupSchedule => ∃ database, tables.backupSchedules id = some database ∧ tables.databases database = some team

/-- The event is one team's: it names the team, or it names none and is about a resource of the team. -/
inductive Belongs (tables : Tables) (event : Event) (team : String) : Prop
  | explicit (h : given event.teamId = some team)
  | resource (hn : given event.teamId = none) {kind : Kind} {id : String} (h : event.About kind id) (ho : Owns tables team kind id)

variable {tables : Tables} {event : Event} {team : String} {teams : List String}

theorem lookupOwner_eq_some_iff {kind : Kind} {id : String} :
    lookupOwner tables kind id = some team ↔ Owns tables team kind id := by
  cases kind with
  | deployment | backupSchedule => exact Option.bind_eq_some_iff
  | server | service | application | database => exact Iff.rfl

theorem routeEvent_eq_resource_iff {kind : Kind} {id : String} :
    routeEvent event = some (.resource kind id) ↔ given event.teamId = none ∧ event.About kind id := by
  rw [routeEvent]
  cases ht : given event.teamId with
  | some explicit => simp
  | none =>
      simp only [true_and, Event.About]
      cases event.type <;> cases kind <;> simp [resource, EventType.kind, Event.id]

theorem routeEvent_eq_team_iff :
    routeEvent event = some (.team team) ↔ given event.teamId = some team := by
  rw [routeEvent]
  cases ht : given event.teamId with
  | some explicit => simp
  | none =>
      simp only [reduceCtorEq, iff_false]
      cases event.type <;> simp [resource]

theorem routeEvent_eq_all_iff :
    routeEvent event = some .all ↔ given event.teamId = none ∧ event.type.instanceWide := by
  rw [routeEvent]
  cases ht : given event.teamId with
  | some explicit => simp
  | none =>
      simp only [true_and]
      cases event.type <;> simp [resource, EventType.instanceWide]

/-- The one team that an event belongs to. -/
def teamOf (tables : Tables) (event : Event) : Option String :=
  match routeEvent event with
  | some (.team teamId) => some teamId
  | some (.resource kind id) => lookupOwner tables kind id
  | _ => none

theorem teamOf_eq_some_iff : teamOf tables event = some team ↔ Belongs tables event team := by
  rw [teamOf]
  constructor
  · intro h
    cases hr : routeEvent event with
    | none => simp [hr] at h
    | some route =>
        cases route with
        | all => simp [hr] at h
        | team teamId =>
            rw [hr] at h
            exact Belongs.explicit (routeEvent_eq_team_iff.1 (Option.some_inj.1 h ▸ hr))
        | resource kind id =>
            rw [hr] at h
            obtain ⟨hn, habout⟩ := routeEvent_eq_resource_iff.1 hr
            exact Belongs.resource hn habout (lookupOwner_eq_some_iff.1 h)
  · rintro (h | ⟨hn, habout, ho⟩)
    · rw [routeEvent_eq_team_iff.2 h]
    · rw [routeEvent_eq_resource_iff.2 ⟨hn, habout⟩]
      exact lookupOwner_eq_some_iff.2 ho

/-- Who may see an event: everyone, if it is a platform operation's, or the members of its team. -/
def Entitled (tables : Tables) (teams : List String) (event : Event) : Prop :=
  (given event.teamId = none ∧ event.type.instanceWide) ∨ ∃ team ∈ teams, Belongs tables event team

theorem entitled_iff_teamOf (h : routeEvent event ≠ some .all) :
    Entitled tables teams event ↔ ∃ team ∈ teams, teamOf tables event = some team := by
  rw [Entitled, ← routeEvent_eq_all_iff, or_iff_right h]
  exact exists_congr fun team => and_congr_right fun _ => teamOf_eq_some_iff.symm

/-- What the ws service decides once it knows the owner. -/
theorem canReceive_iff {route : Route} {owner : Option String} (hr : routeEvent event = some route)
    (ho : ∀ kind id, route = .resource kind id → owner = lookupOwner tables kind id) :
    canReceive route owner teams ↔ Entitled tables teams event := by
  cases route with
  | all => exact iff_of_true rfl (Or.inl (routeEvent_eq_all_iff.1 hr))
  | team teamId =>
      rw [entitled_iff_teamOf (by rw [hr]; simp), teamOf, hr]
      simp [canReceive]
  | resource kind id =>
      rw [entitled_iff_teamOf (by rw [hr]; simp), teamOf, hr, ho kind id rfl]
      cases hl : lookupOwner tables kind id <;> simp [canReceive, hl]

def Kind.name : Kind → String
  | server => "server"
  | service => "service"
  | application => "application"
  | database => "database"
  | deployment => "deployment"
  | backupSchedule => "backup-schedule"

def cacheKey (kind : Kind) (id : String) : String := s!"{kind.name}:{id}"

theorem cacheKey_toList (kind : Kind) (id : String) :
    (cacheKey kind id).toList = kind.name.toList ++ ':' :: id.toList := by
  change (kind.name ++ ":" ++ id).toList = _
  simp

theorem Kind.name_inj {k l : Kind} (h : k.name = l.name) : k = l := by
  cases k <;> cases l <;> first | rfl | (simp [Kind.name] at h)

theorem cacheKey_inj {k l : Kind} {i j : String} (h : cacheKey k i = cacheKey l j) : k = l ∧ i = j := by
  have hcolon : ∀ k : Kind, ':' ∉ k.name.toList := fun k => by cases k <;> simp [Kind.name]
  have hlist := congrArg String.toList h
  rw [cacheKey_toList, cacheKey_toList] at hlist
  obtain ⟨hname, hid⟩ := append_cons_inj_left (hcolon k) (hcolon l) hlist
  exact ⟨Kind.name_inj (String.toList_inj.1 hname), String.toList_inj.1 hid⟩

end Yeah.Events
