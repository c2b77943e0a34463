import Yeah.Runs
import Yeah.Tables

namespace Yeah.Accounts.Register

open Runs

structure Body where
  email : String
  password : String
  name : Option String

structure User where
  email : String
  passwordHash : String
  name : Option String

structure Team where
  name : String
  personal : Bool

inductive Role
  | owner
  | admin
  | member
  deriving DecidableEq

structure Member where
  teamId : Nat
  userId : Nat
  role : Role

structure Project where
  teamId : Nat
  name : String

structure Environment where
  projectId : Nat
  name : String

/-- The server that the panel itself runs on. -/
structure Server where
  teamId : Nat
  name : String
  isPlatformHost : Bool

structure Session where
  id : String
  userId : Nat

/-- The tables and the queue that a registration writes; a row's id is its position. -/
structure Panel where
  users : List User
  teams : List Team
  members : List Member
  projects : List Project
  environments : List Environment
  servers : List Server
  serverChecks : List Nat
  sessions : List Session

namespace Panel

variable (p : Panel)

def hasAnyUser : Bool := ¬ p.users.isEmpty

/-- The column is unique. -/
def registered (email : String) : Bool := p.users.any fun user => user.email = email

end Panel

/-- The next call of a request, with the variables that it has set. -/
inductive Call
  | hasAnyUser
  | existing
  | hashPassword
  | insertUser (passwordHash : String)
  | insertTeam (user : Nat)
  | insertMember (user team : Nat)
  | insertProject (user team : Nat)
  | insertEnvironment (user team project : Nat)
  | insertServer (user team : Nat)
  | addServerCheck (user server : Nat)
  | createSession (user : Nat)

inductive Request
  | next (call : Call)
  | refused (status : Nat) (error : String)
  | threw (call : Call)
  | signedIn (user : Nat) (session : String)

structure State where
  panel : Panel
  requests : List (Body × Request)

inductive Action
  | register (body : Body)
  /-- The next call of a request; the hash's salt or the session's id is drawn. -/
  | next (i : Nat) (random : String)
  /-- The next call of a request throws. -/
  | throws (i : Nat)

section Routes

variable (hash : String → String → String) (localServer : Bool)

def perform (p : Panel) (body : Body) (random : String) : Call → Panel × Request
  | .hasAnyUser =>
      (p, if p.hasAnyUser then .refused 403 "sign-up disabled — this instance already has an account" else .next .existing)
  | .existing => (p, if p.registered body.email then .refused 409 "email already registered" else .next .hashPassword)
  | .hashPassword => (p, .next (.insertUser (hash body.password random)))
  | .insertUser passwordHash =>
      if p.registered body.email then (p, .threw (.insertUser passwordHash))
      else ({ p with users := p.users ++ [⟨body.email, passwordHash, body.name⟩] }, .next (.insertTeam p.users.length))
  | .insertTeam user =>
      let name := match body.name.filter fun name => name ≠ "" with
        | some name => name ++ "'s team"
        | none => "Personal"
      ({ p with teams := p.teams ++ [⟨name, true⟩] }, .next (.insertMember user p.teams.length))
  | .insertMember user team => ({ p with members := p.members ++ [⟨team, user, .owner⟩] }, .next (.insertProject user team))
  | .insertProject user team =>
      ({ p with projects := p.projects ++ [⟨team, "Default"⟩] }, .next (.insertEnvironment user team p.projects.length))
  | .insertEnvironment user team project =>
      ({ p with environments := p.environments ++ [⟨project, "production"⟩] },
        .next (if localServer then .insertServer user team else .createSession user))
  | .insertServer user team =>
      ({ p with servers := p.servers ++ [⟨team, "Local server", true⟩] }, .next (.addServerCheck user p.servers.length))
  | .addServerCheck user server => ({ p with serverChecks := p.serverChecks ++ [server] }, .next (.createSession user))
  | .createSession user => ({ p with sessions := p.sessions ++ [⟨random, user⟩] }, .signedIn user random)

def step (s : State) : Action → State
  | .register body => { s with requests := s.requests ++ [(body, .next .hasAnyUser)] }
  | .next i random =>
      match s.requests[i]? with
      | some (body, .next call) =>
          let result := perform hash localServer s.panel body random call
          ⟨result.1, s.requests.set i (body, result.2)⟩
      | _ => s
  | .throws i =>
      match s.requests[i]? with
      | some (body, .next call) => { s with requests := s.requests.set i (body, .threw call) }
      | _ => s

/-- The run has made one user at most, and one administrator of a team at most. -/
structure Single (before : Panel) (s : State) : Prop where
  users : s.panel.users.length ≤ before.users.length + 1
  owners : s.panel.members.length ≤ before.members.length + 1

/-- When a request inserts its user, there is still none (or one with its e-mail address, and the insert throws). -/
def Calm (s : State) : Action → Prop
  | .next i _ => ∀ body passwordHash, s.requests[i]? = some (body, .next (.insertUser passwordHash)) →
      s.panel.users = [] ∨ s.panel.registered body.email
  | _ => True

namespace Call

def created : Call → Bool
  | .hasAnyUser | .existing | .hashPassword | .insertUser _ => false
  | _ => true

def administers : Call → Bool
  | .insertTeam _ | .insertMember _ _ => false
  | call => call.created

def allowed : Call → Bool
  | .existing | .hashPassword | .insertUser _ => true
  | _ => false

end Call

namespace Request

def created : Request → Bool
  | .next call | .threw call => call.created
  | .refused _ _ => false
  | .signedIn _ _ => true

def administers : Request → Bool
  | .next call | .threw call => call.administers
  | .refused _ _ => false
  | .signedIn _ _ => true

def allowed : Request → Bool
  | .next call => call.allowed
  | _ => false

end Request

/-- Every new user and every new administrator is that of one request. -/
structure Inv (before : Panel) (s : State) : Prop where
  users : s.panel.users.length = before.users.length + s.requests.countP fun r => r.2.created
  owners : s.panel.members.length = before.members.length + s.requests.countP fun r => r.2.administers
  allowed : ∀ r ∈ s.requests, r.2.allowed → before.users = []

variable {hash localServer} {before : Panel} {s : State}

theorem Call.created_of_administers {call : Call} (h : call.administers) : call.created := by
  cases call <;> first | rfl | cases h

theorem Request.created_of_administers {r : Request} (h : r.administers) : r.created := by
  cases r with
  | next call | threw call => exact Call.created_of_administers h
  | refused status error => cases h
  | signedIn user session => rfl

variable (hash localServer) in
/-- What one call adds to the tables, and what it makes of its request. -/
theorem perform_spec (p : Panel) (body : Body) (random : String) (call : Call) :
    let result := perform hash localServer p body random call
    (result.1.users.length + (if call.created then 1 else 0) = p.users.length + if result.2.created then 1 else 0) ∧
    (result.1.members.length + (if call.administers then 1 else 0) = p.members.length + if result.2.administers then 1 else 0) ∧
    (result.2.allowed → call.allowed ∨ p.users = []) := by
  cases call with
  | hasAnyUser =>
      by_cases h : p.hasAnyUser
      · simp [perform, h, Call.created, Call.administers, Request.created, Request.administers,
          Request.allowed]
      · have hempty : p.users = [] := by simpa [Panel.hasAnyUser] using h
        simp [perform, h, hempty, Call.created, Call.administers, Request.created, Request.administers]
  | existing =>
      by_cases h : p.registered body.email <;>
        simp [perform, h, Call.created, Call.administers, Call.allowed, Request.created,
          Request.administers]
  | hashPassword => simp [perform, Call.created, Call.administers, Call.allowed, Request.created, Request.administers]
  | insertUser passwordHash =>
      by_cases h : p.registered body.email <;>
        simp [perform, h, Call.created, Call.administers, Call.allowed, Request.created,
          Request.administers]
  | insertEnvironment user team project =>
      cases localServer <;>
        simp [perform, Call.created, Call.administers, Request.created, Request.administers,
          Request.allowed, Call.allowed]
  | insertTeam | insertMember | insertProject | insertServer | addServerCheck | createSession =>
      simp [perform, Call.created, Call.administers, Request.created, Request.administers,
        Request.allowed, Call.allowed]

theorem Inv.empty (h : Inv before s) (hs : s.panel.users = []) : before.users = [] := by
  have hlength := h.users
  rw [hs, List.length_nil] at hlength
  exact List.length_eq_zero_iff.1 (by omega)

theorem inv_start (before : Panel) : Inv before ⟨before, []⟩ where
  users := rfl
  owners := rfl
  allowed _ h := by cases h

theorem Inv.next (h : Inv before s) {i : Nat} {body : Body} {call : Call}
    (hr : s.requests[i]? = some (body, .next call))
    {panel : Panel} {r : Request}
    (husers : panel.users.length + (if call.created then 1 else 0) = s.panel.users.length + if r.created then 1 else 0)
    (howners : panel.members.length + (if call.administers then 1 else 0) = s.panel.members.length + if r.administers then 1 else 0)
    (hallowed : r.allowed → call.allowed ∨ s.panel.users = []) :
    Inv before ⟨panel, s.requests.set i (body, r)⟩ where
  users := by
    have hcount : (s.requests.set i (body, r)).countP (fun r => r.2.created) + (if call.created then 1 else 0) =
        (s.requests.countP fun r => r.2.created) + if r.created then 1 else 0 := Tables.countP_set _ hr _
    have hinv := h.users
    change panel.users.length = _ + (s.requests.set i (body, r)).countP fun r => r.2.created
    omega
  owners := by
    have hcount : (s.requests.set i (body, r)).countP (fun r => r.2.administers) + (if call.administers then 1 else 0) =
        (s.requests.countP fun r => r.2.administers) + if r.administers then 1 else 0 :=
          Tables.countP_set _ hr _
    have hinv := h.owners
    change panel.members.length = _ + (s.requests.set i (body, r)).countP fun r => r.2.administers
    omega
  allowed q hq hqa := by
    rcases List.mem_or_eq_of_mem_set hq with hq | rfl
    · exact h.allowed q hq hqa
    · rcases hallowed hqa with hcall | hempty
      · exact h.allowed _ (List.mem_of_getElem? hr) hcall
      · exact h.empty hempty

theorem inv_step (h : Inv before s) (a : Action) : Inv before (step hash localServer s a) := by
  cases a with
  | register body =>
      refine ⟨?_, ?_, fun r hr ha => ?_⟩
      · rw [step, List.countP_append]
        exact h.users
      · rw [step, List.countP_append]
        exact h.owners
      · rcases List.mem_append.1 hr with hr | hr
        · exact h.allowed r hr ha
        · rw [List.mem_singleton.1 hr] at ha
          cases ha
  | next i random =>
      rw [step]
      split
      · next body call hr =>
        obtain ⟨husers, howners, hallowed⟩ := perform_spec hash localServer s.panel body random call
        exact h.next hr husers howners hallowed
      · exact h
  | throws i =>
      rw [step]
      split
      · next body call hr => exact h.next hr rfl rfl fun ha => by cases ha
      · exact h

theorem Inv.single_iff (h : Inv before s) :
    Single before s ↔ s.panel.users.length ≤ before.users.length + 1 := by
  refine ⟨fun hs => hs.users, fun hu => ⟨hu, ?_⟩⟩
  have hle : (s.requests.countP fun r => r.2.administers) ≤ s.requests.countP fun r => r.2.created :=
    List.countP_mono_left fun r _ hr => Request.created_of_administers hr
  have husers := h.users
  have howners := h.owners
  omega

/-- The one call that adds a user. -/
theorem single_insertUser_iff (h : Inv before s) (hs : Single before s) {i : Nat} {body : Body}
    {passwordHash random : String}
    (hr : s.requests[i]? = some (body, .next (.insertUser passwordHash))) :
    (perform hash localServer s.panel body random (.insertUser passwordHash)).1.users.length ≤ before.users.length + 1 ↔
      s.panel.users = [] ∨ s.panel.registered body.email := by
  have hempty : before.users = [] := h.allowed _ (List.mem_of_getElem? hr) rfl
  rw [perform]
  split
  · next hregistered => exact iff_of_true hs.users (Or.inr hregistered)
  · next hregistered => simp [hempty, hregistered]

theorem single_step_iff (h : Inv before s) (hs : Single before s) (a : Action) :
    Single before (step hash localServer s a) ↔ Calm s a := by
  have hi : Inv before (step hash localServer s a) := inv_step h a
  have hsame (hp : (step hash localServer s a).panel.users.length = s.panel.users.length) : Single before (step hash localServer s a) := by
    rw [hi.single_iff, hp]
    exact hs.users
  cases a with
  | register body => exact iff_of_true (hsame rfl) trivial
  | throws i =>
      refine iff_of_true (hsame ?_) trivial
      rw [step]
      split <;> rfl
  | next i random =>
      by_cases hinsert : ∃ body passwordHash, s.requests[i]? = some (body, .next (.insertUser passwordHash))
      · obtain ⟨body, passwordHash, hr⟩ := hinsert
        rw [hi.single_iff, step, hr]
        refine (single_insertUser_iff h hs hr).trans
          ⟨fun hc body' hash' hr' => ?_, fun hc => hc body passwordHash hr⟩
        rw [hr] at hr'
        cases hr'
        exact hc
      · refine iff_of_true (hsame ?_) fun body passwordHash hr => absurd ⟨body, passwordHash, hr⟩ hinsert
        rw [step]
        split
        · next body call hr =>
          cases call with
          | insertUser passwordHash => exact absurd ⟨body, passwordHash, hr⟩ hinsert
          | _ => simp only [perform]
        · rfl

/-- For every interleaving of registrations. -/
theorem run_single_iff (before : Panel) (actions : List Action) :
    (∀ as, as <+: actions → Single before (run (step hash localServer) ⟨before, []⟩ as)) ↔
      Along (step hash localServer) Calm ⟨before, []⟩ actions :=
  prefix_iff_along (I := Inv before) (fun _ a hi _ => inv_step hi a) (fun _ a hi hs => single_step_iff hi hs a) (inv_start before)
    ⟨Nat.le_succ _, Nat.le_succ _⟩ actions

/-- Two requests look for a user before one of them has inserted its own. -/
theorem registered_twice :
    let before : Panel := ⟨[], [], [], [], [], [], [], []⟩
    let actions : List Action :=
      [.register ⟨"a@example.com", "password", none⟩, .register ⟨"b@example.com", "password", none⟩,
      .next 0 "", .next 1 "", .next 0 "", .next 1 "", .next 0 "salt", .next 1 "salt", .next 0 "", .next 1 ""]
    ¬ Single before (run (step (fun password salt => salt ++ password) false) ⟨before, []⟩ actions) := by
  intro before actions h
  have husers := h.users
  simp [actions, run, step, perform, before, Panel.hasAnyUser, Panel.registered] at husers

end Routes

end Yeah.Accounts.Register
