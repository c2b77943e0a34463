import Yeah.Accounts.RecoveryCodes
import Yeah.Text.Space
import Yeah.Text.Uuid

namespace Yeah.Accounts.Sessions

open Runs Text

def SESSION_TTL_MS : Int := 1000 * 60 * 60 * 24 * 30

structure User where
  id : Uuid
  email : String
  passwordHash : String
  factor : RecoveryCodes.User

structure Passkey where
  credentialId : String
  userId : Uuid

/-- What a sign-in has shown. -/
inductive Proof
  | secret (password : String)
  | passkey

/-- `openedBy` and `proof` are no columns: they tell which request has inserted the row, and what it had shown. -/
structure Session where
  id : String
  userId : Uuid
  expiresAt : Int
  openedBy : Nat
  proof : Proof

structure ResetInput where
  email : Option String
  password : String
  disable2fa : Bool

/-- A request between two accesses to the database. -/
inductive Request
  /-- The row was read, the password is being checked. -/
  | login (user : User) (password : String) (code : Option String)
  /-- The recovery code was accepted, and the list without it is being written. -/
  | consume (user : User) (hash password : String)
  /-- The passkey was read, and the response is being verified. -/
  | passkey (stored : Passkey)
  /-- The passkey was accepted, and its user is being read. -/
  | owner (userId : Uuid)
  /-- `createSession` -/
  | session (userId : Uuid) (proof : Proof)
  /-- The account was found, and the new password is being hashed. -/
  | reset (target : Uuid) (input : ResetInput)
  /-- The hash was written, the sessions are still there. -/
  | written (target : Uuid)
  | done

structure State where
  users : List User
  passkeys : List Passkey
  sessions : List Session
  requests : List Request

inductive Action
  | login (email password : String) (code : Option String)
  /-- The password and the second factor are checked. -/
  | check (i : Nat) (now : Nat)
  | consume (i : Nat)
  | passkey (credentialId : String)
  | verified (i : Nat) (verified : Bool)
  | owner (i : Nat)
  /-- The id is drawn; the row of one that is taken is refused. -/
  | createSession (i : Nat) (id : String) (now : Int)
  | destroySession (id : String)
  /-- What the routes of the second factor write into a user's row. -/
  | factor (userId : Uuid) (factor : RecoveryCodes.User)
  /-- What the routes of the passkeys leave. -/
  | passkeys (rows : List Passkey)
  | reset (input : ResetInput)
  | writeHash (i : Nat) (passwordHash : String)
  | endSessions (i : Nat)

/-! ### Who is signed in -/

def State.live (s : State) (sessionId : String) (now : Int) : Option Session :=
  if sessionId = "" then none
  else (s.sessions.find? fun session => session.id = sessionId).filter fun session => ¬ session.expiresAt < now

/-- The inner join finds no row of a user that is gone. -/
def findSessionUser (s : State) (sessionId : String) (now : Int) : Option User :=
  (s.live sessionId now).bind fun session => s.users.find? fun user => user.id = session.userId

/-- The lookup of the ws service. -/
def findSessionUserId (s : State) (sessionId : String) (now : Int) : Option Uuid :=
  (s.live sessionId now).map Session.userId

/-! ### Sign-ins and resets -/

namespace State

variable (s : State)

def start (r : Request) : State := { s with requests := s.requests ++ [r] }

def move (i : Nat) (r : Request) : State := { s with requests := s.requests.set i r }

end State

section Step

variable (verify : String → String → Bool) (verifyTotp : String → String → Nat → Bool) (sha256 lower : String → String)

/-- `/login`, after the password: what follows is as in the flow of the recovery codes. -/
def afterPassword (user : User) (password : String) (code : Option String) (now : Nat) : Request :=
  match RecoveryCodes.afterPassword verifyTotp sha256 lower user.factor code now with
  | .session _ => .session user.id (.secret password)
  | .consume _ hash _ _ => .consume user hash password
  | _ => .done

/-- The account that a reset is for, or why there is none. -/
def resetTarget (users : List User) (input : ResetInput) : Except String Uuid :=
  if utf16Length input.password < 8 then .error "the password must be at least 8 characters"
  else if users = [] then .error "there are no accounts yet: open the panel and create the first one"
  else if input.email.getD "" = "" then
    match users with
    | [user] => .ok user.id
    | _ => .error ("there is more than one account; say which one: " ++ ", ".intercalate (users.map User.email))
  else
    match users.find? fun user => some (lower user.email) = input.email with
    | some user => .ok user.id
    | none => .error ("no account with the e-mail " ++ input.email.getD "")

def step (s : State) : Action → State
  | .login email password code =>
      match s.users.find? fun user => user.email = email with
      | some user => s.start (.login user password code)
      | none => s
  | .check i now =>
      match s.requests[i]? with
      | some (.login user password code) =>
          s.move i (if verify password user.passwordHash then
            afterPassword verifyTotp sha256 lower user password code now else .done)
      | _ => s
  | .consume i =>
      match s.requests[i]? with
      | some (.consume user hash password) =>
          { s.move i (.session user.id (.secret password)) with
            users := s.users.map fun u => if u.id = user.id then { u with factor := { u.factor with
              totpRecoveryHashes := some (user.factor.hashes.filter fun h => h ≠ hash) } } else u }
      | _ => s
  | .passkey credentialId =>
      match s.passkeys.find? fun p => p.credentialId = credentialId with
      | some stored => s.start (.passkey stored)
      | none => s
  | .verified i verified =>
      match s.requests[i]? with
      | some (.passkey stored) => s.move i (if verified then .owner stored.userId else .done)
      | _ => s
  | .owner i =>
      match s.requests[i]? with
      | some (.owner userId) =>
          s.move i (if s.users.any fun user => user.id = userId then .session userId .passkey else .done)
      | _ => s
  | .createSession i id now =>
      match s.requests[i]? with
      | some (.session userId proof) =>
          if s.sessions.any fun session => session.id = id then s.move i .done
          else { s.move i .done with sessions := s.sessions ++ [⟨id, userId, now + SESSION_TTL_MS, i, proof⟩] }
      | _ => s
  | .destroySession id =>
      if id = "" then s else { s with sessions := s.sessions.filter fun session => session.id ≠ id }
  | .factor userId factor =>
      { s with users := s.users.map fun user => if user.id = userId then { user with factor := factor } else user }
  | .passkeys rows => { s with passkeys := rows }
  | .reset input =>
      match resetTarget lower s.users input with
      | .ok target => s.start (.reset target input)
      | .error _ => s
  | .writeHash i passwordHash =>
      match s.requests[i]? with
      | some (.reset target input) =>
          { s.move i (.written target) with
            users := s.users.map fun user =>
              if user.id = target then
                { user with
                  passwordHash := passwordHash
                  factor := if input.disable2fa then ⟨false, none, none⟩ else user.factor }
              else user }
      | _ => s
  | .endSessions i =>
      match s.requests[i]? with
      | some (.written target) =>
          { s.move i .done with sessions := s.sessions.filter fun session => session.userId ≠ target }
      | _ => s

/-! ### What a reset leaves of the old password -/

/-- The sign-in has shown what it still could with this hash. -/
def Proof.Fresh (hash : String) : Proof → Prop
  | .secret password => verify password hash = true
  | .passkey => True

def Request.Fresh (u : Uuid) (hash : String) : Request → Prop
  | .login user _ _ => user.id = u → user.passwordHash = hash
  | .consume user _ password => user.id = u → verify password hash = true
  | .session userId proof => userId = u → proof.Fresh verify hash
  | _ => True

/-- The row of the account has this hash, and the requests from the `n`-th on know of no other. -/
structure Reset (u : Uuid) (hash : String) (n : Nat) (s : State) : Prop where
  users : ∀ user ∈ s.users, user.id = u → user.passwordHash = hash
  requests : ∀ k r, n ≤ k → s.requests[k]? = some r → r.Fresh verify u hash

/-- The sessions of the account that are not of earlier sign-ins were opened with this hash, or without one. -/
def SignedOut (u : Uuid) (hash : String) (n : Nat) (s : State) : Prop :=
  ∀ session ∈ s.sessions, session.userId = u → session.openedBy < n ∨ session.proof.Fresh verify hash

/-- No other reset of the account. -/
def Undisturbed (u : Uuid) (s : State) : Action → Prop
  | .writeHash i _ => ∀ input, s.requests[i]? ≠ some (.reset u input)
  | _ => True

variable {verify verifyTotp sha256 lower} {u : Uuid} {hash : String} {n : Nat} {s : State}

theorem Reset.start (h : Reset verify u hash n s) {r : Request} (hr : r.Fresh verify u hash) :
    Reset verify u hash n (s.start r) where
  users := h.users
  requests k q hk hq := by
    rw [State.start, List.getElem?_append] at hq
    split at hq
    · exact h.requests k q hk hq
    · rw [List.getElem?_singleton] at hq
      split at hq
      · exact Option.some.inj hq ▸ hr
      · cases hq

theorem Reset.move (h : Reset verify u hash n s) {i : Nat} {r : Request} (hr : n ≤ i → r.Fresh verify u hash) :
    Reset verify u hash n (s.move i r) where
  users := h.users
  requests k q hk hq := by
    rw [State.move, List.getElem?_set] at hq
    split at hq
    next hik =>
      split at hq
      · exact Option.some.inj hq ▸ hr (hik ▸ hk)
      · cases hq
    next => exact h.requests k q hk hq

theorem afterPassword_fresh {user : User} {password : String} (code : Option String) (now : Nat)
    (h : user.id = u → verify password hash = true) :
    (afterPassword verifyTotp sha256 lower user password code now).Fresh verify u hash := by
  rw [afterPassword]
  split
  · exact h
  · exact h
  · trivial

/-- A write of the users' rows that keeps the ids, and the hash of the account. -/
theorem Reset.update (h : Reset verify u hash n s) (f : User → User)
    (hf : ∀ user, (f user).id = user.id ∧ (user.id = u → user.passwordHash = hash → (f user).passwordHash = hash)) :
    Reset verify u hash n { s with users := s.users.map f } where
  users user huser hu := by
    obtain ⟨user', huser', rfl⟩ := List.mem_map.1 huser
    have hid : user'.id = u := (hf user').1 ▸ hu
    exact (hf user').2 hid (h.users user' huser' hid)
  requests := h.requests

theorem reset_step (h : Reset verify u hash n s) {a : Action} (ha : Undisturbed u s a) :
    Reset verify u hash n (step verify verifyTotp sha256 lower s a) := by
  cases a with
  | login email password code =>
      rw [step]
      split
      next user huser => exact h.start (h.users user (List.mem_of_find?_eq_some huser))
      next => exact h
  | check i now =>
      rw [step]
      split
      next user password code hr =>
        apply h.move
        intro hi
        split
        next hverified => exact afterPassword_fresh code now fun hu => h.requests i _ hi hr hu ▸ hverified
        next => trivial
      next => exact h
  | consume i =>
      rw [step]
      split
      next user hash' password hr =>
        have hmoved : Reset verify u hash n (s.move i (.session user.id (.secret password))) :=
          h.move fun hi => (h.requests i (.consume user hash' password) hi hr :)
        apply hmoved.update
        intro user'
        split
        · exact ⟨rfl, fun _ h => h⟩
        · exact ⟨rfl, fun _ h => h⟩
      next => exact h
  | passkey credentialId =>
      rw [step]
      split
      · exact h.start trivial
      · exact h
  | verified i verified =>
      rw [step]
      split
      · apply h.move
        intro _
        split <;> trivial
      · exact h
  | owner i =>
      rw [step]
      split
      · apply h.move
        intro _
        split
        · exact fun _ => trivial
        · trivial
      · exact h
  | createSession i id now =>
      have hmoved : Reset verify u hash n (s.move i .done) := h.move fun _ => trivial
      rw [step]
      split
      · split
        · exact hmoved
        · exact ⟨hmoved.users, hmoved.requests⟩
      · exact h
  | destroySession id =>
      rw [step]
      split
      · exact h
      · exact ⟨h.users, h.requests⟩
  | factor userId factor =>
      apply h.update
      intro user
      split
      · exact ⟨rfl, fun _ h => h⟩
      · exact ⟨rfl, fun _ h => h⟩
  | passkeys rows => exact ⟨h.users, h.requests⟩
  | reset input =>
      rw [step]
      split
      · exact h.start trivial
      · exact h
  | writeHash i passwordHash =>
      rw [step]
      split
      next target input hr =>
        have hne : target ≠ u := fun he => ha input (he ▸ hr)
        have hmoved : Reset verify u hash n (s.move i (.written target)) := h.move fun _ => trivial
        apply hmoved.update
        intro user
        split
        next hid => exact ⟨rfl, fun hu _ => absurd (hid.symm.trans hu) hne⟩
        next => exact ⟨rfl, fun _ h => h⟩
      next => exact h
  | endSessions i =>
      have hmoved : Reset verify u hash n (s.move i .done) := h.move fun _ => trivial
      rw [step]
      split
      · exact ⟨hmoved.users, hmoved.requests⟩
      · exact h

/-- Sessions go, or come from a request that knows the new hash. -/
theorem step_sessions (a : Action) {session : Session}
    (hsession : session ∈ (step verify verifyTotp sha256 lower s a).sessions) :
    session ∈ s.sessions ∨ s.requests[session.openedBy]? = some (.session session.userId session.proof) := by
  cases a with
  | createSession i id now =>
      rw [step] at hsession
      split at hsession
      next userId proof hr =>
        split at hsession
        next => exact Or.inl hsession
        next =>
          rcases List.mem_append.1 hsession with hold | hnew
          · exact Or.inl hold
          · obtain rfl := List.mem_singleton.1 hnew
            exact Or.inr hr
      next => exact Or.inl hsession
  | destroySession id =>
      rw [step] at hsession
      split at hsession
      · exact Or.inl hsession
      · exact Or.inl (List.mem_of_mem_filter hsession)
  | endSessions i =>
      rw [step] at hsession
      split at hsession
      · exact Or.inl (List.mem_of_mem_filter hsession)
      · exact Or.inl hsession
  | factor userId factor | passkeys rows => exact Or.inl hsession
  | _ =>
      rw [step] at hsession
      split at hsession <;> exact Or.inl hsession

theorem signedOut_step (h : Reset verify u hash n s) (hout : SignedOut verify u hash n s) (a : Action) :
    SignedOut verify u hash n (step verify verifyTotp sha256 lower s a) := by
  intro session hsession hu
  rcases step_sessions a hsession with hold | hopened
  · exact hout session hold hu
  · rcases Nat.lt_or_ge session.openedBy n with hlt | hle
    · exact Or.inl hlt
    · exact Or.inr (h.requests _ _ hle hopened hu)

theorem reset_written {i : Nat} {input : ResetInput} (hi : s.requests[i]? = some (.reset u input)) (hash : String) :
    Reset verify u hash s.requests.length (step verify verifyTotp sha256 lower s (.writeHash i hash)) := by
  rw [step, hi]
  constructor
  · intro user huser hu
    obtain ⟨user', -, rfl⟩ := List.mem_map.1 huser
    split at hu
    next hid => rw [if_pos hid]
    next hid => exact absurd hu hid
  · intro k r hk hr
    have hlength : (s.requests.set i (.written u)).length ≤ k := by rwa [List.length_set]
    have hnone : (s.requests.set i (.written u))[k]? = none := List.getElem?_eq_none hlength
    cases hnone.symm.trans hr

theorem mem_endSessions {j : Nat} (hj : s.requests[j]? = some (.written u)) (session : Session) :
    session ∈ (step verify verifyTotp sha256 lower s (.endSessions j)).sessions ↔
      session ∈ s.sessions ∧ session.userId ≠ u := by
  rw [step, hj]
  dsimp only
  rw [List.mem_filter, decide_eq_true_eq]

theorem reset_run (h : Reset verify u hash n s) {as : List Action}
    (has : Along (step verify verifyTotp sha256 lower) (Undisturbed u) s as) :
    Reset verify u hash n (run (step verify verifyTotp sha256 lower) s as) :=
  along_invariant (fun s a (hs : Reset verify u hash n s) (ha : Undisturbed u s a) => reset_step hs ha) h has

theorem signedOut_run (h : Reset verify u hash n s) (hout : SignedOut verify u hash n s) {as : List Action}
    (has : Along (step verify verifyTotp sha256 lower) (Undisturbed u) s as) :
    SignedOut verify u hash n (run (step verify verifyTotp sha256 lower) s as) :=
  (along_invariant (fun s a (hs : Reset verify u hash n s ∧ SignedOut verify u hash n s) ha =>
    ⟨reset_step hs.1 ha, signedOut_step hs.1 hs.2 a⟩) ⟨h, hout⟩ has).2

/-- The session that either lookup finds. -/
theorem live_of_find {id : String} {now : Int}
    (h : (findSessionUser s id now).map User.id = some u ∨ findSessionUserId s id now = some u) :
    ∃ session ∈ s.sessions, session.id = id ∧ session.userId = u ∧ ¬ session.expiresAt < now := by
  have hlive : ∃ session, s.live id now = some session ∧ session.userId = u := by
    rcases h with h | h
    · obtain ⟨user, huser, rfl⟩ := Option.map_eq_some_iff.1 h
      obtain ⟨session, hsession, hfind⟩ := Option.bind_eq_some_iff.1 huser
      have hid := List.find?_some hfind
      exact ⟨session, hsession, (of_decide_eq_true hid).symm⟩
    · exact Option.map_eq_some_iff.1 h
  obtain ⟨session, hsession, hu⟩ := hlive
  rw [State.live] at hsession
  split at hsession
  · cases hsession
  · obtain ⟨hfind, hexpires⟩ := Option.filter_eq_some_iff.1 hsession
    have hid := List.find?_some hfind
    exact ⟨session, List.mem_of_find?_eq_some hfind, of_decide_eq_true hid, hu, of_decide_eq_true hexpires⟩

end Step

section

variable (verify : String → String → Bool) (verifyTotp : String → String → Nat → Bool) (sha256 lower : String → String)

/-- A reset signs out everyone who is signed in to the account, and nobody else. From then on, whatever the requests do
in between, the API and the ws service take nobody for its user but those who signed in with a passkey, with the new
password, or by a sign-in that had begun before the new hash was written. -/
theorem reset_signs_out {s₁ s₂ s₃ s₄ : State} {u : Uuid} {input : ResetInput} (s : State) (i j : Nat) (hash : String)
    (as bs : List Action) (hi : s.requests[i]? = some (.reset u input))
    (h₁ : s₁ = step verify verifyTotp sha256 lower s (.writeHash i hash))
    (h₂ : s₂ = run (step verify verifyTotp sha256 lower) s₁ as)
    (has : Along (step verify verifyTotp sha256 lower) (Undisturbed u) s₁ as)
    (hj : s₂.requests[j]? = some (.written u))
    (h₃ : s₃ = step verify verifyTotp sha256 lower s₂ (.endSessions j))
    (h₄ : s₄ = run (step verify verifyTotp sha256 lower) s₃ bs)
    (hbs : Along (step verify verifyTotp sha256 lower) (Undisturbed u) s₃ bs) :
    (∀ session, session ∈ s₃.sessions ↔ session ∈ s₂.sessions ∧ session.userId ≠ u) ∧
    ∀ id now, (findSessionUser s₄ id now).map User.id = some u ∨ findSessionUserId s₄ id now = some u →
      ∃ session ∈ s₄.sessions, session.id = id ∧ session.userId = u ∧ ¬ session.expiresAt < now ∧
        (session.openedBy < s.requests.length ∨ session.proof.Fresh verify hash) := by
  subst h₁ h₂ h₃ h₄
  refine ⟨mem_endSessions hj, fun id now hfind => ?_⟩
  have hwritten := reset_run (reset_written hi hash) has
  have hended : Reset verify u hash s.requests.length (step verify verifyTotp sha256 lower
      (run (step verify verifyTotp sha256 lower) (step verify verifyTotp sha256 lower s (.writeHash i hash)) as)
      (.endSessions j)) := reset_step hwritten trivial
  have hout : SignedOut verify u hash s.requests.length
      (step verify verifyTotp sha256 lower
        (run (step verify verifyTotp sha256 lower) (step verify verifyTotp sha256 lower s (.writeHash i hash)) as)
        (.endSessions j)) :=
    fun session hsession hu => absurd hu ((mem_endSessions hj session).1 hsession).2
  obtain ⟨session, hsession, hid, hu, hexpires⟩ := live_of_find hfind
  exact ⟨session, hsession, hid, hu, hexpires, signedOut_run hended hout hbs session hsession hu⟩

/-- The account of a lost password, and someone who is signed in with it. -/
def lost : State where
  users := [⟨Uuid.fill 'a' Uuid.isAlphanum_a, "admin@example.com", "old", ⟨false, none, none⟩⟩]
  passkeys := []
  sessions := [⟨"stolen", Uuid.fill 'a' Uuid.isAlphanum_a, 1, 0, .secret "old"⟩]
  requests := [.reset (Uuid.fill 'a' Uuid.isAlphanum_a) ⟨none, "new password", false⟩]

theorem reset_signs_out_lost :
    ∃ session ∈ (run (step (fun password hash => password = hash) (fun _ _ _ => false) id id) lost
        [.writeHash 0 "new", .endSessions 0, .login "admin@example.com" "new" none, .check 1 0,
          .createSession 1 "mine" 0]).sessions,
      session.id = "mine" ∧ session.userId = Uuid.fill 'a' Uuid.isAlphanum_a ∧ ¬ session.expiresAt < 0 ∧
        (session.openedBy < 1 ∨ session.proof.Fresh (fun password hash => password = hash) "new") :=
  (reset_signs_out (fun password hash => password = hash) (fun _ _ _ => false) id id lost 0 0 "new" []
    [.login "admin@example.com" "new" none, .check 1 0, .createSession 1 "mine" 0] rfl rfl rfl trivial rfl rfl rfl
    ⟨trivial, trivial, trivial, trivial⟩).2 "mine" 0 (Or.inr rfl)

end

end Yeah.Accounts.Sessions
