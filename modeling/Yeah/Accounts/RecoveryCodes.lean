import Yeah.Runs
import Yeah.Tables
import Yeah.Text.Space

namespace Yeah.Accounts.RecoveryCodes

open Runs Text

/-- The two-factor columns of a user; the hashes of the unused recovery codes are a JSON array. -/
structure User where
  totpEnabled : Bool
  totpSecret : Option String
  totpRecoveryHashes : Option (List String)
  deriving DecidableEq

def User.hashes (user : User) : List String := user.totpRecoveryHashes.getD []

/-- A null secret and an empty one are alike. -/
def User.secret (user : User) : Option String := user.totpSecret.filter fun secret => secret ≠ ""

/-- What `checkSecondFactor` finds: an authenticator code, or an unused recovery code, which is then to be consumed. -/
inductive Factor (user : User)
  | totp
  | recovery (hash : String) (unused : hash ∈ user.hashes)
  | refused

/-- A request between two accesses to the database. -/
inductive Request
  /-- The row was read, the password is being checked. -/
  | login (user : User) (code : Option String)
  | disable (user : User) (code : String)
  /-- The recovery code was accepted, and the list without it is being written. -/
  | consume (user : User) (hash : String) (unused : hash ∈ user.hashes) (login : Bool)
  /-- `createSession`, after a recovery code or without one. -/
  | session (hash : Option String)
  | setup (secret : String)
  | enable
  | reset
  | done

/-- The row, the requests in flight, and what has happened: the hashes that were ever stored, those of the recovery codes
that were accepted, and those of the recovery codes behind the sessions. -/
structure State where
  user : User
  requests : List Request
  issued : List String
  used : List String
  logins : List String

def start (user : User) : State := ⟨user, [], user.hashes, [], []⟩

inductive Action
  /-- The select of each route. -/
  | login (code : Option String)
  | setup (secret : String)
  | enable (code : String) (now : Nat)
  | disable (code : String)
  /-- The password of a request has been checked. -/
  | password (i : Nat) (correct : Bool) (now : Nat)
  /-- The next write of a request; the codes are those that `enable` draws. -/
  | write (i : Nat) (codes : List String)

namespace State

variable (s : State)

def start (r : Request) : State := { s with requests := s.requests ++ [r] }

def move (i : Nat) (r : Request) : State := { s with requests := s.requests.set i r }

end State

section Routes

variable (verifyTotp : String → String → Nat → Bool) (sha256 lower : String → String)

def hashRecoveryCode (code : String) : String := sha256 (lower (trim code))

def checkSecondFactor (user : User) (code : String) (now : Nat) : Factor user :=
  if user.secret.any fun secret => verifyTotp secret (trim code) now then .totp
  else if h : hashRecoveryCode sha256 lower code ∈ user.hashes then .recovery _ h
  else .refused

/-- `/login`, after the password. -/
def afterPassword (user : User) (code : Option String) (now : Nat) : Request :=
  if user.totpEnabled ∧ user.secret.isSome then
    match code.filter fun code => code ≠ "" with
    | none => .done
    | some code =>
        match checkSecondFactor verifyTotp sha256 lower user code now with
        | .totp => .session none
        | .recovery hash unused => .consume user hash unused true
        | .refused => .done
  else .session none

/-- `/2fa/disable`, after the password. -/
def afterPasswordDisable (user : User) (code : String) (now : Nat) : Request :=
  match checkSecondFactor verifyTotp sha256 lower user code now with
  | .totp => .reset
  | .recovery hash unused => .consume user hash unused false
  | .refused => .done

def Fresh (s : State) (codes : List String) : Prop :=
  ∀ code ∈ codes, hashRecoveryCode sha256 lower code ∉ s.issued

instance (s : State) (codes : List String) : Decidable (Fresh sha256 lower s codes) :=
  inferInstanceAs (Decidable (∀ code ∈ codes, _))

def step (s : State) : Action → State
  | .login code => s.start (.login s.user code)
  | .setup secret => if s.user.totpEnabled then s else s.start (.setup secret)
  | .enable code now =>
      if s.user.totpEnabled then s
      else if s.user.secret.any fun secret => verifyTotp secret code now then s.start .enable
      else s
  | .disable code => if s.user.totpEnabled then s.start (.disable s.user code) else s
  | .password i correct now =>
      match s.requests[i]? with
      | some (.login user code) => s.move i (if correct then afterPassword verifyTotp sha256 lower user code now else .done)
      | some (.disable user code) => s.move i (if correct then afterPasswordDisable verifyTotp sha256 lower user code now else .done)
      | _ => s
  | .write i codes =>
      match s.requests[i]? with
      | some (.consume user hash _ login) =>
          { s.move i (if login then .session (some hash) else .reset) with
            user := { s.user with totpRecoveryHashes := some (user.hashes.filter fun h => h ≠ hash) }
            used := s.used ++ [hash] }
      | some (.session hash) => { s.move i .done with logins := s.logins ++ hash.toList }
      | some (.setup secret) => { s.move i .done with user := { s.user with totpSecret := some secret } }
      | some .enable =>
          if Fresh sha256 lower s codes then
            { s.move i .done with
              user :=
                { s.user with totpEnabled := true, totpRecoveryHashes := some (codes.map (hashRecoveryCode sha256 lower)) }
              issued := s.issued ++ codes.map (hashRecoveryCode sha256 lower) }
          else s
      | some .reset => { s.move i .done with user := ⟨false, none, none⟩ }
      | _ => s

/-- A recovery code opens one session at most, and a code that was used is not stored again. -/
structure Once (s : State) : Prop where
  logins : s.logins.Nodup
  gone : ∀ h ∈ s.used, h ∉ s.user.hashes

/-- The same for every use of a code, that to switch the second factor off too. -/
structure Spent (s : State) : Prop where
  once : s.used.Nodup
  gone : ∀ h ∈ s.used, h ∉ s.user.hashes

/-- When a recovery code is consumed, no code of the list that the request has read was used since. -/
def Calm (s : State) : Action → Prop
  | .write i _ => ∀ user hash unused login, s.requests[i]? = some (.consume user hash unused login) → ∀ h ∈ user.hashes, h ∉ s.used
  | _ => True

def Request.held : Request → List String
  | .login user _ | .disable user _ | .consume user _ _ _ => user.hashes
  | _ => []

def Request.opens (h : String) : Request → Bool
  | .session hash => hash = some h
  | _ => false

structure Inv (s : State) : Prop where
  user : ∀ h ∈ s.user.hashes, h ∈ s.issued
  used : ∀ h ∈ s.used, h ∈ s.issued
  held : ∀ r ∈ s.requests, ∀ h ∈ r.held, h ∈ s.issued
  logins : ∀ h, s.logins.count h + s.requests.countP (Request.opens h) ≤ s.used.count h

variable {verifyTotp sha256 lower} {s : State}

theorem inv_start (user : User) : Inv (start user) where
  user _ h := h
  used _ h := by cases h
  held _ h := by cases h
  logins _ := by simp [start]

/-- A route begins: it knows at most what is stored. -/
theorem Inv.start (h : Inv s) {r : Request} (hheld : ∀ c ∈ r.held, c ∈ s.user.hashes)
    (hopens : ∀ c, r.opens c = false) :
    Inv (s.start r) where
  user := h.user
  used := h.used
  held q hq c hc := by
    rcases List.mem_append.1 hq with hq | hq
    · exact h.held q hq c hc
    · exact h.user c (hheld c (List.mem_singleton.1 hq ▸ hc))
  logins c := by
    rw [State.start, List.countP_append, List.countP_singleton, hopens c]
    exact h.logins c

theorem held_move (h : Inv s) {i : Nat} {r r' : Request} (hr : s.requests[i]? = some r)
    (hheld : ∀ c ∈ r'.held, c ∈ r.held) :
    ∀ q ∈ (s.move i r').requests, ∀ c ∈ q.held, c ∈ s.issued := by
  intro q hq c hc
  rcases List.mem_or_eq_of_mem_set hq with hq | rfl
  · exact h.held q hq c hc
  · exact h.held r (List.mem_of_getElem? hr) c (hheld c hc)

theorem opens_move {i : Nat} {r : Request} (hr : s.requests[i]? = some r) (r' : Request) (c : String) :
    (s.move i r').requests.countP (Request.opens c) + (if r.opens c then 1 else 0) =
      s.requests.countP (Request.opens c) + if r'.opens c then 1 else 0 :=
  Tables.countP_set _ hr r'

theorem logins_move (h : Inv s) {i : Nat} {r r' : Request} (hr : s.requests[i]? = some r)
    (hopens : ∀ c, r'.opens c = false) (c : String) :
    s.logins.count c + (s.move i r').requests.countP (Request.opens c) ≤ s.used.count c := by
  have hcount := opens_move hr r' c
  have hlogins := h.logins c
  rw [hopens c, if_neg Bool.false_ne_true] at hcount
  omega

/-- A request that opens no session for a code goes on. -/
theorem Inv.move (h : Inv s) {i : Nat} {r r' : Request} (hr : s.requests[i]? = some r)
    (hheld : ∀ c ∈ r'.held, c ∈ r.held)
    (hopens : ∀ c, r'.opens c = false) {user : User} (huser : ∀ c ∈ user.hashes, c ∈ s.user.hashes) :
    Inv { s.move i r' with user := user } where
  user c hc := h.user c (huser c hc)
  used := h.used
  held := held_move h hr hheld
  logins := logins_move h hr hopens

theorem Inv.consume (h : Inv s) {i : Nat} {user : User} {hash : String} {unused : hash ∈ user.hashes}
    {login : Bool}
    (hr : s.requests[i]? = some (.consume user hash unused login)) :
    Inv { s.move i (if login then .session (some hash) else .reset) with
      user := { s.user with totpRecoveryHashes := some (user.hashes.filter fun h => h ≠ hash) }
      used := s.used ++ [hash] } where
  user c hc := h.held _ (List.mem_of_getElem? hr) c (List.mem_of_mem_filter hc)
  used c hc := by
    rcases List.mem_append.1 hc with hc | hc
    · exact h.used c hc
    · exact h.held _ (List.mem_of_getElem? hr) c (List.mem_singleton.1 hc ▸ unused)
  held := held_move h hr fun c hc => by cases login <;> cases hc
  logins c := by
    have hcount := opens_move hr (if login then .session (some hash) else .reset) c
    have hlogins := h.logins c
    have hopens : (if (if login then Request.session (some hash) else .reset).opens c then 1 else 0) ≤ [hash].count c := by
      cases login with
      | false => exact Nat.zero_le _
      | true => simp [Request.opens, List.count_singleton]
    change s.logins.count c + (s.move i _).requests.countP (Request.opens c) ≤ (s.used ++ [hash]).count c
    rw [List.count_append]
    rw [show (Request.consume user hash unused login).opens c = false from rfl,
      if_neg Bool.false_ne_true] at hcount
    omega

theorem Inv.session (h : Inv s) {i : Nat} {hash : Option String}
    (hr : s.requests[i]? = some (.session hash)) :
    Inv { s.move i .done with logins := s.logins ++ hash.toList } where
  user := h.user
  used := h.used
  held := held_move h hr fun c hc => by cases hc
  logins c := by
    have hcount := opens_move hr .done c
    have hlogins := h.logins c
    have hopens : hash.toList.count c = if (Request.session hash).opens c then 1 else 0 := by
      cases hash with
      | none => rfl
      | some hash => simp [Request.opens, List.count_singleton]
    change (s.logins ++ hash.toList).count c + (s.move i .done).requests.countP (Request.opens c) ≤ s.used.count c
    rw [List.count_append, hopens]
    rw [show Request.done.opens c = false from rfl, if_neg Bool.false_ne_true] at hcount
    omega

theorem Inv.enable (h : Inv s) {i : Nat} (hr : s.requests[i]? = some .enable) (secret : Option String)
    (hashes : List String) :
    Inv { s.move i .done with user := ⟨true, secret, some hashes⟩, issued := s.issued ++ hashes } where
  user c hc := List.mem_append_right _ hc
  used c hc := List.mem_append_left _ (h.used c hc)
  held r hm c hc := List.mem_append_left _ (held_move h hr (fun _ hd => by cases hd) r hm c hc)
  logins := logins_move h hr fun _ => rfl

/-- What follows the password of a request that has read `user`. -/
def Follows (user : User) (r : Request) : Prop := (∀ c ∈ r.held, c ∈ user.hashes) ∧ ∀ c, r.opens c = false

theorem follows_afterPassword (user : User) (code : Option String) (now : Nat) :
    Follows user (afterPassword verifyTotp sha256 lower user code now) := by
  have hdone : Follows user .done := ⟨fun c hc => (by cases hc), fun _ => rfl⟩
  have hsession : Follows user (.session none) := ⟨fun c hc => (by cases hc), fun _ => rfl⟩
  rw [afterPassword]
  split
  · split
    · exact hdone
    · split
      · exact hsession
      · exact ⟨fun c hc => hc, fun _ => rfl⟩
      · exact hdone
  · exact hsession

theorem follows_afterPasswordDisable (user : User) (code : String) (now : Nat) :
    Follows user (afterPasswordDisable verifyTotp sha256 lower user code now) := by
  rw [afterPasswordDisable]
  split
  · exact ⟨fun c hc => (by cases hc), fun _ => rfl⟩
  · exact ⟨fun c hc => hc, fun _ => rfl⟩
  · exact ⟨fun c hc => (by cases hc), fun _ => rfl⟩

theorem Inv.password (h : Inv s) {i : Nat} {r r' : Request} {user : User} (hr : s.requests[i]? = some r)
    (hheld : r.held = user.hashes) (hf : Follows user r') (correct : Bool) :
    Inv (s.move i (if correct then r' else .done)) := by
  cases correct with
  | false => exact h.move hr (fun c hc => by cases hc) (fun _ => rfl) fun c hc => hc
  | true => exact h.move hr (fun c hc => hheld ▸ hf.1 c hc) hf.2 fun c hc => hc

theorem inv_step (h : Inv s) (a : Action) : Inv (step verifyTotp sha256 lower s a) := by
  cases a with
  | login code => exact h.start (fun c hc => hc) fun _ => rfl
  | setup secret =>
      rw [step]
      split
      · exact h
      · exact h.start (fun c hc => by cases hc) fun _ => rfl
  | enable code now =>
      rw [step]
      split
      · exact h
      · split
        · exact h.start (fun c hc => by cases hc) fun _ => rfl
        · exact h
  | disable code =>
      rw [step]
      split
      · exact h.start (fun c hc => hc) fun _ => rfl
      · exact h
  | password i correct now =>
      rw [step]
      split
      · next user code hr => exact h.password hr rfl (follows_afterPassword user code now) correct
      · next user code hr => exact h.password hr rfl (follows_afterPasswordDisable user code now) correct
      · exact h
  | write i codes =>
      rw [step]
      split
      · next user hash unused login hr => exact h.consume hr
      · next hash hr => exact h.session hr
      · next secret hr => exact h.move hr (fun c hc => by cases hc) (fun _ => rfl) fun c hc => hc
      · next hr =>
        split
        · exact h.enable hr _ _
        · exact h
      · next hr => exact h.move hr (fun c hc => by cases hc) (fun _ => rfl) fun c hc => by cases hc
      · exact h

/-- The write without the code: no code of the list that was read may be among the used ones. -/
theorem spent_consume_iff (h : Spent s) {i : Nat} {user : User} {hash : String}
    (unused : hash ∈ user.hashes) {r : Request} :
    Spent { s.move i r with
        user := { s.user with totpRecoveryHashes := some (user.hashes.filter fun h => h ≠ hash) }
        used := s.used ++ [hash] } ↔ ∀ h ∈ user.hashes, h ∉ s.used := by
  constructor
  · intro hs c hc hu
    by_cases he : c = hash
    · exact (List.nodup_append.1 hs.once).2.2 c hu hash (List.mem_singleton_self hash) he
    · exact hs.gone c (List.mem_append_left _ hu) (List.mem_filter.2 ⟨hc, decide_eq_true he⟩)
  · intro hc
    refine ⟨List.nodup_append.2 ⟨h.once, List.nodup_singleton hash, fun c hu d hd he => ?_⟩,
      fun c hu hf => ?_⟩
    · rw [List.mem_singleton] at hd
      exact hc hash unused (hd ▸ he ▸ hu)
    · obtain ⟨hm, hne⟩ := List.mem_filter.1 hf
      rcases List.mem_append.1 hu with hu | hu
      · exact hc c hm hu
      · exact of_decide_eq_true hne (List.mem_singleton.1 hu)

theorem spent_iff_true (h : Spent s) {s' : State} (hused : s'.used = s.used)
    (huser : ∀ c ∈ s'.user.hashes, c ∈ s.used → c ∈ s.user.hashes) :
    Spent s' ↔ True := by
  refine iff_true_intro ⟨hused ▸ h.once, fun c hc hm => ?_⟩
  rw [hused] at hc
  exact h.gone c hc (huser c hm hc)

theorem spent_step_iff (hi : Inv s) (h : Spent s) (a : Action) :
    Spent (step verifyTotp sha256 lower s a) ↔ Calm s a := by
  have hsame : Spent s ↔ True := iff_true_intro h
  have hkept {r : List Request} {logins : List String} {secret : Option String} :
      Spent ⟨{ s.user with totpSecret := secret }, r, s.issued, s.used, logins⟩ ↔ True :=
        spent_iff_true h rfl fun c hc _ => hc
  have hother {i : Nat} {codes : List String} {r : Request} (hr : s.requests[i]? = some r)
      (hn : ∀ user hash unused login, r ≠ .consume user hash unused login) :
      Calm s (.write i codes) ↔ True := by
    refine iff_true_intro fun user hash unused login hr' => ?_
    rw [hr] at hr'
    exact absurd (Option.some_inj.1 hr') (hn user hash unused login)
  cases a with
  | login code => exact hkept
  | setup secret =>
      rw [step]
      split
      · exact hsame
      · exact hkept
  | enable code now =>
      rw [step]
      split
      · exact hsame
      · split
        · exact hkept
        · exact hsame
  | disable code =>
      rw [step]
      split
      · exact hkept
      · exact hsame
  | password i correct now =>
      rw [step]
      split
      · exact hkept
      · exact hkept
      · exact hsame
  | write i codes =>
      rw [step]
      split
      · next user hash unused login hr =>
        rw [spent_consume_iff h unused]
        refine ⟨fun hc user' hash' unused' login' hr' => ?_, fun hc => hc user hash unused login hr⟩
        rw [hr] at hr'
        cases hr'
        exact hc
      · next hr => exact hkept.trans (hother hr fun _ _ _ _ he => by cases he).symm
      · next hr => exact hkept.trans (hother hr fun _ _ _ _ he => by cases he).symm
      · next hr =>
        refine Iff.trans ?_ (hother hr fun _ _ _ _ he => by cases he).symm
        split
        · next hfresh =>
          refine spent_iff_true h rfl fun c hc hu => absurd (hi.used c hu) ?_
          obtain ⟨code, hcode, rfl⟩ := List.mem_map.1 hc
          exact hfresh code hcode
        · exact hsame
      · next hr =>
        refine Iff.trans ?_ (hother hr fun _ _ _ _ he => by cases he).symm
        exact spent_iff_true h rfl fun c hc _ => absurd hc List.not_mem_nil
      · next hn _ _ _ _ => exact hsame.trans (iff_true_intro fun user hash unused login hr => absurd hr (hn user hash unused login)).symm

/-- For every interleaving of logins and of requests to the two-factor settings. -/
theorem run_once (user : User) (actions : List Action) :
    ((∀ before, before <+: actions → Spent (run (step verifyTotp sha256 lower) (start user) before)) ↔
      Along (step verifyTotp sha256 lower) Calm (start user) actions) ∧
    (Along (step verifyTotp sha256 lower) Calm (start user) actions →
      ∀ before, before <+: actions → Once (run (step verifyTotp sha256 lower) (start user) before)) := by
  have hstart : Spent (start user) := ⟨List.nodup_nil, fun h hu => by cases hu⟩
  have hspent : (∀ before, before <+: actions → Spent (run (step verifyTotp sha256 lower) (start user) before)) ↔
      Along (step verifyTotp sha256 lower) Calm (start user) actions :=
    prefix_iff_along (I := Inv) (fun _ a hi _ => inv_step hi a) (fun _ a hi h => spent_step_iff hi h a) (inv_start user) hstart actions
  refine ⟨hspent, fun h before hb => ?_⟩
  have hs := hspent.2 h before hb
  have hi : Inv (run (step verifyTotp sha256 lower) (start user) before) :=
    along_invariant (I := Inv) (fun _ a hi _ => inv_step hi a) (inv_start user) (along_true _ before)
  refine ⟨List.nodup_iff_count_le_one.2 fun c => ?_, hs.gone⟩
  have hlogins := hi.logins c
  have hused := List.nodup_iff_count_le_one.1 hs.once c
  omega

end Routes

section Instances

/-- Two logins read the row before one of them consumes the code. -/
theorem accepted_twice :
    let actions : List Action :=
      [.login (some "code"), .login (some "code"), .password 0 true 0, .password 1 true 0,
      .write 0 [], .write 1 [], .write 0 [], .write 1 []]
    ¬ Once (run (step (fun _ _ _ => false) (fun _ => "hash") id) (start ⟨true, some "secret", some ["hash"]⟩) actions) := by
  intro actions h
  have hafter : afterPassword (fun _ _ _ => false) (fun _ => "hash") id ⟨true, some "secret", some ["hash"]⟩ (some "code") 0 =
      .consume ⟨true, some "secret", some ["hash"]⟩ "hash" (List.mem_singleton_self _) true := by
    simp [afterPassword, checkSecondFactor, hashRecoveryCode, User.secret, User.hashes, Option.filter]
  have hlogins := h.logins
  simp [actions, run, step, start, State.start, State.move, hafter] at hlogins

end Instances

end Yeah.Accounts.RecoveryCodes
