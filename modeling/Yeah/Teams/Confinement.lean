import Yeah.Teams.Boundary

namespace Yeah.Teams

open Relational Resumption Deploy

/-! ### What a move may do -/

/-- Who a program acts for: the user of a session, the team of an API token, or nobody (a webhook, a job, the
registration). -/
inductive Actor
  | user (id : Nat)
  | token (teamId : Nat)
  | nobody

def IsMember (db : Db) (teamId userId : Nat) : Prop :=
  ∃ k m, db.find k = some (.teamMember m) ∧ m.teamId = teamId ∧ m.userId = userId

/-- A user may change what belongs to a team of theirs, or their own row; a token what belongs to its team. -/
def May (db : Db) (t : Nat) : Actor → Prop
  | .user id => IsMember db t id ∨ t = id ∧ ∃ r, db.find (.users, id) = some r
  | .token teamId => t = teamId
  | .nobody => True

/-- A user may also make a team. -/
def MayMake (db : Db) (t : Nat) : Actor → Prop
  | .user _ => db.owner t = none
  | _ => False

/-- A move changes nothing, or only what belongs to one team that its actor may change or makes. -/
def Allowed (a : Actor) (db d : Db) : Prop :=
  d = db ∨ ∃ t, (May d t a ∨ MayMake db t a) ∧ Touches t db d

abbrev SafeFor (a : Actor) (route : Route) (db : Db) : Prop := Resumption.Safe Later Sound (Allowed a) route db

theorem rules : Rules Later Sound Allowed where
  trans := fun _ _ _ => Later.trans
  goes := by
    rintro a s t (rfl | ⟨u, -, h⟩)
    · exact Later.refl _
    · exact h.later
  keeps := by
    rintro a s t hs (rfl | ⟨u, -, h⟩)
    · exact hs
    · exact h.sound

section Queries

variable {a : Actor} {db : Db} {t : Nat}

theorem May.later {d : Db} (h : May db t a) (hd : Later db d) : May d t a := by
  cases a with
  | user id =>
      rcases h with ⟨k, m, hk, hm⟩ | ⟨hown, r, hr⟩
      · exact Or.inl ⟨k, m, hd.member k m hk, hm⟩
      · exact Or.inr ⟨hown, hd.lasting _ r (Or.inr (Or.inl rfl)) hr⟩
  | token teamId => exact h
  | nobody => trivial

theorem safe_select {k : Db → Route} (h : ∀ d, Later db d → Sound d → SafeFor a (k d) d) : SafeFor a (select k) db :=
  fun d hd hs => ⟨Or.inl rfl, h d hd hs⟩

theorem safe_execute {f : Db → Option Db} {k : Db → Route}
    (h : ∀ d, Later db d → Sound d → ∀ e, f d = some e → Allowed a d e ∧ SafeFor a (k d) e) : SafeFor a (execute f k) db := by
  intro d hd hs
  dsimp only
  cases hf : f d with
  | none => exact ⟨Or.inl rfl, trivial⟩
  | some e => exact h d hd hs e hf

theorem safe_create {r : Row} {k : Nat → Route} (hmay : May db t a) (hr : r.references ≠ [])
    (hlinks : ∀ l ∈ r.links, l.1 ≠ .users → db.owner l.2 = some t)
    (h : ∀ d id, Later db d → Sound d → d.owner id = some t → SafeFor a (k id) d) : SafeFor a (create r k) db := by
  refine safe_execute fun d hd hs e he => ?_
  obtain ⟨htouches, howner⟩ := touches_insert hs he (fun l hl hu => hd.owner _ _ (hlinks l hl hu)) fun hnil => absurd hnil hr
  exact ⟨Or.inr ⟨t, Or.inl (hmay.later (hd.trans htouches.later)), htouches⟩,
    h e d.next (hd.trans htouches.later) htouches.sound howner⟩

theorem safe_createAll {rs : List Row} {k : Route} (hmay : May db t a)
    (hrs : ∀ d, Later db d → Sound d → ∀ r ∈ rs, r.references ≠ [] ∧ ∀ l ∈ r.links, l.1 ≠ .users → d.owner l.2 = some t)
    (h : ∀ d, Later db d → Sound d → SafeFor a k d) : SafeFor a (createAll rs k) db := by
  refine safe_execute fun d hd hs e he => ?_
  have htouches := touches_insertAll hs he (hrs d hd hs)
  exact ⟨Or.inr ⟨t, Or.inl (hmay.later (hd.trans htouches.later)), htouches⟩, h e (hd.trans htouches.later) htouches.sound⟩

theorem safe_change {key : Key} {f : Row → Row} {k : Route} (hmay : May db t a) (howner : db.owner key.2 = some t)
    (hkey : key.1 ≠ .teamMembers) (hf : ∀ r, (f r).table = r.table ∧ ∀ l ∈ (f r).links, l ∈ r.links ∨ db.owner l.2 = some t)
    (h : ∀ d, Later db d → Sound d → SafeFor a k d) : SafeFor a (change key f k) db := by
  refine safe_execute fun d hd hs e he => ?_
  have htouches := touches_update hs he (hd.owner _ _ howner) hkey fun r =>
    ⟨(hf r).1, fun l hl => ((hf r).2 l hl).imp_right (hd.owner _ _)⟩
  exact ⟨Or.inr ⟨t, Or.inl (hmay.later (hd.trans htouches.later)), htouches⟩, h e (hd.trans htouches.later) htouches.sound⟩

theorem safe_remove {key : Key} {k : Route} (hmay : May db t a) (howner : db.owner key.2 = some t) (hkey : ¬ Lasting key.1)
    (h : ∀ d, Later db d → Sound d → SafeFor a k d) : SafeFor a (remove key k) db := by
  intro d hd hs
  have htouches := touches_delete hs (hd.owner _ _ howner) hkey
  exact ⟨Or.inr ⟨t, Or.inl (hmay.later (hd.trans htouches.later)), htouches⟩, h _ (hd.trans htouches.later) htouches.sound⟩

theorem safe_removeWhere {p : Row → Bool} {k : Route} (hmay : May db t a)
    (hp : ∀ d, Later db d → Sound d → ∀ key r, d.find key = some r → p r = true → d.owner key.2 = some t ∧ ¬ Lasting key.1)
    (h : ∀ d, Later db d → Sound d → SafeFor a k d) : SafeFor a (removeWhere p k) db := by
  intro d hd hs
  have htouches := touches_deleteWhere hs (hp d hd hs)
  exact ⟨Or.inr ⟨t, Or.inl (hmay.later (hd.trans htouches.later)), htouches⟩, h _ (hd.trans htouches.later) htouches.sound⟩

theorem safe_unlessRefused {refusal : Option (Nat × String)} {k : Route} (h : SafeFor a k db) :
    SafeFor a (unlessRefused refusal k) db := by
  cases refusal with
  | none => exact h
  | some refusal => trivial

end Queries

section Access

variable {a : Actor} {db : Db} {t : Nat}

def actorOf : Option Nat → Actor
  | some id => .user id
  | none => .nobody

theorem isMember_of_assertMember (hs : Sound db) {userId : Nat} (h : assertMember db t userId = true) :
    IsMember db t userId := by
  rw [assertMember, Bool.and_eq_true] at h
  obtain ⟨⟨k, r⟩, he, hr⟩ := List.any_eq_true.1 h.1
  dsimp only at hr
  split at hr
  next m => exact ⟨k, m, find_of_mem hs.intact.nodup he, of_decide_eq_true hr⟩
  next => cases hr

/-- A team with a member is there. -/
theorem IsMember.owner (hs : Sound db) {userId : Nat} (h : IsMember db t userId) : db.owner t = some t := by
  obtain ⟨k, m, hm, rfl, -⟩ := h
  obtain ⟨q, hq⟩ := hs.intact.target hm (e := ((.teams, m.teamId), true)) List.mem_cons_self
  exact hs.own _ _ hq (references_eq_nil.2 (Or.inl (hs.typed _ _ hq)))

theorem isMember_of_assertTeamAdmin (hs : Sound db) {userId : Nat} (h : assertTeamAdmin db t userId = true) :
    IsMember db t userId := by
  rw [assertTeamAdmin] at h
  obtain ⟨⟨k, r⟩, he, hr⟩ := List.any_eq_true.1 h
  dsimp only at hr
  split at hr
  next m =>
    obtain ⟨hteam, huser, -⟩ := of_decide_eq_true hr
    exact ⟨k, m, find_of_mem hs.intact.nodup he, hteam, huser⟩
  next => cases hr

theorem owner_of_teamRowIn (hs : Sound db) {key : Key} (h : teamRowIn db key t = true) : db.owner key.2 = some t := by
  obtain ⟨r, hr, hteam⟩ : ∃ r, (db.find key).bind Row.teamRow = some r ∧ decide (r.teamId = t) = true := by
    rw [teamRowIn] at h
    cases hr : (db.find key).bind Row.teamRow with
    | none =>
        rw [hr] at h
        cases h
    | some r =>
        rw [hr] at h
        exact ⟨r, rfl, h⟩
  obtain ⟨row, hrow, hteamRow⟩ := Option.bind_eq_some_iff.1 hr
  obtain rfl := of_decide_eq_true hteam
  refine hs.owner_of_team (b := true) hrow ?_
  cases row <;> simp only [Row.teamRow, Option.some.injEq, reduceCtorEq] at hteamRow <;> subst hteamRow <;>
    exact List.mem_cons_self

theorem owner_of_environment (hs : Sound db) {environmentId : Nat} {e : Environment}
    (he : db.find (.environments, environmentId) = some (.environment e)) (hp : db.owner e.projectId = some t) :
    db.owner environmentId = some t := by
  have hlinked := hs.linked _ _ he (.projects, e.projectId)
    (mem_links.2 (Or.inl ⟨_, List.mem_singleton_self _, rfl⟩)) Table.noConfusion
  exact hlinked.symm.trans hp

theorem owner_of_environmentInTeam (hs : Sound db) {environmentId : Nat} (h : environmentInTeam db environmentId t = true) :
    db.owner environmentId = some t := by
  rw [environmentInTeam] at h
  split at h
  next e he => exact owner_of_environment hs he (owner_of_teamRowIn hs h)
  next => cases h

theorem safe_signedIn {user : Option Nat} {k : Nat → User → Route}
    (h : ∀ d id r, Later db d → Sound d → user = some id → d.find (.users, id) = some (.user r) → SafeFor (.user id) (k id r) d) :
    SafeFor (actorOf user) (signedIn user k) db := by
  cases user with
  | none => trivial
  | some id =>
      refine safe_select fun d hd hs => ?_
      split
      next r hr => exact h d id r hd hs rfl hr
      next => trivial

theorem safe_member {user : Option Nat} {k : Route}
    (h : ∀ d, Later db d → Sound d → May d t (actorOf user) → d.owner t = some t → SafeFor (actorOf user) k d) :
    SafeFor (actorOf user) (member user t k) db := by
  refine safe_signedIn fun c id _ hc _ hid _ => safe_select fun d hd hs => ?_
  split
  next hm =>
    subst hid
    have hmember := isMember_of_assertMember hs hm
    exact h d (hc.trans hd) hs (Or.inl hmember) (hmember.owner hs)
  next => trivial

theorem safe_findTeamRow {key : Key} {error : String} {k : Route}
    (h : ∀ d, Later db d → Sound d → d.owner key.2 = some t → SafeFor a k d) : SafeFor a (findTeamRow key t error k) db := by
  refine safe_select fun d hd hs => ?_
  split
  next hr => exact h d hd hs (owner_of_teamRowIn hs hr)
  next => trivial

theorem safe_findEnvironment {environmentId : Nat} {error : String} {k : Route}
    (h : ∀ d, Later db d → Sound d → d.owner environmentId = some t → SafeFor a k d) :
    SafeFor a (findEnvironment environmentId t error k) db := by
  refine safe_select fun d hd hs => ?_
  split
  next he => exact h d hd hs (owner_of_environmentInTeam hs he)
  next => trivial

theorem safe_findServer {id : Nat} {error : String} {k : Server → Route}
    (h : ∀ d r, Later db d → Sound d → d.owner id = some t → SafeFor a (k r) d) : SafeFor a (findServer id t error k) db := by
  refine safe_select fun d hd hs => ?_
  split
  next r hr =>
    split
    next hteam =>
      have howner := hs.owner_of_team (u := r.teamId) (b := true) hr (List.mem_append_left _ (List.mem_singleton_self _))
      exact h d r hd hs (hteam ▸ howner)
    next => trivial
  next => trivial

section Environment

variable {user : Option Nat} {p : Params}

theorem safe_requireEnvironmentScope {k : Route}
    (h : ∀ d, Later db d → Sound d → d.owner p.environmentId = some p.teamId → SafeFor a k d) :
    SafeFor a (requireEnvironmentScope p k) db := by
  refine safe_select fun d hd hs => ?_
  split
  next hscope =>
    rw [Bool.and_eq_true, isEnvironmentOf] at hscope
    obtain ⟨hof, hteam⟩ := hscope
    refine h d hd hs ?_
    split at hof
    next e he =>
      have hproject : e.projectId = p.projectId := of_decide_eq_true hof
      exact owner_of_environment hs he (hproject ▸ owner_of_teamRowIn hs hteam)
    next => cases hof
  next => trivial

theorem safe_loadEnvironment {k : Route} (h : ∀ d, Later db d → Sound d → SafeFor a k d) :
    SafeFor a (loadEnvironment p k) db := by
  refine safe_findTeamRow fun d hd hs _ => safe_select fun e he hs' => ?_
  split
  next => exact h e (hd.trans he) hs'
  next => trivial

theorem safe_inEnvironment {k : Route}
    (h : ∀ d, Later db d → Sound d → May d p.teamId (actorOf user) → d.owner p.teamId = some p.teamId →
      d.owner p.environmentId = some p.teamId → SafeFor (actorOf user) k d) :
    SafeFor (actorOf user) (inEnvironment user p k) db :=
  safe_requireEnvironmentScope fun _ hd _ henv => safe_member fun e he hs hmay hteam =>
    h e (hd.trans he) hs hmay hteam (he.owner _ _ henv)

/-- What a route below a resource has found out. -/
structure Loaded (db : Db) (user : Option Nat) (p : Params) (id : Nat) (r : Row) : Prop where
  sound : Sound db
  may : May db p.teamId (actorOf user)
  environment : db.owner p.environmentId = some p.teamId
  owner : db.owner id = some p.teamId
  links : ∀ l ∈ r.links, l.1 ≠ .users → db.owner l.2 = some p.teamId

theorem Loaded.later {id : Nat} {r : Row} {d : Db} (h : Loaded db user p id r) (hd : Later db d) (hs : Sound d) :
    Loaded d user p id r where
  sound := hs
  may := h.may.later hd
  environment := hd.owner _ _ h.environment
  owner := hd.owner _ _ h.owner
  links := fun l hl hu => hd.owner _ _ (h.links l hl hu)

/-- A resource of an environment of the team is the team's. -/
theorem loaded {k : Key} {r : Row} (hs : Sound db) (hmay : May db p.teamId (actorOf user))
    (henv : db.owner p.environmentId = some p.teamId) (hr : db.find k = some r) (hlink : (.environments, p.environmentId) ∈ r.links) :
    Loaded db user p k.2 r := by
  have howner := (hs.linked k r hr _ hlink Table.noConfusion).symm.trans henv
  exact ⟨hs, hmay, henv, howner, fun l hl hu => (hs.linked k r hr l hl hu).trans howner⟩

theorem safe_onApplication {id : Nat} {k : Application → Route}
    (h : ∀ d r, Later db d → Loaded d user p id (.application r) → r.teamId = p.teamId → SafeFor (actorOf user) (k r) d) :
    SafeFor (actorOf user) (onApplication user p id k) db := by
  refine safe_inEnvironment fun d hd _ hmay _ henv => safe_select fun e he hs => ?_
  split
  next r hr =>
    split
    next hload =>
      have hlink : (.environments, p.environmentId) ∈ (Row.application r).links :=
        hload.1 ▸ mem_links.2 (Or.inl ⟨((.environments, r.environmentId), true), by simp [Row.references, Row.cascade], rfl⟩)
      have hloaded := loaded hs (hmay.later he) (he.owner _ _ henv) hr hlink
      refine h e r (hd.trans he) hloaded ?_
      have hteam := hs.owner_of_team (u := r.teamId) (b := true) hr (by simp [Row.references, Row.cascade])
      exact Option.some.inj (hteam.symm.trans hloaded.owner)
    next => trivial
  next => trivial

theorem safe_onDatabase {id : Nat} {k : Database → Route}
    (h : ∀ d r, Later db d → Loaded d user p id (.database r) → SafeFor (actorOf user) (k r) d) :
    SafeFor (actorOf user) (onDatabase user p id k) db := by
  refine safe_inEnvironment fun d hd _ hmay _ henv => safe_select fun e he hs => ?_
  split
  next r hr =>
    split
    next hload =>
      have hlink : (.environments, p.environmentId) ∈ (Row.database r).links :=
        hload.1 ▸ mem_links.2 (Or.inl ⟨((.environments, r.environmentId), true), by simp [Row.references, Row.cascade], rfl⟩)
      exact h e r (hd.trans he) (loaded hs (hmay.later he) (he.owner _ _ henv) hr hlink)
    next => trivial
  next => trivial

theorem safe_onService {id : Nat} {k : Service → Route}
    (h : ∀ d r, Later db d → Loaded d user p id (.service r) → r.teamId = p.teamId → SafeFor (actorOf user) (k r) d) :
    SafeFor (actorOf user) (onService user p id k) db := by
  refine safe_inEnvironment fun d hd _ hmay _ henv => safe_select fun e he hs => ?_
  split
  next r hr =>
    split
    next hload =>
      have hlink : (.environments, p.environmentId) ∈ (Row.service r).links :=
        hload.1 ▸ mem_links.2 (Or.inl ⟨((.environments, r.environmentId), true), by simp [Row.references, Row.cascade], rfl⟩)
      have hloaded := loaded hs (hmay.later he) (he.owner _ _ henv) hr hlink
      refine h e r (hd.trans he) hloaded ?_
      have hteam := hs.owner_of_team (u := r.teamId) (b := true) hr (by simp [Row.references, Row.cascade])
      exact Option.some.inj (hteam.symm.trans hloaded.owner)
    next => trivial
  next => trivial

end Environment

end Access

end Yeah.Teams
