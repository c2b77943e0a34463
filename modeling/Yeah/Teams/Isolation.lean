import Yeah.Teams.Unattended

namespace Yeah.Teams

open Relational Resumption Databases Deploy

/-! ### The programs of the api and of the jobs -/

/-- What a request of a session starts. -/
inductive SessionRoute (user : Option Nat) : Route → Prop
  | postTeam : SessionRoute user (postTeam user)
  | putSecurity (t b) : SessionRoute user (putSecurity user t b)
  | setTwoFactor (b e) : SessionRoute user (setTwoFactor user b e)
  | postProject (t) : SessionRoute user (postProject user t)
  | postEnvironment (t i) : SessionRoute user (postEnvironment user t i)
  | postSshKey (t e) : SessionRoute user (postSshKey user t e)
  | postGitSource (t e) : SessionRoute user (postGitSource user t e)
  | postRegistry (t e) : SessionRoute user (postRegistry user t e)
  | postStorage (t) : SessionRoute user (postStorage user t)
  | postTag (t e) : SessionRoute user (postTag user t e)
  | deleteSshKey (t i) : SessionRoute user (deleteSshKey user t i)
  | deleteGitSource (t i) : SessionRoute user (deleteGitSource user t i)
  | deleteRegistry (t i) : SessionRoute user (deleteRegistry user t i)
  | deleteStorage (t i) : SessionRoute user (deleteStorage user t i)
  | deleteTag (t i) : SessionRoute user (deleteTag user t i)
  | postServer (t s b k) : SessionRoute user (postServer user t s b k)
  | createVps (t k s r) : SessionRoute user (createVps user t k s r)
  | putServerColumns (t i s e) : SessionRoute user (putServerColumns user t i s e)
  | deleteServer (t i) : SessionRoute user (deleteServer user t i)
  | postApplication (p b i e) : SessionRoute user (postApplication user p b i e)
  | putSource (p i r g b e) : SessionRoute user (putSource user p i r g b e)
  | putServer (p i s f b) : SessionRoute user (putServer user p i s f b)
  | clone (p i n s e) : SessionRoute user (clone user p i n s e)
  | putPreview (p i b) : SessionRoute user (putPreview user p i b)
  | putRegistry (p i r s e) : SessionRoute user (putRegistry user p i r s e)
  | putBuildServer (p i s) : SessionRoute user (putBuildServer user p i s)
  | moveApplication (p i n) : SessionRoute user (moveApplication user p i n)
  | putColumns (p i e) : SessionRoute user (putColumns user p i e)
  | deleteApplication (p i) : SessionRoute user (deleteApplication user p i)
  | postVolume (p i m e) : SessionRoute user (postVolume user p i m e)
  | deleteVolume (p i v) : SessionRoute user (deleteVolume user p i v)
  | postDatabase (p s g n b e) : SessionRoute user (postDatabase user p s g n b e)
  | connect (p i a m e) : SessionRoute user (connect user p i a m e)
  | deleteDatabase (p i) : SessionRoute user (deleteDatabase user p i)
  | postBackupSchedule (p i s e r) : SessionRoute user (postBackupSchedule user p i s e r)
  | putBackupSchedule (p i b s e) : SessionRoute user (putBackupSchedule user p i b s e)
  | deleteBackupSchedule (p i b) : SessionRoute user (deleteBackupSchedule user p i b)
  | postService (p s n b e) : SessionRoute user (postService user p s n b e)
  | deleteService (p i) : SessionRoute user (deleteService user p i)
  | postVolumeBackup (p i v s e) : SessionRoute user (postVolumeBackup user p i v s e)
  | postServiceVolumeBackup (p i s e) : SessionRoute user (postServiceVolumeBackup user p i s e)
  | restoreVolumeBackup (p i b e) : SessionRoute user (restoreVolumeBackup user p i b e)
  | restoreServiceVolumeBackup (p i b e) : SessionRoute user (restoreServiceVolumeBackup user p i b e)
  | deleteVolumeBackup (p i b) : SessionRoute user (deleteVolumeBackup user p i b)
  | deleteServiceVolumeBackup (p i b) : SessionRoute user (deleteServiceVolumeBackup user p i b)
  | postSharedVariable (t s e) : SessionRoute user (postSharedVariable user t s e)
  | deleteSharedVariable (t i) : SessionRoute user (deleteSharedVariable user t i)
  | assignTags (t k i l) : SessionRoute user (assignTags user t k i l)

inductive Started : Actor → Route → Prop
  | session {user : Option Nat} {k : Route} (h : SessionRoute user k) : Started (actorOf user) k
  | register (localhost refusal) : Started .nobody (register localhost refusal)
  | moveResource (t k i n) : Started (.token t) (moveResource t k i n)
  | handlePullRequestEvent (pr) : Started .nobody (handlePullRequestEvent pr)
  | serverJob (i s) : Started .nobody (serverJob i s)
  | applicationJob (i s) : Started .nobody (applicationJob i s)

theorem safe_teamRow {make : TeamRow → Row} {user : Option Nat} {teamId : Nat} {refusal : Option (Nat × String)} {db : Db}
    (hmake : ∀ r, (make r).references = Row.cascade .teams r.teamId ∧ (make r).mentions = []) :
    SafeFor (actorOf user) (postTeamRow make user teamId refusal) db := by
  refine safe_postTeamRow fun r => ⟨?_, ?_⟩
  · rw [Row.links, (hmake r).1, (hmake r).2]
    rfl
  · rw [(hmake r).1]
    exact List.cons_ne_nil _ _

theorem safe_sessionRoute {user : Option Nat} {k : Route} (h : SessionRoute user k) (db : Db) :
    SafeFor (actorOf user) k db := by
  cases h with
  | postTeam => exact safe_postTeam
  | putSecurity => exact safe_putSecurity _
  | setTwoFactor => exact safe_setTwoFactor _ _
  | postProject => exact safe_postProject
  | postEnvironment => exact safe_postEnvironment _
  | postSshKey | postGitSource | postRegistry | postStorage | postTag => exact safe_teamRow fun _ => ⟨rfl, rfl⟩
  | deleteSshKey => exact safe_deleteSshKey _
  | deleteGitSource | deleteRegistry | deleteStorage | deleteTag =>
      exact safe_deleteTeamRow (not_lasting Table.noConfusion Table.noConfusion Table.noConfusion) fun _ => trivial
  | postServer => exact safe_postServer _ _ _
  | createVps => exact safe_createVps _ _ _
  | putServerColumns => exact safe_putServerColumns _ _
  | deleteServer => exact safe_deleteServer _
  | postApplication => exact safe_postApplication _ _
  | putSource => exact safe_putSource _ _ _
  | putServer => exact safe_putServer _ _ _
  | clone => exact safe_clone _ _
  | putPreview => exact safe_putPreview _
  | putRegistry => exact safe_putRegistry _ _
  | putBuildServer => exact safe_putBuildServer _
  | moveApplication => exact safe_moveApplication _
  | putColumns => exact safe_putColumns _
  | deleteApplication => exact safe_deleteApplication
  | postVolume => exact safe_postVolume _
  | deleteVolume => exact safe_deleteVolume _
  | postDatabase => exact safe_postDatabase _ _ _ _
  | connect => exact safe_connect _ _
  | deleteDatabase => exact safe_deleteDatabase
  | postBackupSchedule => exact safe_postBackupSchedule _ _ _
  | putBackupSchedule => exact safe_putBackupSchedule _ _
  | deleteBackupSchedule => exact safe_deleteBackupSchedule _
  | postService => exact safe_postService _ _ _
  | deleteService => exact safe_deleteService
  | postVolumeBackup => exact safe_postVolumeBackup _ _
  | postServiceVolumeBackup => exact safe_postServiceVolumeBackup _
  | restoreVolumeBackup => exact safe_restoreVolumeBackup _
  | restoreServiceVolumeBackup => exact safe_restoreServiceVolumeBackup _
  | deleteVolumeBackup => exact safe_deleteVolumeBackup _
  | deleteServiceVolumeBackup => exact safe_deleteServiceVolumeBackup _
  | postSharedVariable => exact safe_postSharedVariable _
  | deleteSharedVariable => exact safe_deleteSharedVariable _
  | assignTags => exact safe_assignTags _ _

theorem safe_started {a : Actor} {k : Route} (h : Started a k) (db : Db) : SafeFor a k db := by
  cases h with
  | session h => exact safe_sessionRoute h db
  | register => exact safe_register _
  | moveResource => exact safe_moveResource _ _ _ _
  | handlePullRequestEvent => exact safe_handlePullRequestEvent _
  | serverJob => exact safe_serverJob _ _
  | applicationJob => exact safe_applicationJob _ _

/-! ### The team of a row -/

/-- The column `team_id`. -/
def Row.teamColumn : Row → Option Nat
  | teamMember r => some r.teamId
  | project r | sshKey r | gitSource r | registry r | s3Storage r | tag r => some r.teamId
  | server r => some r.teamId
  | application r => some r.teamId
  | database r => some r.teamId
  | service r => some r.teamId
  | volumeBackup r => some r.teamId
  | sharedVariable r => some r.teamId
  | _ => none

/-- The row that a row without the column is of. -/
def Row.parent : Row → Option Key
  | environment r => some (.projects, r.projectId)
  | applicationVolume r => some (.applications, r.applicationId)
  | backupSchedule r => some (.databases, r.databaseId)
  | resourceTag r => some (.tags, r.tagId)
  | _ => none

def teamOf (db : Db) (k : Key) : Option Nat :=
  match db.find k with
  | none => none
  | some (.team _) => some k.2
  | some r => r.teamColumn.or (r.parent.bind fun j => (db.find j).bind Row.teamColumn)

theorem Row.teamColumn_references {r : Row} {t : Nat} (h : r.teamColumn = some t) : ((.teams, t), true) ∈ r.references := by
  cases r <;> simp only [Row.teamColumn, Option.some.injEq, reduceCtorEq] at h <;> subst h <;> exact List.mem_cons_self

theorem Row.parent_references {r : Row} {j : Key} (h : r.parent = some j) : (j, true) ∈ r.references := by
  cases r <;> simp only [Row.parent, Option.some.injEq, reduceCtorEq] at h <;> subst h <;> exact List.mem_cons_self

section Team

variable {db : Db} {t : Nat} {k : Key} {r : Row}

theorem Sound.owner_of_teamColumn (hs : Sound db) (hr : db.find k = some r) (h : r.teamColumn = some t) :
    db.owner k.2 = some t := hs.owner_of_team hr (Row.teamColumn_references h)

/-- What a row is of has the column. -/
theorem Sound.teamColumn_parent (hs : Sound db) (hr : db.find k = some r) {j : Key} (h : r.parent = some j) :
    ∃ q u, db.find j = some q ∧ q.teamColumn = some u := by
  obtain ⟨q, hq⟩ := hs.intact.target hr (Row.parent_references h)
  have htable := hs.typed j q hq
  refine ⟨q, ?_⟩
  cases r <;> simp only [Row.parent, Option.some.injEq, reduceCtorEq] at h <;> subst h <;> cases q <;>
    simp only [Row.table, reduceCtorEq] at htable <;> exact ⟨_, hq, rfl⟩

theorem Sound.owner_parent (hs : Sound db) (hr : db.find k = some r) {j : Key} (h : r.parent = some j) :
    db.owner j.2 = db.owner k.2 := by
  refine hs.linked k r hr j (mem_links.2 (Or.inl ⟨_, Row.parent_references h, rfl⟩)) ?_
  cases r <;> simp only [Row.parent, Option.some.injEq, reduceCtorEq] at h <;> subst h <;> exact Table.noConfusion

theorem teamOf_eq_owner (hs : Sound db) (hr : db.find k = some r) (hk : k.1 ≠ .users) : teamOf db k = db.owner k.2 := by
  have hcolumn : ∀ u, r.teamColumn = some u → r.teamColumn = db.owner k.2 := fun u hu =>
    hu.trans (hs.owner_of_teamColumn hr hu).symm
  have hparent : ∀ j, r.parent = some j → (db.find j).bind Row.teamColumn = db.owner k.2 := by
    intro j hj
    obtain ⟨q, u, hq, hu⟩ := hs.teamColumn_parent hr hj
    rw [hq, Option.bind_some, hu]
    exact (hs.owner_of_teamColumn hq hu).symm.trans (hs.owner_parent hr hj)
  rw [teamOf, hr]
  cases r with
  | team r => exact (hs.own k _ hr rfl).symm
  | user r => exact absurd (hs.typed k _ hr).symm hk
  | environment r | applicationVolume r | backupSchedule r | resourceTag r => exact hparent _ rfl
  | _ => exact hcolumn _ rfl

theorem owner_of_teamOf (hs : Sound db) (h : teamOf db k = some t) : db.owner k.2 = some t := by
  cases hr : db.find k with
  | none =>
      rw [teamOf, hr] at h
      cases h
  | some r =>
      by_cases hk : k.1 = .users
      · have htable := hs.typed k r hr
        rw [hk] at htable
        rw [teamOf, hr] at h
        cases r <;> simp only [Row.table, reduceCtorEq] at htable
        cases h
      · exact (teamOf_eq_owner hs hr hk).symm.trans h

end Team

/-! ### Runs -/

structure Arrival where
  actor : Actor
  program : Route
  started : Started actor program

inductive Step
  | arrive (a : Arrival)
  | go (i : Nat)

def Step.move : Step → Move Db Answer Actor
  | arrive a => .start a.actor a.program
  | go i => .go i

/-- The state and the programs under way after the steps, whatever their order. -/
def after (db : Db) (steps : List Step) : System Db Answer Actor := Runs.run System.step ⟨db, []⟩ (steps.map Step.move)

theorem starts (step : Step) : Starts Later Sound Allowed step.move := by
  cases step with
  | arrive a => exact fun db _ => safe_started a.started db
  | go i => trivial

theorem sound_start {db : Db} (hs : Sound db) : Resumption.Sound (ρ := Answer) Later Sound Allowed ⟨db, []⟩ :=
  ⟨hs, fun _ he => by cases he⟩

theorem sound_after {db : Db} (hs : Sound db) (steps : List Step) :
    Resumption.Sound Later Sound Allowed (after db steps) := by
  refine sound_run rules Later.refl (sound_start hs) fun m hm => ?_
  obtain ⟨step, -, rfl⟩ := List.mem_map.1 hm
  exact starts step

def Db.empty : Db := ⟨[], 0, fun _ => none⟩

theorem sound_empty : Sound .empty where
  intact := ⟨List.nodup_nil, fun _ _ h => by cases h⟩
  fresh := fun _ _ h => by cases h
  typed := fun _ _ h => by cases h
  unique := fun _ _ _ _ h => by cases h
  bounded := fun _ _ => rfl
  owned := fun _ _ h => by cases h
  own := fun _ _ h => by cases h
  linked := fun _ _ h => by cases h

/-- Every row but a user's is of a team that is there, and what it refers to or names, if it is there, is of that team. -/
structure Apart (db : Db) : Prop where
  team : ∀ k r, db.find k = some r → k.1 ≠ .users → ∃ t q, teamOf db k = some t ∧ db.find (.teams, t) = some q
  references : ∀ k r, db.find k = some r → ∀ e ∈ r.references, ∃ q, db.find e.1 = some q
  linked : ∀ k r, db.find k = some r → ∀ l ∈ r.links, l.1 ≠ .users → ∀ q, db.find l = some q → teamOf db l = teamOf db k

theorem Sound.team_exists {db : Db} (hs : Sound db) {k : Key} {r : Row} (hr : db.find k = some r) (hk : k.1 ≠ .users) :
    ∃ t q, db.owner k.2 = some t ∧ db.find (.teams, t) = some q := by
  have hteam : ∀ {j : Key} {p : Row} {t : Nat}, db.find j = some p → p.teamColumn = some t →
      ∃ q, db.owner j.2 = some t ∧ db.find (.teams, t) = some q := by
    intro j p t hp hcolumn
    obtain ⟨q, hq⟩ := hs.intact.target hp (Row.teamColumn_references hcolumn)
    exact ⟨q, hs.owner_of_teamColumn hp hcolumn, hq⟩
  cases hcolumn : r.teamColumn with
  | some t => exact ⟨t, hteam hr hcolumn⟩
  | none =>
      cases hparent : r.parent with
      | some j =>
          obtain ⟨p, t, hp, ht⟩ := hs.teamColumn_parent hr hparent
          exact ⟨t, hs.owner_parent hr hparent ▸ hteam hp ht⟩
      | none =>
          have htable : k.1 = .teams := by
            rw [← hs.typed k r hr] at hk ⊢
            cases r <;> simp only [Row.teamColumn, Row.parent, reduceCtorEq] at hcolumn hparent
            · rfl
            · exact absurd rfl hk
          refine ⟨k.2, r, hs.own k r hr (references_eq_nil.2 (Or.inl ((hs.typed k r hr).trans htable))), ?_⟩
          rw [← htable]
          exact hr

theorem Sound.apart {db : Db} (hs : Sound db) : Apart db where
  team := fun k r hr hk => by
    obtain ⟨t, q, howner, hq⟩ := hs.team_exists hr hk
    exact ⟨t, q, (teamOf_eq_owner hs hr hk).trans howner, hq⟩
  references := fun _ _ hr _ he => hs.intact.target hr he
  linked := fun k r hr l hl hne q hq => by
    have hk : k.1 ≠ .users := by
      rintro hk
      have htable := (hs.typed k r hr).trans hk
      cases r <;> simp only [Row.table, reduceCtorEq] at htable
      cases hl
    rw [teamOf_eq_owner hs hq hne, teamOf_eq_owner hs hr hk]
    exact hs.linked k r hr l hl hne

/-- However the requests, webhooks and jobs interleave, nothing of a team leads to another's. -/
theorem teams_apart (steps : List Step) : Apart (after .empty steps).state := (sound_after sound_empty steps).1.apart

/-! ### Requests of others -/

/-- The actor has no business with the team. -/
def Outside (db : Db) (t : Nat) : Actor → Prop
  | .user id => ¬ IsMember db t id
  | .token teamId => teamId ≠ t
  | .nobody => False

/-- A move of an outsider leaves what is the team's in the end as it is. -/
theorem Allowed.outside {db d e : Db} {t : Nat} {a : Actor} (hs : Sound db) (ha : Allowed a db d) (hd : Later d e)
    (hout : Outside e t a) {q : Row} (hteam : db.find (.teams, t) = some q) {k : Key} (hk : e.owner k.2 = some t) :
    d.find k = db.find k := by
  rcases ha with rfl | ⟨u, hmay, htouches⟩
  · rfl
  · refine htouches.confined k fun hu => ?_
    obtain rfl : u = t := Option.some.inj ((hd.owner _ _ hu).symm.trans hk)
    cases a with
    | user id =>
        rcases hmay with (⟨k, m, hm, hmember⟩ | ⟨rfl, r, hr⟩) | hmake
        · exact hout ⟨k, m, hd.member k m hm, hmember⟩
        · obtain ⟨q', hq'⟩ := htouches.later.lasting _ q (Or.inl rfl) hteam
          cases htouches.sound.unique _ _ _ _ hr hq' rfl
        · have hown := hs.own _ _ hteam (references_eq_nil.2 (Or.inl (hs.typed _ _ hteam)))
          cases hmake.symm.trans hown
    | token teamId => exact hout (hmay.resolve_right id).symm
    | nobody => exact hout

/-- Nothing of the team `t`, as it is in `e`, changes on the way from `db` to `d`. -/
structure Spares (t : Nat) (e db d : Db) : Prop where
  later : Later db d
  same : Later d e → (∃ q, db.find (.teams, t) = some q) → ∀ k, e.owner k.2 = some t → d.find k = db.find k

theorem Spares.trans {t : Nat} {e a b c : Db} (h : Spares t e a b) (h' : Spares t e b c) : Spares t e a c where
  later := h.later.trans h'.later
  same := fun hc ⟨q, hq⟩ k hk => by
    have hb := h.same (h'.later.trans hc) ⟨q, hq⟩ k hk
    exact (h'.same hc (h.later.lasting _ q (Or.inl rfl) hq) k hk).trans hb

theorem spares_after {db : Db} {t : Nat} (hs : Sound db) (steps : List Step)
    (hout : ∀ a, .arrive a ∈ steps → Outside (after db steps).state t a.actor) :
    Spares t (after db steps).state db (after db steps).state := by
  refine related_run rules Later.refl (R := Spares t (after db steps).state) (fun d => ⟨Later.refl d, fun _ _ _ _ => rfl⟩)
    (fun _ _ _ => Spares.trans) (A := Outside (after db steps).state t) (fun a d e ha hd hok => ⟨rules.goes a d e hok, ?_⟩) (sound_start hs)
    (fun e he => by cases he) (fun m hm => ?_) fun a p hp => ?_
  · rintro hlater ⟨q, hq⟩ k hk
    exact hok.outside hd hlater ha hq hk
  · obtain ⟨step, -, rfl⟩ := List.mem_map.1 hm
    exact starts step
  · obtain ⟨step, hstep, hmove⟩ := List.mem_map.1 hp
    cases step with
    | arrive a' =>
        obtain ⟨rfl, rfl⟩ := Move.start.inj hmove
        exact hout a' hstep
    | go i => cases hmove

/-- Whatever the users who are no members of a team and the tokens of the other teams do, and in whatever order, the team
keeps its rows as they are and gets no new one. -/
theorem outsiders_change_nothing {db : Db} (hs : Sound db) {t : Nat} {q : Row} (hteam : db.find (.teams, t) = some q)
    (steps : List Step) (hout : ∀ a, .arrive a ∈ steps → Outside (after db steps).state t a.actor) (k : Key)
    (hk : teamOf db k = some t ∨ teamOf (after db steps).state k = some t) : (after db steps).state.find k = db.find k := by
  have hspares := spares_after hs steps hout
  refine hspares.same (Later.refl _) ⟨q, hteam⟩ k ?_
  rcases hk with hk | hk
  · exact hspares.later.owner _ _ (owner_of_teamOf hs hk)
  · exact owner_of_teamOf (sound_after hs steps).1 hk

/-! An account with two teams, one of them with an application -/

def localhost : Server where
  name := "localhost"
  memPercent := none
  diskPercent := none
  metricsCheckedAt := none
  teamId := 0
  sshKeyId := none
  status := "connected"
  proxyStatus := "none"
  wildcardDomain := none

def request {user : Option Nat} {k : Route} (h : SessionRoute user k) : Step := .arrive ⟨_, k, .session h⟩

def setup : List Step :=
  [.arrive ⟨.nobody, _, .register (some localhost) none⟩] ++ List.replicate 8 (.go 0) ++
    [request (@SessionRoute.postTeam (some 0))] ++ List.replicate 8 (.go 1) ++
    [request (@SessionRoute.postApplication (some 0) ⟨1, 3, 4⟩ ⟨5, .nixpacks, none, none, none, false, none⟩ none none)] ++
    List.replicate 8 (.go 2) ++ [request (@SessionRoute.postEnvironment (some 0) 1 3)] ++ List.replicate 8 (.go 3)

def twoTeams : Db := (after .empty setup).state

/-- A token of the first team moves the application to the other environment of its project. -/
def tokenMove : List Step := [.arrive ⟨_, _, .moveResource 1 .application 10 11⟩, .go 0, .go 0]

theorem outsiders_change_nothing_tokenMove :
    (after twoTeams tokenMove).state.find (.projects, 8) = twoTeams.find (.projects, 8) := by
  refine outsiders_change_nothing (sound_after sound_empty setup).1 (q := .team ⟨false⟩) (t := 6) rfl tokenMove ?_ _ (Or.inl rfl)
  intro a ha
  obtain rfl : a = ⟨_, _, .moveResource 1 .application 10 11⟩ := by simpa [tokenMove] using ha
  exact (by decide : (1 : Nat) ≠ 6)

end Yeah.Teams
