import Yeah.Teams.Confinement

namespace Yeah.Teams

open Relational Resumption Databases Deploy

section Routes

variable {user : Option Nat} {teamId : Nat} {p : Params} {id : Nat} {db : Db} {refusal : Option (Nat × String)}

/-! ### Teams and projects -/

theorem safe_createDefaultProject {a : Actor} {t : Nat} {k : Route} (hmay : May db t a) (ht : db.owner t = some t)
    (h : ∀ d, Later db d → Sound d → SafeFor a k d) : SafeFor a (createDefaultProject t k) db := by
  refine safe_create hmay (List.cons_ne_nil _ _) (fun l hl _ => ?_) fun d _ hd _ hproject => ?_
  · obtain rfl := List.mem_singleton.1 hl
    exact ht
  · refine safe_create (hmay.later hd) (List.cons_ne_nil _ _) (fun l hl _ => ?_) fun e _ he hs _ => h e (hd.trans he) hs
    obtain rfl := List.mem_singleton.1 hl
    exact hproject

theorem safe_createTeam {userId : Nat} {k : Nat → Route} {a : Actor} (ha : a = .user userId ∨ a = .nobody)
    (h : ∀ d t, Later db d → Sound d → May d t a → d.owner t = some t → SafeFor a (k t) d) :
    SafeFor a (createTeam userId k) db := by
  refine safe_execute fun d hd hs e he => ?_
  obtain ⟨htouches, howner⟩ := touches_insert hs he (fun l hl _ => by cases hl) fun _ => rfl
  have hmake : May e d.next a ∨ MayMake d d.next a := by
    rcases ha with rfl | rfl
    · exact Or.inr (hs.bounded _ le_rfl)
    · exact Or.inl trivial
  refine ⟨Or.inr ⟨d.next, hmake, htouches⟩, ?_⟩
  -- The membership itself is the first row that the new team has.
  refine safe_execute fun d' hd' hs' e' he' => ?_
  have hteam := hd'.owner _ _ howner
  obtain ⟨htouches', -⟩ := touches_insert (t := d.next) hs' he' (fun l hl huser => by
    rcases List.mem_cons.1 hl with rfl | hl
    · exact hteam
    · obtain rfl := List.mem_singleton.1 hl
      exact absurd rfl huser) fun hnil => by cases hnil
  have hmay : May e' d.next a := by
    rcases ha with rfl | rfl
    · obtain ⟨rows, hrows, rfl⟩ := Option.map_eq_some_iff.1 he'
      exact Or.inl ⟨_, _, (find_insert hrows _).trans (if_pos rfl), rfl, rfl⟩
    · trivial
  refine ⟨Or.inr ⟨d.next, Or.inl hmay, htouches'⟩, ?_⟩
  have hteam' := htouches'.later.owner _ _ hteam
  refine safe_createDefaultProject hmay hteam' fun f hf hs'' => ?_
  exact h f d.next ((((hd.trans htouches.later).trans hd').trans htouches'.later).trans hf) hs'' (hmay.later hf)
    (hf.owner _ _ hteam')

theorem safe_register (localhost : Option Server) : SafeFor .nobody (register localhost refusal) db := by
  refine safe_select fun d _ _ => ?_
  split
  next => trivial
  next =>
    refine safe_unlessRefused (safe_execute fun d hd hs e he => ?_)
    obtain ⟨htouches, -⟩ := touches_insert hs he (fun l hl _ => by cases hl) fun _ => rfl
    refine ⟨Or.inr ⟨d.next, Or.inl trivial, htouches⟩, safe_createTeam (Or.inr rfl) fun f t _ _ hmay ht => ?_⟩
    cases localhost with
    | none => trivial
    | some columns =>
        refine safe_create hmay (List.cons_ne_nil _ _) (fun l hl _ => ?_) fun _ _ _ _ _ => trivial
        obtain rfl := List.mem_singleton.1 hl
        exact ht

theorem safe_postTeam : SafeFor (actorOf user) (postTeam user) db :=
  safe_signedIn fun _ _ _ _ _ _ _ => safe_createTeam (Or.inl rfl) fun _ _ _ _ _ _ => trivial

theorem safe_putSecurity (requireTwoFactor : Bool) : SafeFor (actorOf user) (putSecurity user teamId requireTwoFactor) db := by
  refine safe_signedIn fun _ userId _ _ _ _ _ => safe_select fun d _ hs => ?_
  split
  next => trivial
  next hadmin =>
    split
    next => trivial
    next =>
      have hmember := isMember_of_assertTeamAdmin hs (by simpa using hadmin)
      obtain ⟨k, m, hm, hteam, -⟩ := id hmember
      obtain ⟨q, hq⟩ := hs.intact.target hm (e := ((.teams, m.teamId), true)) (List.mem_cons_self)
      have hown := hs.own _ _ hq (references_eq_nil.2 (Or.inl (hs.typed _ _ hq)))
      refine safe_change (t := teamId) (Or.inl hmember) (hteam ▸ hown) Table.noConfusion (fun r => ?_) fun _ _ _ => trivial
      cases r <;> exact ⟨rfl, fun l hl => Or.inl hl⟩

theorem safe_setTwoFactor (totpEnabled : Bool) (refusal : User → Option (Nat × String)) :
    SafeFor (actorOf user) (setTwoFactor user totpEnabled refusal) db := by
  refine safe_signedIn fun d id r _ hs _ hr => safe_unlessRefused ?_
  refine safe_change (t := id) (Or.inr ⟨rfl, _, hr⟩) (hs.own _ _ hr rfl) Table.noConfusion (fun r => ?_) fun _ _ _ => trivial
  cases r <;> exact ⟨rfl, fun l hl => Or.inl hl⟩

theorem safe_postProject : SafeFor (actorOf user) (postProject user teamId) db :=
  safe_member fun _ _ _ hmay hteam => safe_createDefaultProject hmay hteam fun _ _ _ => trivial

theorem safe_postEnvironment (projectId : Nat) : SafeFor (actorOf user) (postEnvironment user teamId projectId) db := by
  refine safe_member fun d _ _ hmay _ => safe_findTeamRow fun e he _ hproject => ?_
  refine safe_create (hmay.later he) (List.cons_ne_nil _ _) (fun l hl _ => ?_) fun _ _ _ _ _ => trivial
  obtain rfl := List.mem_singleton.1 hl
  exact hproject

/-! ### Rows of a team -/

theorem safe_postTeamRow {make : TeamRow → Row} (hmake : ∀ r, (make r).links = [(.teams, r.teamId)] ∧ (make r).references ≠ []) :
    SafeFor (actorOf user) (postTeamRow make user teamId refusal) db := by
  refine safe_member fun d _ _ hmay hteam => safe_unlessRefused ?_
  refine safe_create hmay (hmake _).2 (fun l hl _ => ?_) fun _ _ _ _ _ => trivial
  rw [(hmake _).1] at hl
  obtain rfl := List.mem_singleton.1 hl
  exact hteam

theorem safe_removeTeamRow {a : Actor} {key : Key} {k missing : Route} (hmay : May db teamId a) (hkey : ¬ Lasting key.1)
    (h : ∀ d, SafeFor a k d) (h' : ∀ d, SafeFor a missing d) : SafeFor a (removeTeamRow key teamId k missing) db := by
  intro d hd hs
  dsimp only
  split
  next hrow =>
    have htouches := touches_delete hs (owner_of_teamRowIn hs hrow) hkey
    exact ⟨Or.inr ⟨teamId, Or.inl (hmay.later (hd.trans htouches.later)), htouches⟩, h _⟩
  next => exact ⟨Or.inl rfl, h' _⟩

theorem not_lasting {table : Table} (h : table ≠ .teams) (h' : table ≠ .users) (h'' : table ≠ .teamMembers) : ¬ Lasting table :=
  fun hl => hl.elim h fun hl => hl.elim h' h''

theorem safe_deleteTeamRow {key : Key} {missing : Route} (hkey : ¬ Lasting key.1) (h : ∀ d, SafeFor (actorOf user) missing d) :
    SafeFor (actorOf user) (member user teamId <| removeTeamRow key teamId ok missing) db :=
  safe_member fun _ _ _ hmay _ => safe_removeTeamRow hmay hkey (fun _ => trivial) h

theorem safe_deleteSshKey (keyId : Nat) : SafeFor (actorOf user) (deleteSshKey user teamId keyId) db := by
  refine safe_member fun d _ _ hmay _ => safe_findTeamRow fun e he _ hkey => safe_select fun f hf _ => ?_
  dsimp only
  split
  next => trivial
  next =>
    exact safe_remove ((hmay.later he).later hf) (hf.owner _ _ hkey)
      (not_lasting Table.noConfusion Table.noConfusion Table.noConfusion) fun _ _ _ => trivial

/-! ### Servers -/

theorem links_server {r : Server} {l : Key} :
    l ∈ (Row.server r).links ↔ l = (.teams, r.teamId) ∨ ∃ keyId, r.sshKeyId = some keyId ∧ l = (.sshKeys, keyId) := by
  simp [Row.links, Row.references, Row.mentions, Row.cascade, Row.setNull, eq_comm]

theorem safe_createServer {columns : Server} {sshKeyId : Option Nat} (hmay : May db teamId (actorOf user))
    (hteam : db.owner teamId = some teamId) (hkey : ∀ keyId, sshKeyId = some keyId → db.owner keyId = some teamId) :
    SafeFor (actorOf user) (create (.server { columns with teamId := teamId, sshKeyId := sshKeyId }) fun _ => ok) db := by
  refine safe_create hmay (List.cons_ne_nil _ _) (fun l hl _ => ?_) fun _ _ _ _ _ => trivial
  rcases links_server.1 hl with rfl | ⟨keyId, hsome, rfl⟩
  · exact hteam
  · exact hkey keyId hsome

theorem safe_postServer (columns : Server) (hasPrivateKey : Bool) (sshKeyId : Option Nat) :
    SafeFor (actorOf user) (postServer user teamId columns hasPrivateKey sshKeyId) db := by
  refine safe_member fun d _ _ hmay hteam => ?_
  cases sshKeyId with
  | some keyId =>
      refine safe_findTeamRow fun e he _ hkey => ?_
      exact safe_createServer (hmay.later he) (he.owner _ _ hteam) fun _ hsome => Option.some.inj hsome ▸ hkey
  | none =>
      dsimp only
      split
      next => exact safe_createServer hmay hteam fun _ hsome => by cases hsome
      next => trivial

theorem safe_createVps (sshKeyId : Nat) (columns : Server) (created : Except String Unit) :
    SafeFor (actorOf user) (createVps user teamId sshKeyId columns created) db := by
  refine safe_member fun d _ _ hmay hteam => safe_findTeamRow fun e he _ hkey => ?_
  cases created with
  | error message => trivial
  | ok _ => exact safe_createServer (hmay.later he) (he.owner _ _ hteam) fun _ hsome => Option.some.inj hsome ▸ hkey

theorem safe_changeServer {a : Actor} {t serverId : Nat} {columns : Server} (hmay : May db t a)
    (howner : db.owner serverId = some t) : SafeFor a (changeServer serverId columns ok) db := by
  refine safe_change hmay howner Table.noConfusion (fun r => ?_) fun _ _ _ => trivial
  cases r <;> exact ⟨rfl, fun l hl => Or.inl hl⟩

theorem safe_putServerColumns (serverId : Nat) (columns : Server) :
    SafeFor (actorOf user) (putServerColumns user teamId serverId columns refusal) db :=
  safe_member fun _ _ _ hmay _ => safe_findServer fun _ _ he _ howner => safe_unlessRefused
    (safe_changeServer (hmay.later he) howner)

theorem safe_deleteServer (serverId : Nat) : SafeFor (actorOf user) (deleteServer user teamId serverId) db := by
  refine safe_member fun d _ _ hmay _ => safe_findServer fun e _ he _ howner => safe_select fun f hf _ => ?_
  dsimp only
  split
  next => trivial
  next =>
    exact safe_remove ((hmay.later he).later hf) (hf.owner _ _ howner)
      (not_lasting Table.noConfusion Table.noConfusion Table.noConfusion) fun _ _ _ => trivial

/-! ### Applications -/

theorem links_application {r : Application} {l : Key} : l ∈ (Row.application r).links ↔
    l = (.teams, r.teamId) ∨ l = (.environments, r.environmentId) ∨ l = (.servers, r.serverId) ∨
      (∃ i, r.buildServerId = some i ∧ l = (.servers, i)) ∨ (∃ i, r.previewOfId = some i ∧ l = (.applications, i)) ∨
      (∃ i, r.gitSourceId = some i ∧ l = (.gitSources, i)) ∨ ∃ i, r.registryId = some i ∧ l = (.registries, i) := by
  simp [Row.links, Row.references, Row.mentions, Row.cascade, Row.cascadeOptional, Row.setNull, eq_comm]

theorem safe_pickInstallation {a : Actor} {githubRepo : Option String} {installation : Option Nat} {k : Option Nat → Route}
    (h : ∀ i, SafeFor a (k i) db) : SafeFor a (pickInstallation githubRepo installation k) db := by
  cases githubRepo with
  | none => exact h none
  | some repo =>
      cases installation with
      | none => trivial
      | some i => exact h (some i)

theorem safe_pickGitSource {a : Actor} {body : ApplicationBody} {k : Route}
    (h : ∀ d, Later db d → Sound d → (∀ i, body.gitSourceId = some i → d.owner i = some teamId) → SafeFor a k d)
    (hs : Sound db) : SafeFor a (pickGitSource teamId body k) db := by
  rw [pickGitSource]
  split
  next hnone => exact h db (Later.refl db) hs fun i hi => by cases hnone.symm.trans hi
  next sourceId hsome =>
    split
    next => trivial
    next =>
      refine safe_findTeamRow fun d hd hs' howner => h d hd hs' fun i hi => ?_
      exact Option.some.inj (hsome.symm.trans hi) ▸ howner

theorem safe_pickDeployKey {a : Actor} {body : ApplicationBody} {k : Route} (h : ∀ d, Later db d → SafeFor a k d) :
    SafeFor a (pickDeployKey teamId body k) db := by
  rw [pickDeployKey]
  split
  next => exact h db (Later.refl db)
  next => exact safe_findTeamRow fun d hd _ _ => h d hd

theorem safe_postApplication (body : ApplicationBody) (installation : Option Nat) :
    SafeFor (actorOf user) (postApplication user p body installation refusal) db := by
  refine safe_inEnvironment fun d _ _ hmay hteam henv => safe_loadEnvironment fun e he _ =>
    safe_findServer fun f _ hf hs hserver => ?_
  have hdf := he.trans hf
  have hcreate : ∀ (g : Db) (application : Application), Later f g → application.teamId = p.teamId →
      application.environmentId = p.environmentId → application.serverId = body.serverId → application.buildServerId = none →
      application.previewOfId = none → (∀ i, application.gitSourceId = some i → g.owner i = some p.teamId) →
      application.registryId = none → SafeFor (actorOf user) (create (.application application) fun _ => ok) g := by
    intro g application hg h1 h2 h3 h4 h5 h6 h7
    refine safe_create (hmay.later (hdf.trans hg)) (List.cons_ne_nil _ _) (fun l hl _ => ?_) fun _ _ _ _ _ => trivial
    rw [links_application, h1, h2, h3, h4, h5, h7] at hl
    rcases hl with rfl | rfl | rfl | ⟨i, hi, -⟩ | ⟨i, hi, -⟩ | ⟨i, hi, rfl⟩ | ⟨i, hi, -⟩
    · exact (hdf.trans hg).owner _ _ hteam
    · exact (hdf.trans hg).owner _ _ henv
    · exact hg.owner _ _ hserver
    · cases hi
    · cases hi
    · exact h6 i hi
    · cases hi
  split
  next =>
    refine safe_pickInstallation fun i => safe_pickGitSource (fun g hg _ hsource => ?_) hs
    refine safe_pickDeployKey fun g' hg' => safe_unlessRefused ?_
    exact hcreate g' _ (hg.trans hg') rfl rfl rfl rfl rfl (fun i hi => hg'.owner _ _ (hsource i hi)) rfl
  next => exact safe_unlessRefused (hcreate f _ (Later.refl f) rfl rfl rfl rfl rfl (fun i hi => by cases hi) rfl)

theorem safe_changeApplication {a : Actor} {t : Nat} {f : Application → Application} {k : Route} (hmay : May db t a)
    (howner : db.owner id = some t)
    (hf : ∀ r, ∀ l ∈ (Row.application (f r)).links, l ∈ (Row.application r).links ∨ db.owner l.2 = some t)
    (h : ∀ d, Later db d → Sound d → SafeFor a k d) : SafeFor a (changeApplication id f k) db := by
  refine safe_change hmay howner Table.noConfusion (fun r => ?_) h
  cases r with
  | application r => exact ⟨rfl, hf r⟩
  | _ => exact ⟨rfl, fun l hl => Or.inl hl⟩

/-- A change of columns that refer to nothing. -/
theorem safe_columns {r : Application} {f : Application → Application} (h : Loaded db user p id (.application r))
    (hf : ∀ r, (Row.application (f r)).links = (Row.application r).links) :
    SafeFor (actorOf user) (changeApplication id f ok) db :=
  safe_changeApplication h.may h.owner (fun r _ hl => Or.inl (hf r ▸ hl)) fun _ _ _ => trivial

theorem safe_putSource (githubRepo : Option (Option String)) (installation : Option Nat) (branch : Option String) :
    SafeFor (actorOf user) (putSource user p id githubRepo installation branch refusal) db := by
  refine safe_onApplication fun d r _ hr _ => ?_
  split
  next => exact safe_pickInstallation fun i => safe_unlessRefused (safe_columns hr fun _ => rfl)
  next => exact safe_unlessRefused trivial

theorem safe_putServer (serverId : Nat) (failure : Option String) (force : Bool) :
    SafeFor (actorOf user) (putServer user p id serverId failure force) db := by
  refine safe_onApplication fun d r _ hr _ => ?_
  split
  next => trivial
  next =>
    split
    next => trivial
    next =>
      refine safe_findServer fun e target he hs hserver => ?_
      split
      next => trivial
      next =>
        split
        next => trivial
        next =>
          have hr' := hr.later he hs
          refine safe_changeApplication hr'.may hr'.owner (fun q l hl => ?_) fun _ _ _ => trivial
          rw [links_application] at hl ⊢
          grind

/-- The volumes of an application are the team's, and so is what they mount. -/
theorem owner_of_volumesOf {t fromId : Nat} (hs : Sound db) (hfrom : db.owner fromId = some t) {v : ApplicationVolume}
    (hv : v ∈ volumesOf db fromId) : ∀ i, v.databaseId = some i → db.owner i = some t := by
  intro i hi
  obtain ⟨⟨k, row⟩, hmem, hrow⟩ := List.mem_filterMap.1 hv
  have hfind := find_of_mem hs.intact.nodup hmem
  cases row with
  | applicationVolume r =>
      dsimp only at hrow
      split at hrow
      next happ =>
        obtain rfl := Option.some.inj hrow
        have hparent := hs.linked k _ hfind (.applications, r.applicationId)
          (mem_links.2 (Or.inl ⟨_, List.mem_singleton_self _, rfl⟩)) Table.noConfusion
        have hmount := hs.linked k _ hfind (.databases, i) (mem_links.2 (Or.inr (by simp [Row.mentions, hi]))) Table.noConfusion
        exact hmount.trans (hparent.symm.trans (happ ▸ hfrom))
      next => cases hrow
  | _ => cases hrow

theorem safe_copyVolumes {a : Actor} {t fromId toId : Nat} {k : Route} (hmay : May db t a) (hfrom : db.owner fromId = some t)
    (hto : db.owner toId = some t) (h : ∀ d, Later db d → Sound d → SafeFor a k d) :
    SafeFor a (copyVolumes fromId toId k) db := by
  refine safe_select fun d hd hs => safe_createAll (hmay.later hd) (fun e he _ r hr => ?_) fun e he hs' => h e (hd.trans he) hs'
  obtain ⟨v, hv, rfl⟩ := List.mem_map.1 hr
  refine ⟨List.cons_ne_nil _ _, fun l hl _ => ?_⟩
  rcases mem_links.1 hl with ⟨ref, href, rfl⟩ | hl
  · obtain rfl := List.mem_singleton.1 href
    exact (hd.trans he).owner _ _ hto
  · obtain ⟨i, hi, rfl⟩ := List.mem_map.1 hl
    exact he.owner _ _ (owner_of_volumesOf hs (hd.owner _ _ hfrom) hv i (Option.mem_toList.1 hi))

theorem safe_clone (environmentId serverId : Option Nat) :
    SafeFor (actorOf user) (clone user p id environmentId serverId refusal) db := by
  refine safe_onApplication fun d app _ hr _ => safe_findEnvironment fun e he hs henv => safe_findServer fun f _ hf hs' hserver => ?_
  have hr' := hr.later (he.trans hf) hs'
  have hlinks := hr'.links
  simp only [links_application] at hlinks
  refine safe_unlessRefused (safe_create hr'.may (List.cons_ne_nil _ _) (fun l hl huser => ?_) fun g copyId hg _ hcopy => ?_)
  · rw [links_application] at hl
    rcases hl with hl | rfl | rfl | hl | ⟨i, hi, -⟩ | hl | hl
    · exact hlinks l (Or.inl hl) huser
    · exact hf.owner _ _ henv
    · exact hserver
    · exact hlinks l (Or.inr (Or.inr (Or.inr (Or.inl hl)))) huser
    · cases hi
    · exact hlinks l (Or.inr (Or.inr (Or.inr (Or.inr (Or.inr (Or.inl hl)))))) huser
    · exact hlinks l (Or.inr (Or.inr (Or.inr (Or.inr (Or.inr (Or.inr hl)))))) huser
  · exact safe_copyVolumes (hr'.may.later hg) (hg.owner _ _ hr'.owner) hcopy fun _ _ _ => trivial

theorem safe_putPreview (enabled : Bool) : SafeFor (actorOf user) (putPreview user p id enabled) db := by
  refine safe_onApplication fun d app _ hr _ => ?_
  split
  next => trivial
  next =>
    split
    next => trivial
    next =>
      refine safe_select fun e he hs => ?_
      split
      next => trivial
      next => exact safe_columns (hr.later he hs) fun _ => rfl

theorem safe_putRegistry (registryId : Option Nat) (repository : Option String) :
    SafeFor (actorOf user) (putRegistry user p id registryId repository refusal) db := by
  refine safe_onApplication fun d app _ hr _ => ?_
  split
  next => trivial
  next =>
    split
    next =>
      refine safe_changeApplication hr.may hr.owner (fun q l hl => ?_) fun _ _ _ => trivial
      rw [links_application] at hl ⊢
      grind
    next registryId _ =>
      refine safe_findTeamRow fun e he hs hregistry => safe_unlessRefused ?_
      have hr' := hr.later he hs
      refine safe_changeApplication hr'.may hr'.owner (fun q l hl => ?_) fun _ _ _ => trivial
      rw [links_application] at hl ⊢
      grind

theorem safe_putBuildServer (buildServerId : Option Nat) :
    SafeFor (actorOf user) (putBuildServer user p id buildServerId) db := by
  refine safe_onApplication fun d app _ hr _ => ?_
  split
  next =>
    refine safe_changeApplication hr.may hr.owner (fun q l hl => ?_) fun _ _ _ => trivial
    rw [links_application] at hl ⊢
    grind
  next serverId _ =>
    split
    next => trivial
    next =>
      split
      next => trivial
      next =>
        refine safe_findServer fun e _ he hs hserver => ?_
        have hr' := hr.later he hs
        refine safe_changeApplication hr'.may hr'.owner (fun q l hl => ?_) fun _ _ _ => trivial
        rw [links_application] at hl ⊢
        grind

theorem safe_moveApplication (environmentId : Nat) :
    SafeFor (actorOf user) (moveApplication user p id environmentId) db := by
  refine safe_onApplication fun d app _ hr _ => ?_
  split
  next => trivial
  next =>
    refine safe_findEnvironment fun e he hs henv => ?_
    have hr' := hr.later he hs
    refine safe_changeApplication hr'.may hr'.owner (fun q l hl => ?_) fun _ _ _ => trivial
    rw [links_application] at hl ⊢
    grind

theorem safe_putColumns (refusal : Application → Option (Nat × String)) :
    SafeFor (actorOf user) (putColumns user p id refusal) db :=
  safe_onApplication fun _ _ _ hr _ => safe_unlessRefused (safe_columns hr fun _ => rfl)

/-- The rows that name a resource belong to its team. -/
theorem owner_of_mention {t : Nat} (hs : Sound db) {resource key : Key} {r : Row} (hr : db.find key = some r)
    (hmention : resource ∈ r.mentions) (huser : resource.1 ≠ .users) (howner : db.owner resource.2 = some t) :
    db.owner key.2 = some t :=
  (hs.linked key r hr resource (mem_links.2 (Or.inr hmention)) huser).symm.trans howner

theorem not_lasting_of_find (hs : Sound db) {key : Key} {r : Row} (hr : db.find key = some r) (h : ¬ Lasting r.table) :
    ¬ Lasting key.1 := hs.typed key r hr ▸ h

theorem TaggableType.table_ne (type : TaggableType) : type.table ≠ .users := by
  cases type <;> exact Table.noConfusion

theorem VolumeBackupOwner.table_ne (type : VolumeBackupOwner) : type.table ≠ .users := by
  cases type <;> exact Table.noConfusion

theorem safe_removeTags {a : Actor} {t : Nat} {type : TaggableType} {k : Route} (hmay : May db t a)
    (howner : db.owner id = some t) (h : ∀ d, Later db d → Sound d → SafeFor a k d) :
    SafeFor a (removeWhere (tags type id) k) db := by
  refine safe_removeWhere hmay (fun d hd hs key r hr hp => ?_) h
  cases r with
  | resourceTag r =>
      obtain ⟨rfl, rfl⟩ := of_decide_eq_true hp
      exact ⟨owner_of_mention hs hr (List.mem_singleton_self _) (TaggableType.table_ne _) (hd.owner _ _ howner),
        not_lasting_of_find hs hr (not_lasting Table.noConfusion Table.noConfusion Table.noConfusion)⟩
  | _ => cases hp

theorem safe_removeBackups {a : Actor} {t : Nat} {type : VolumeBackupOwner} {k : Route} (hmay : May db t a)
    (howner : db.owner id = some t) (h : ∀ d, Later db d → Sound d → SafeFor a k d) :
    SafeFor a (removeWhere (backups type id) k) db := by
  refine safe_removeWhere hmay (fun d hd hs key r hr hp => ?_) h
  cases r with
  | volumeBackup r =>
      obtain ⟨rfl, rfl⟩ := of_decide_eq_true hp
      exact ⟨owner_of_mention hs hr List.mem_cons_self (VolumeBackupOwner.table_ne _) (hd.owner _ _ howner),
        not_lasting_of_find hs hr (not_lasting Table.noConfusion Table.noConfusion Table.noConfusion)⟩
  | _ => cases hp

theorem safe_removeOwned {r : Row} {table : Table} (hr : Loaded db user p id r) (htable : ¬ Lasting table) :
    SafeFor (actorOf user) (remove (table, id) ok) db :=
  safe_remove hr.may hr.owner htable fun _ _ _ => trivial

theorem safe_deleteApplication : SafeFor (actorOf user) (deleteApplication user p id) db := by
  refine safe_onApplication fun d app _ hr _ => safe_removeTags hr.may hr.owner fun e he hs => ?_
  have hr' := hr.later he hs
  refine safe_removeBackups hr'.may hr'.owner fun f hf hs' => ?_
  exact safe_removeOwned (hr'.later hf hs') (not_lasting Table.noConfusion Table.noConfusion Table.noConfusion)

/-! ### Databases -/

theorem safe_unlessOverloaded {a : Actor} {now : Int} {force : Bool} {server : Server} {k : Route} (h : SafeFor a k db) :
    SafeFor a (unlessOverloaded now force server k) db := by
  unfold unlessOverloaded
  split
  next => trivial
  next => exact h

theorem safe_postDatabase (serverId : Nat) (engine : Engine) (now : Int) (force : Bool) :
    SafeFor (actorOf user) (postDatabase user p serverId engine now force refusal) db := by
  refine safe_inEnvironment fun d _ _ hmay hteam henv => safe_loadEnvironment fun e he _ =>
    safe_findServer fun f _ hf _ hserver => safe_unlessOverloaded (safe_unlessRefused ?_)
  have hdf := he.trans hf
  refine safe_create (hmay.later hdf) (List.cons_ne_nil _ _) (fun l hl _ => ?_) fun _ _ _ _ _ => trivial
  simp only [Row.links, Row.references, Row.mentions, Row.cascade, List.cons_append, List.nil_append, List.append_nil,
    List.map_cons, List.map_nil, List.mem_cons, List.not_mem_nil, or_false] at hl
  rcases hl with rfl | rfl | rfl
  · exact hdf.owner _ _ hteam
  · exact hdf.owner _ _ henv
  · exact hserver

/-- An application of the environment is the team's. -/
theorem owner_of_applicationIn {t environmentId applicationId : Nat} (hs : Sound db) (henv : db.owner environmentId = some t)
    {app : Application} (happ : db.find (.applications, applicationId) = some (.application app))
    (hin : app.environmentId = environmentId) : db.owner applicationId = some t := by
  have hlink := hs.linked _ _ happ (.environments, app.environmentId) (links_application.2 (Or.inr (Or.inl rfl))) Table.noConfusion
  exact hlink.symm.trans (hin ▸ henv)

theorem mountAt_eq_some (hs : Sound db) {applicationId databaseId volumeId : Nat}
    (h : mountAt db applicationId databaseId = some volumeId) :
    ∃ v, db.find (.applicationVolumes, volumeId) = some (.applicationVolume v) ∧ v.applicationId = applicationId := by
  obtain ⟨⟨k, r⟩, he, rfl⟩ := Option.map_eq_some_iff.1 h
  have hfind := find_of_mem hs.intact.nodup (List.mem_of_find?_eq_some he)
  have hp := List.find?_some he
  cases r with
  | applicationVolume v =>
      have htable := hs.typed k _ hfind
      exact ⟨v, by rw [show Table.applicationVolumes = k.1 from htable]; exact hfind, (of_decide_eq_true hp).1⟩
  | _ => cases hp

theorem safe_connect (applicationId : Nat) (mountPath : String) :
    SafeFor (actorOf user) (connect user p id applicationId mountPath refusal) db := by
  refine safe_onDatabase fun d r _ hr => ?_
  split
  next => trivial
  next =>
    refine safe_select fun e he hs => ?_
    split
    next app happ =>
      split
      next => trivial
      next hin =>
        split
        next => trivial
        next =>
          split
          next => trivial
          next =>
            have howner := owner_of_applicationIn hs (he.owner _ _ hr.environment) happ (not_not.1 hin)
            refine safe_unlessRefused (safe_select fun f hf hs' => safe_select fun g hg hs'' => ?_)
            have hr' := (hr.later (he.trans hf) hs').later hg hs''
            split
            next => trivial
            next =>
              split
              next volumeId hvolume =>
                obtain ⟨v, hv, happlication⟩ := mountAt_eq_some hs' hvolume
                have hparent := hs'.linked _ _ hv (.applications, v.applicationId)
                  (mem_links.2 (Or.inl ⟨_, List.mem_singleton_self _, rfl⟩)) Table.noConfusion
                have hmount := hparent.symm.trans (happlication ▸ hf.owner _ _ howner)
                refine safe_change hr'.may (hg.owner _ _ hmount) Table.noConfusion (fun q => ?_) fun _ _ _ => trivial
                cases q <;> exact ⟨rfl, fun l hl => Or.inl hl⟩
              next =>
                refine safe_create hr'.may (List.cons_ne_nil _ _) (fun l hl _ => ?_) fun _ _ _ _ _ => trivial
                rcases mem_links.1 hl with ⟨ref, href, rfl⟩ | hl
                · obtain rfl := List.mem_singleton.1 href
                  exact (hf.trans hg).owner _ _ howner
                · obtain rfl := List.mem_singleton.1 hl
                  exact hr'.owner
    next => trivial

theorem safe_deleteDatabase : SafeFor (actorOf user) (deleteDatabase user p id) db := by
  refine safe_onDatabase fun d r _ hr => ?_
  refine safe_removeWhere hr.may (fun e he hs key q hq hp => ?_) fun e he hs => ?_
  · cases q with
    | applicationVolume q =>
        have hmention : (.databases, id) ∈ (Row.applicationVolume q).mentions := by
          simp [Row.mentions, of_decide_eq_true (p := q.databaseId = some id) hp]
        exact ⟨owner_of_mention hs hq hmention Table.noConfusion (he.owner _ _ hr.owner),
          not_lasting_of_find hs hq (not_lasting Table.noConfusion Table.noConfusion Table.noConfusion)⟩
    | _ => cases hp
  · have hr' := hr.later he hs
    refine safe_removeTags hr'.may hr'.owner fun f hf hs' => ?_
    exact safe_removeOwned (hr'.later hf hs') (not_lasting Table.noConfusion Table.noConfusion Table.noConfusion)

theorem safe_findTeamStorage {a : Actor} {t : Nat} {storageId : Option Nat} {error : String} {k : Route} (hs : Sound db)
    (h : ∀ d, Later db d → Sound d → (∀ i, storageId = some i → d.owner i = some t) → SafeFor a k d) :
    SafeFor a (findTeamStorage t storageId error k) db := by
  cases storageId with
  | none => exact h db (Later.refl db) hs fun i hi => by cases hi
  | some storageId => exact safe_findTeamRow fun d hd hs' howner => h d hd hs' fun i hi => Option.some.inj hi ▸ howner

theorem links_backupSchedule {r : BackupSchedule} {l : Key} : l ∈ (Row.backupSchedule r).links ↔
    l = (.databases, r.databaseId) ∨ ∃ i, r.storageId = some i ∧ l = (.s3Storages, i) := by
  simp [Row.links, Row.references, Row.mentions, Row.cascade, Row.setNull, eq_comm]

theorem safe_postBackupSchedule (storageId : Option Nat) (refusal : Database → Option (Nat × String))
    (scheduled : Except String Unit) :
    SafeFor (actorOf user) (postBackupSchedule user p id storageId refusal scheduled) db := by
  refine safe_onDatabase fun d r _ hr => safe_unlessRefused (safe_select fun e he hs => ?_)
  split
  next => trivial
  next =>
    refine safe_findTeamStorage hs fun f hf hs' hstorage => ?_
    have hr' := hr.later (he.trans hf) hs'
    refine safe_create hr'.may (List.cons_ne_nil _ _) (fun l hl _ => ?_) fun g scheduleId hg _ howner => ?_
    · rcases links_backupSchedule.1 hl with rfl | ⟨i, hi, rfl⟩
      · exact hr'.owner
      · exact hstorage i hi
    · split
      next => trivial
      next =>
        exact safe_remove (hr'.may.later hg) howner (not_lasting Table.noConfusion Table.noConfusion Table.noConfusion)
          fun _ _ _ => trivial

theorem safe_findSchedule {scheduleId : Nat} {r : Row} {k : BackupSchedule → Route} (hr : Loaded db user p id r)
    (h : ∀ d q, Later db d → Loaded d user p id r → d.owner scheduleId = some p.teamId →
      (∀ i, q.storageId = some i → d.owner i = some p.teamId) → SafeFor (actorOf user) (k q) d) :
    SafeFor (actorOf user) (findSchedule id scheduleId k) db := by
  refine safe_select fun d hd hs => ?_
  split
  next q hq =>
    split
    next hof =>
      have hr' := hr.later hd hs
      have hlink := hs.linked _ _ hq (.databases, q.databaseId) (links_backupSchedule.2 (Or.inl rfl)) Table.noConfusion
      have howner := hlink.symm.trans (hof ▸ hr'.owner)
      refine h d q hd hr' howner fun i hi => ?_
      exact (hs.linked _ _ hq (.s3Storages, i) (links_backupSchedule.2 (Or.inr ⟨i, hi, rfl⟩)) Table.noConfusion).trans howner
    next => trivial
  next => trivial

theorem safe_putBackupSchedule (scheduleId : Nat) (storageId : Option (Option Nat)) :
    SafeFor (actorOf user) (putBackupSchedule user p id scheduleId storageId refusal) db := by
  refine safe_onDatabase fun d r _ hr => safe_findSchedule hr fun e existing he hr' howner _ => ?_
  refine safe_findTeamStorage hr'.sound fun f hf hs hstorage => safe_unlessRefused ?_
  refine safe_change (hr'.later hf hs).may (hf.owner _ _ howner) Table.noConfusion (fun q => ?_) fun _ _ _ => trivial
  cases q with
  | backupSchedule q =>
      refine ⟨rfl, fun l hl => ?_⟩
      rcases links_backupSchedule.1 hl with rfl | ⟨i, hi, rfl⟩
      · exact Or.inl (links_backupSchedule.2 (Or.inl rfl))
      · exact Or.inr (hstorage i hi)
  | _ => exact ⟨rfl, fun l hl => Or.inl hl⟩

theorem safe_deleteBackupSchedule (scheduleId : Nat) :
    SafeFor (actorOf user) (deleteBackupSchedule user p id scheduleId) db := by
  refine safe_onDatabase fun d r _ hr => safe_findSchedule hr fun e _ _ hr' howner _ => ?_
  exact safe_remove hr'.may howner (not_lasting Table.noConfusion Table.noConfusion Table.noConfusion) fun _ _ _ => trivial

end Routes

end Yeah.Teams
