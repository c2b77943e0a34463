import Yeah.Teams.Requests

namespace Yeah.Teams

open Relational Resumption Deploy

section Routes

variable {user : Option Nat} {teamId : Nat} {p : Params} {id : Nat} {db : Db} {refusal : Option (Nat × String)}

/-! ### Volumes -/

theorem safe_postVolume (mountPath : String) : SafeFor (actorOf user) (postVolume user p id mountPath refusal) db := by
  refine safe_onApplication fun d app _ hr _ => safe_unlessRefused ?_
  refine safe_create hr.may (List.cons_ne_nil _ _) (fun l hl _ => ?_) fun _ _ _ _ _ => trivial
  obtain rfl := List.mem_singleton.1 hl
  exact hr.owner

theorem safe_findVolume {volumeId : Nat} {r : Row} {k : Route} (hr : Loaded db user p id r)
    (h : ∀ d, Later db d → Loaded d user p id r → d.owner volumeId = some p.teamId → SafeFor (actorOf user) k d) :
    SafeFor (actorOf user) (findVolume id volumeId k) db := by
  refine safe_select fun d hd hs => ?_
  split
  next v hv =>
    split
    next hof =>
      have hr' := hr.later hd hs
      have hlink := hs.linked _ _ hv (.applications, v.applicationId)
        (mem_links.2 (Or.inl ⟨_, List.mem_singleton_self _, rfl⟩)) Table.noConfusion
      exact h d hd hr' (hlink.symm.trans (hof ▸ hr'.owner))
    next => trivial
  next => trivial

theorem safe_deleteVolume (volumeId : Nat) : SafeFor (actorOf user) (deleteVolume user p id volumeId) db := by
  refine safe_onApplication fun d app _ hr _ => safe_findVolume hr fun e _ hr' howner => ?_
  exact safe_remove hr'.may howner (not_lasting Table.noConfusion Table.noConfusion Table.noConfusion) fun _ _ _ => trivial

/-! ### Services -/

theorem safe_postService (serverId : Nat) (now : Int) (force : Bool) :
    SafeFor (actorOf user) (postService user p serverId now force refusal) db := by
  refine safe_inEnvironment fun d _ _ hmay hteam henv => safe_loadEnvironment fun e he _ => safe_unlessRefused ?_
  refine safe_findServer fun f _ hf _ hserver => safe_unlessOverloaded ?_
  have hdf := he.trans hf
  refine safe_create (hmay.later hdf) (List.cons_ne_nil _ _) (fun l hl _ => ?_) fun _ _ _ _ _ => trivial
  simp only [Row.links, Row.references, Row.mentions, Row.cascade, List.cons_append, List.nil_append, List.append_nil,
    List.map_cons, List.map_nil, List.mem_cons, List.not_mem_nil, or_false] at hl
  rcases hl with rfl | rfl | rfl
  · exact hdf.owner _ _ hteam
  · exact hdf.owner _ _ henv
  · exact hserver

theorem safe_deleteService : SafeFor (actorOf user) (deleteService user p id) db := by
  refine safe_onService fun d service _ hr _ => safe_removeTags hr.may hr.owner fun e he hs => ?_
  have hr' := hr.later he hs
  refine safe_removeBackups hr'.may hr'.owner fun f hf hs' => ?_
  exact safe_removeOwned (hr'.later hf hs') (not_lasting Table.noConfusion Table.noConfusion Table.noConfusion)

/-! ### Volume backups -/

theorem links_volumeBackup {r : VolumeBackup} {l : Key} : l ∈ (Row.volumeBackup r).links ↔
    l = (.teams, r.teamId) ∨ (∃ i, r.s3StorageId = some i ∧ l = (.s3Storages, i)) ∨ l = (r.ownerType.table, r.ownerId) ∨
      ∃ i, r.volumeId = some i ∧ l = (.applicationVolumes, i) := by
  simp [Row.links, Row.references, Row.mentions, Row.cascade, Row.setNull, eq_comm]

theorem safe_createVolumeBackup {r : Row} {type : VolumeBackupOwner} {volumeId s3StorageId : Option Nat}
    (hr : Loaded db user p id r) (hteam : (.teams, p.teamId) ∈ r.links)
    (hvolume : ∀ i, volumeId = some i → db.owner i = some p.teamId)
    (hstorage : ∀ i, s3StorageId = some i → db.owner i = some p.teamId) :
    SafeFor (actorOf user) (create (.volumeBackup ⟨p.teamId, type, id, volumeId, s3StorageId⟩) fun _ => ok) db := by
  refine safe_create hr.may (List.cons_ne_nil _ _) (fun l hl _ => ?_) fun _ _ _ _ _ => trivial
  rcases links_volumeBackup.1 hl with rfl | ⟨i, hi, rfl⟩ | rfl | ⟨i, hi, rfl⟩
  · exact hr.links _ hteam Table.noConfusion
  · exact hstorage i hi
  · exact hr.owner
  · exact hvolume i hi

theorem teams_mem_links_application {r : Application} : (.teams, r.teamId) ∈ (Row.application r).links :=
  links_application.2 (Or.inl rfl)

theorem teams_mem_links_service {r : Service} : (.teams, r.teamId) ∈ (Row.service r).links := List.mem_cons_self

theorem safe_postVolumeBackup (volumeId : Nat) (storageId : Option Nat) :
    SafeFor (actorOf user) (postVolumeBackup user p id volumeId storageId refusal) db := by
  refine safe_onApplication fun d app _ hr hteam => ?_
  split
  next => trivial
  next =>
    refine safe_findVolume hr fun e _ hr' hvolume => safe_unlessRefused ?_
    rw [hteam]
    refine safe_findTeamStorage hr'.sound fun f hf hs hstorage => ?_
    refine safe_createVolumeBackup (hr'.later hf hs) (hteam ▸ teams_mem_links_application) (fun i hi => ?_) hstorage
    exact Option.some.inj hi ▸ hf.owner _ _ hvolume

theorem safe_postServiceVolumeBackup (storageId : Option Nat) :
    SafeFor (actorOf user) (postServiceVolumeBackup user p id storageId refusal) db := by
  refine safe_onService fun d service _ hr hteam => safe_unlessRefused ?_
  rw [hteam]
  refine safe_findTeamStorage hr.sound fun f hf hs hstorage => ?_
  exact safe_createVolumeBackup (hr.later hf hs) (hteam ▸ teams_mem_links_service) (fun i hi => by cases hi) hstorage

/-- Whatever the type of its owner, a backup belongs to the owner's team, and so does the volume it is of. -/
theorem safe_findVolumeBackup {is : VolumeBackup → Bool} {backupId : Nat} {error : String} {r : Row}
    {k : VolumeBackup → Route} (hr : Loaded db user p id r) (his : ∀ q, is q = true → q.ownerId = id)
    (h : ∀ d q, Later db d → Loaded d user p id r → d.owner backupId = some p.teamId →
      (∀ i, q.volumeId = some i → d.owner i = some p.teamId) → SafeFor (actorOf user) (k q) d) :
    SafeFor (actorOf user) (findVolumeBackup is backupId error k) db := by
  refine safe_select fun d hd hs => ?_
  split
  next q hq =>
    split
    next hof =>
      have hr' := hr.later hd hs
      have hlinked := hs.linked _ _ hq
      have howner := hlinked _ (links_volumeBackup.2 (Or.inr (Or.inr (Or.inl rfl)))) (VolumeBackupOwner.table_ne _)
      have hbackup := howner.symm.trans (his q hof ▸ hr'.owner)
      refine h d q hd hr' hbackup fun i hi => ?_
      exact (hlinked _ (links_volumeBackup.2 (Or.inr (Or.inr (Or.inr ⟨i, hi, rfl⟩)))) Table.noConfusion).trans hbackup
    next => trivial
  next => trivial

theorem isBackupOf_eq_true {q : VolumeBackup} (h : isBackupOf id q = true) : q.ownerId = id := of_decide_eq_true h

theorem isServiceBackupOf_eq_true {q : VolumeBackup} (h : isServiceBackupOf id q = true) : q.ownerId = id :=
  (of_decide_eq_true h).2

theorem safe_restoreVolumeBackup (backupId : Nat) :
    SafeFor (actorOf user) (restoreVolumeBackup user p id backupId refusal) db := by
  refine safe_onApplication fun d app _ hr hteam => ?_
  refine safe_findVolumeBackup hr (fun _ => isBackupOf_eq_true) fun e source _ hr' _ hvolume => safe_unlessRefused ?_
  rw [hteam]
  exact safe_createVolumeBackup hr' (hteam ▸ teams_mem_links_application) hvolume fun i hi => by cases hi

theorem safe_restoreServiceVolumeBackup (backupId : Nat) :
    SafeFor (actorOf user) (restoreServiceVolumeBackup user p id backupId refusal) db := by
  refine safe_onService fun d service _ hr hteam => ?_
  refine safe_findVolumeBackup hr (fun _ => isServiceBackupOf_eq_true) fun e _ _ hr' _ _ => safe_unlessRefused ?_
  rw [hteam]
  exact safe_createVolumeBackup hr' (hteam ▸ teams_mem_links_service) (fun i hi => by cases hi) fun i hi => by cases hi

theorem safe_deleteVolumeBackup (backupId : Nat) : SafeFor (actorOf user) (deleteVolumeBackup user p id backupId) db := by
  refine safe_onApplication fun d app _ hr _ => ?_
  refine safe_findVolumeBackup hr (fun _ => isBackupOf_eq_true) fun e _ _ hr' howner _ => ?_
  exact safe_remove hr'.may howner (not_lasting Table.noConfusion Table.noConfusion Table.noConfusion) fun _ _ _ => trivial

theorem safe_deleteServiceVolumeBackup (backupId : Nat) :
    SafeFor (actorOf user) (deleteServiceVolumeBackup user p id backupId) db := by
  refine safe_onService fun d service _ hr _ => ?_
  refine safe_findVolumeBackup hr (fun _ => isServiceBackupOf_eq_true) fun e _ _ hr' howner _ => ?_
  exact safe_remove hr'.may howner (not_lasting Table.noConfusion Table.noConfusion Table.noConfusion) fun _ _ _ => trivial

/-! ### Shared variables and tags -/

theorem links_sharedVariable {r : SharedVariable} {l : Key} : l ∈ (Row.sharedVariable r).links ↔
    l = (.teams, r.teamId) ∨ (∃ i, r.projectId = some i ∧ l = (.projects, i)) ∨
      ∃ i, r.environmentId = some i ∧ l = (.environments, i) := by
  simp [Row.links, Row.references, Row.mentions, Row.cascade, Row.cascadeOptional, eq_comm]

theorem safe_postSharedVariable (scope : VariableScope) :
    SafeFor (actorOf user) (postSharedVariable user teamId scope refusal) db := by
  refine safe_member fun d _ _ hmay hteam => safe_unlessRefused ?_
  have hcreate : ∀ (e : Db) (projectId environmentId : Option Nat), Later d e →
      (∀ i, projectId = some i → e.owner i = some teamId) → (∀ i, environmentId = some i → e.owner i = some teamId) →
      SafeFor (actorOf user) (create (.sharedVariable ⟨teamId, projectId, environmentId⟩) fun _ => ok) e := by
    intro e projectId environmentId he hproject henv
    refine safe_create (hmay.later he) (List.cons_ne_nil _ _) (fun l hl _ => ?_) fun _ _ _ _ _ => trivial
    rcases links_sharedVariable.1 hl with rfl | ⟨i, hi, rfl⟩ | ⟨i, hi, rfl⟩
    · exact he.owner _ _ hteam
    · exact hproject i hi
    · exact henv i hi
  cases scope with
  | team => exact hcreate d none none (Later.refl d) (fun i hi => by cases hi) fun i hi => by cases hi
  | project projectId =>
      refine safe_findTeamRow fun e he _ howner => ?_
      exact hcreate e (some projectId) none he (fun i hi => Option.some.inj hi ▸ howner) fun i hi => by cases hi
  | environment environmentId =>
      refine safe_findEnvironment fun e he _ howner => ?_
      exact hcreate e none (some environmentId) he (fun i hi => by cases hi) fun i hi => Option.some.inj hi ▸ howner

theorem safe_deleteSharedVariable (variableId : Nat) :
    SafeFor (actorOf user) (deleteSharedVariable user teamId variableId) db :=
  safe_deleteTeamRow (not_lasting Table.noConfusion Table.noConfusion Table.noConfusion) fun _ => trivial

theorem owner_of_resourceBelongsToTeam (hs : Sound db) {type : TaggableType}
    (h : resourceBelongsToTeam db type id teamId = true) : db.owner id = some teamId := by
  rw [resourceBelongsToTeam] at h
  split at h
  next r hr =>
    obtain rfl := of_decide_eq_true h
    exact hs.owner_of_team (b := true) hr List.mem_cons_self
  next r hr =>
    obtain rfl := of_decide_eq_true h
    exact hs.owner_of_team (b := true) hr List.mem_cons_self
  next r hr =>
    obtain rfl := of_decide_eq_true h
    exact hs.owner_of_team (b := true) hr List.mem_cons_self
  next => cases h

theorem safe_assignTags (type : TaggableType) (tagIds : List Nat) :
    SafeFor (actorOf user) (assignTags user teamId type id tagIds) db := by
  refine safe_member fun d _ _ hmay _ => safe_select fun e he hs => ?_
  split
  next => trivial
  next hbelongs =>
    have howner := owner_of_resourceBelongsToTeam hs (by simpa using hbelongs)
    refine safe_select fun f hf hs' => ?_
    dsimp only
    split
    next => trivial
    next hwanted =>
      have htags : ∀ tagId ∈ tagIds.eraseDups, f.owner tagId = some teamId := by
        intro tagId htag
        have hall := List.all_eq_true.1 (by simpa using hwanted : _ = true) tagId htag
        exact owner_of_teamRowIn hs' hall
      refine safe_select fun g hg _ => ?_
      have hmay' := ((hmay.later he).later hf).later hg
      have hresource := hg.owner _ _ (hf.owner _ _ howner)
      refine safe_removeWhere hmay' (fun k hk hsk key r hr hp => ?_) fun k hk _ => safe_execute fun m hm hsm n hn => ?_
      · cases r with
        | resourceTag r =>
            obtain ⟨rfl, rfl, -⟩ := of_decide_eq_true hp
            exact ⟨owner_of_mention hsk hr (List.mem_singleton_self _) (TaggableType.table_ne _) (hk.owner _ _ hresource),
              not_lasting_of_find hsk hr (not_lasting Table.noConfusion Table.noConfusion Table.noConfusion)⟩
        | _ => cases hp
      · have hlater := hk.trans hm
        split at hn
        next => cases hn
        next =>
          have htouches := touches_insertAll hsm hn fun r hr => by
            obtain ⟨tagId, htag, rfl⟩ := List.mem_map.1 hr
            refine ⟨List.cons_ne_nil _ _, fun l hl _ => ?_⟩
            rcases List.mem_cons.1 hl with rfl | hl
            · exact (hg.trans hlater).owner _ _ (htags tagId htag)
            · obtain rfl := List.mem_singleton.1 hl
              exact hlater.owner _ _ hresource
          exact ⟨Or.inr ⟨teamId, Or.inl (hmay'.later (hlater.trans htouches.later)), htouches⟩, trivial⟩

end Routes

end Yeah.Teams
