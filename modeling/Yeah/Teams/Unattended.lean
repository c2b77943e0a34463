import Yeah.Teams.Attachments

namespace Yeah.Teams

open Relational Resumption Deploy

section Routes

variable {a : Actor} {db : Db} {t : Nat}

/-- An update of a row that is read as it is written: it is left as it is, or its team is one that the actor may change. -/
theorem safe_changeWhere {key : Key} {f : Row → Row} {k : Route} (hkey : key.1 ≠ .teamMembers)
    (hf : ∀ d, Later db d → Sound d → (∀ r, d.find key = some r → f r = r) ∨ ∃ t, May d t a ∧ d.owner key.2 = some t ∧
      ∀ r, (f r).table = r.table ∧ ∀ l ∈ (f r).links, l ∈ r.links ∨ d.owner l.2 = some t)
    (h : ∀ d, SafeFor a k d) : SafeFor a (change key f k) db := by
  refine safe_execute fun d hd hs e he => ⟨?_, h e⟩
  rcases hf d hd hs with hself | ⟨t, hmay, howner, hlinks⟩
  · obtain ⟨rows, hrows, rfl⟩ := Option.map_eq_some_iff.1 he
    have hsame := update_eq_self hs.intact.nodup hself hrows
    exact Or.inl (by rw [hsame])
  · have htouches := touches_update hs he howner hkey hlinks
    exact Or.inr ⟨t, Or.inl (hmay.later htouches.later), htouches⟩

theorem safe_changeByNobody {key : Key} {f : Row → Row} {k : Route} (hkey : key.1 ≠ .teamMembers)
    (hf : ∀ r, (f r).table = r.table ∧ ∀ l ∈ (f r).links, l ∈ r.links) (h : ∀ d, SafeFor .nobody k d) :
    SafeFor .nobody (change key f k) db := by
  refine safe_changeWhere hkey (fun d _ hs => ?_) h
  cases hr : d.find key with
  | none => exact Or.inl fun r hr' => by cases hr'
  | some r =>
      obtain ⟨t, ht⟩ := hs.owned key r hr
      exact Or.inr ⟨t, trivial, ht, fun r => ⟨(hf r).1, fun l hl => Or.inl ((hf r).2 l hl)⟩⟩

theorem safe_serverJob (serverId : Nat) (columns : Server) : SafeFor .nobody (serverJob serverId columns) db := by
  refine safe_changeByNobody Table.noConfusion (fun r => ?_) fun _ => trivial
  cases r <;> exact ⟨rfl, fun l hl => hl⟩

theorem safe_applicationJob (id : Nat) (status : ApplicationStatus) : SafeFor .nobody (applicationJob id status) db := by
  refine safe_changeByNobody Table.noConfusion (fun r => ?_) fun _ => trivial
  cases r <;> exact ⟨rfl, fun l hl => hl⟩

/-! ### API tokens -/

theorem TaggableType.table_ne_teamMembers (type : TaggableType) : type.table ≠ .teamMembers := by
  cases type <;> exact Table.noConfusion

/-- A row of another team stays where it is. -/
theorem moveTo_eq_self {teamId environmentId : Nat} {r : Row} (h : ((.teams, teamId), true) ∉ r.references) :
    moveTo teamId environmentId r = r := by
  have hne : ∀ u, ((.teams, u), true) ∈ r.references → u ≠ teamId := by
    rintro _ hu rfl
    exact h hu
  cases r with
  | application r => exact congrArg Row.application (if_neg (hne r.teamId List.mem_cons_self))
  | database r => exact congrArg Row.database (if_neg (hne r.teamId List.mem_cons_self))
  | service r => exact congrArg Row.service (if_neg (hne r.teamId List.mem_cons_self))
  | _ => rfl

theorem table_moveTo (teamId environmentId : Nat) (r : Row) : (moveTo teamId environmentId r).table = r.table := by
  cases r <;> rfl

theorem links_moveTo {teamId environmentId : Nat} {r : Row} {l : Key} (h : l ∈ (moveTo teamId environmentId r).links) :
    l ∈ r.links ∨ l = (.environments, environmentId) := by
  cases r with
  | application r | database r | service r =>
      dsimp only [moveTo] at h
      split at h
      next =>
        simp only [Row.links, Row.references, Row.mentions, Row.cascade, List.cons_append, List.nil_append,
          List.append_nil, List.map_cons, List.map_nil, List.mem_cons] at h ⊢
        grind
      next => exact Or.inl h
  | _ => exact Or.inl h

theorem safe_moveResource (teamId : Nat) (kind : TaggableType) (resourceId targetEnvironmentId : Nat) :
    SafeFor (.token teamId) (moveResource teamId kind resourceId targetEnvironmentId) db := by
  refine safe_findEnvironment fun d _ _ henv => ?_
  refine safe_changeWhere kind.table_ne_teamMembers (fun e he hs => ?_) fun _ => trivial
  by_cases hteam : ∃ r, e.find (kind.table, resourceId) = some r ∧ ((.teams, teamId), true) ∈ r.references
  · obtain ⟨r, hr, hmem⟩ := hteam
    refine Or.inr ⟨teamId, rfl, hs.owner_of_team hr hmem, fun q => ⟨table_moveTo _ _ q, fun l hl => ?_⟩⟩
    rcases links_moveTo hl with hl | rfl
    · exact Or.inl hl
    · exact Or.inr (he.owner _ _ henv)
  · exact Or.inl fun r hr => moveTo_eq_self fun hmem => hteam ⟨r, hr, hmem⟩

/-! ### Pull requests -/

/-- What a pull request goes by: an application of the team, as it was read, with what it refers to. -/
structure ParentOf (db : Db) (t parentId : Nat) (parent : Application) : Prop where
  owner : db.owner parentId = some t
  links : ∀ l ∈ (Row.application parent).links, db.owner l.2 = some t

theorem ParentOf.later {d : Db} {parentId : Nat} {parent : Application} (h : ParentOf db t parentId parent) (hd : Later db d) :
    ParentOf d t parentId parent :=
  ⟨hd.owner _ _ h.owner, fun l hl => hd.owner _ _ (h.links l hl)⟩

theorem application_link_ne_users {r : Application} {l : Key} (h : l ∈ (Row.application r).links) : l.1 ≠ .users := by
  rw [links_application] at h
  rcases h with rfl | rfl | rfl | ⟨i, -, rfl⟩ | ⟨i, -, rfl⟩ | ⟨i, -, rfl⟩ | ⟨i, -, rfl⟩ <;> exact Table.noConfusion

theorem parentOf_parents (hs : Sound db) {pr : PullRequestEvent} {parentId : Nat} {parent : Application}
    (h : (parentId, parent) ∈ pr.parents db) : ∃ t, ParentOf db t parentId parent := by
  obtain ⟨⟨k, row⟩, hmem, hrow⟩ := List.mem_filterMap.1 h
  have hfind := find_of_mem hs.intact.nodup hmem
  cases row with
  | application r =>
      dsimp only at hrow
      split at hrow
      next =>
        obtain ⟨rfl, rfl⟩ := Prod.mk.inj (Option.some.inj hrow)
        obtain ⟨t, ht⟩ := hs.owned k _ hfind
        exact ⟨t, ht, fun l hl => (hs.linked k _ hfind l hl (application_link_ne_users hl)).trans ht⟩
      next => cases hrow
  | _ => cases hrow

theorem owner_of_existing (hs : Sound db) {pr : PullRequestEvent} {parentId previewId : Nat}
    (h : pr.existing db parentId = some previewId) (hparent : db.owner parentId = some t) : db.owner previewId = some t := by
  obtain ⟨⟨k, row⟩, he, rfl⟩ := Option.map_eq_some_iff.1 h
  have hfind := find_of_mem hs.intact.nodup (List.mem_of_find?_eq_some he)
  have hp := List.find?_some he
  cases row with
  | application r =>
      have hpreview : r.previewOfId = some parentId := (of_decide_eq_true hp).1
      have hlink : (.applications, parentId) ∈ (Row.application r).links := by
        rw [links_application]
        exact Or.inr (Or.inr (Or.inr (Or.inr (Or.inl ⟨parentId, hpreview, rfl⟩))))
      exact (hs.linked k _ hfind _ hlink Table.noConfusion).symm.trans hparent
  | _ => cases hp

theorem safe_applyToParent (pr : PullRequestEvent) {parentId : Nat} {parent : Application} {k : Route}
    (hparent : ParentOf db t parentId parent) (h : ∀ d, Later db d → SafeFor .nobody k d) :
    SafeFor .nobody (applyToParent pr parentId parent k) db := by
  refine safe_select fun d hd hs => safe_select fun e he _ => ?_
  have hde := hd.trans he
  have hparent' := hparent.later hde
  have hexisting : ∀ previewId, pr.existing d parentId = some previewId → e.owner previewId = some t := fun _ hsome =>
    he.owner _ _ (owner_of_existing hs hsome (hd.owner _ _ hparent.owner))
  dsimp only
  split
  next => exact h e hde
  next previewId _ hsome =>
    exact safe_remove trivial (hexisting previewId hsome) (not_lasting Table.noConfusion Table.noConfusion Table.noConfusion)
      fun f hf _ => h f (hde.trans hf)
  next previewId _ hsome =>
    split
    next =>
      exact safe_changeApplication trivial (hexisting previewId hsome) (fun r _ hl => Or.inl hl) fun f hf _ =>
        h f (hde.trans hf)
    next => exact h e hde
  next =>
    split
    next =>
      have hlinks := hparent'.links
      simp only [links_application] at hlinks
      refine safe_create (t := t) trivial (List.cons_ne_nil _ _) (fun l hl _ => ?_) fun f previewId hf _ howner => ?_
      · rw [links_application] at hl
        rcases hl with hl | hl | hl | hl | ⟨i, hi, rfl⟩ | hl
        · exact hlinks l (Or.inl hl)
        · exact hlinks l (Or.inr (Or.inl hl))
        · exact hlinks l (Or.inr (Or.inr (Or.inl hl)))
        · exact hlinks l (Or.inr (Or.inr (Or.inr (Or.inl hl))))
        · obtain rfl := Option.some.inj hi
          exact hparent'.owner
        · exact hlinks l (Or.inr (Or.inr (Or.inr (Or.inr (Or.inr hl)))))
      · exact safe_copyVolumes trivial (hf.owner _ _ hparent'.owner) howner fun g hg _ => h g ((hde.trans hf).trans hg)
    next => exact h e hde

theorem safe_handleParents (pr : PullRequestEvent) {parents : List (Nat × Application)}
    (h : ∀ e ∈ parents, ∃ t, ParentOf db t e.1 e.2) : SafeFor .nobody (handleParents pr parents) db := by
  induction parents generalizing db with
  | nil => trivial
  | cons e parents ih =>
      obtain ⟨t, ht⟩ := h e List.mem_cons_self
      refine safe_applyToParent pr ht fun d hd => ih fun e' he' => ?_
      obtain ⟨t', ht'⟩ := h e' (List.mem_cons_of_mem _ he')
      exact ⟨t', ht'.later hd⟩

theorem safe_handlePullRequestEvent (pr : PullRequestEvent) : SafeFor .nobody (handlePullRequestEvent pr) db := by
  rw [handlePullRequestEvent]
  split
  next => trivial
  next =>
    refine safe_select fun d _ hs => safe_handleParents pr fun e he => ?_
    exact parentOf_parents hs he

end Routes

end Yeah.Teams
