import Yeah.Runs
import Yeah.Volume.Mounts
import Mathlib.Data.List.Nodup

namespace Yeah.Volume.Copies

open Runs Text

structure State where
  applications : List Application
  volumes : List ApplicationVolume

def empty : State := ⟨[], []⟩

namespace State

variable (s : State)

def volumesOf (id : Uuid) : List ApplicationVolume := s.volumes.filter fun v => v.applicationId = id

def find (id : Uuid) : Option Application := s.applications.find? fun a => a.id = id

/-- An id that is taken is refused by the primary key. -/
def insertApplication (a : Application) : State :=
  if a.id ∈ s.applications.map (·.id) then s else { s with applications := s.applications ++ [a] }

/-- One statement: all rows or none. -/
def insertVolumes (rows : List ApplicationVolume) : State :=
  if (s.volumes.map (·.id) ++ rows.map (·.id)).Nodup ∧
    ∀ v ∈ rows, v.applicationId ∈ s.applications.map (·.id) then
    { s with volumes := s.volumes ++ rows }
  else s

end State

/-- The columns that a preview or a clone sets for itself. -/
structure Overrides where
  serverId : Option String
  branch : Option String

def applicationCopyValues (app : Application) (id : Uuid) (overrides : Overrides) : Application :=
  { app with id, serverId := overrides.serverId.getD app.serverId, branch := overrides.branch.getD app.branch }

/-- The rows of a copy: everything but the ids. -/
def copyVolumes (volumes : List ApplicationVolume) (applicationId : Uuid) (ids : Nat → Uuid) :
    List ApplicationVolume :=
  volumes.mapIdx fun i v => { v with id := ids i, applicationId }

inductive Request
  | create (app : Application)
  | update (id : Uuid) (serverId branch dockerOptions : String) (compose : Bool)
  | delete (id : Uuid)
  | addVolume (row : ApplicationVolume)
  | updateVolume (id : Uuid) (name mountPath : String) (fileContent : Option String)
  | deleteVolume (id : Uuid)
  /-- A preview or a clone, with the ids that the database makes for it. -/
  | copy (parent id : Uuid) (overrides : Overrides) (ids : Nat → Uuid)

def step (s : State) : Request → State
  | .create app => s.insertApplication app
  | .update id serverId branch dockerOptions compose =>
      { s with applications := s.applications.map fun a => if a.id = id then { a with serverId, branch, dockerOptions, compose } else a }
  | .delete id => ⟨s.applications.filter (·.id ≠ id), s.volumes.filter (·.applicationId ≠ id)⟩
  | .addVolume row => s.insertVolumes [row]
  | .updateVolume id name mountPath fileContent =>
      { s with volumes := s.volumes.map fun v => if v.id = id then { v with name, mountPath, fileContent } else v }
  | .deleteVolume id => { s with volumes := s.volumes.filter (·.id ≠ id) }
  | .copy parent id overrides ids =>
      match s.find parent with
      | none => s
      | some app =>
          if id ∈ s.applications.map (·.id) then s
          else (s.insertApplication (applicationCopyValues app id overrides)).insertVolumes (copyVolumes (s.volumesOf parent) id ids)

/-- The keys of the tables: ids are unique, and a row of a volume has its application. -/
structure Inv (s : State) : Prop where
  applications : (s.applications.map (·.id)).Nodup
  volumes : (s.volumes.map (·.id)).Nodup
  owners : ∀ v ∈ s.volumes, v.applicationId ∈ s.applications.map (·.id)

theorem Inv.insertApplication {s : State} (h : Inv s) (a : Application) :
    Inv (s.insertApplication a) := by
  rw [State.insertApplication]
  split_ifs with ha
  · exact h
  · refine ⟨?_, h.volumes, fun v hv => ?_⟩
    · rw [List.map_append]
      exact List.nodup_append.2 ⟨h.applications, List.nodup_singleton _, fun b hb c hc he => ha (by simp_all)⟩
    · simp only [List.map_append, List.mem_append]
      exact Or.inl (h.owners v hv)

theorem Inv.insertVolumes {s : State} (h : Inv s) (rows : List ApplicationVolume) :
    Inv (s.insertVolumes rows) := by
  rw [State.insertVolumes]
  split_ifs with hr
  · refine ⟨h.applications, by rw [List.map_append]; exact hr.1, fun v hv => ?_⟩
    exact (List.mem_append.1 hv).elim (h.owners v) (hr.2 v)
  · exact h

theorem map_ite {α β : Type} (key : α → β) (p : α → Prop) [DecidablePred p] (f : α → α)
    (hf : ∀ a, key (f a) = key a) (l : List α) :
    (l.map fun a => if p a then f a else a).map key = l.map key := by
  rw [List.map_map]
  refine List.map_congr_left fun a _ => ?_
  dsimp only [Function.comp]
  split_ifs
  · exact hf a
  · rfl

theorem step_inv (s : State) (r : Request) (h : Inv s) : Inv (step s r) := by
  cases r with
  | create app => exact h.insertApplication app
  | update id serverId branch dockerOptions compose =>
      have hids :=
        map_ite Application.id (·.id = id) ({ · with serverId, branch, dockerOptions, compose }) (fun _ => rfl) s.applications
      exact ⟨hids ▸ h.applications, h.volumes, fun v hv => hids ▸ h.owners v hv⟩
  | delete id =>
      refine ⟨h.applications.sublist (List.filter_sublist.map _),
        h.volumes.sublist (List.filter_sublist.map _), fun v hv => ?_⟩
      obtain ⟨hv, hid⟩ := List.mem_filter.1 hv
      obtain ⟨a, ha, he⟩ := List.mem_map.1 (h.owners v hv)
      exact List.mem_map.2 ⟨a, List.mem_filter.2 ⟨ha, by simpa [he] using hid⟩, he⟩
  | addVolume row => exact h.insertVolumes _
  | updateVolume id name mountPath fileContent =>
      have hids :=
        map_ite ApplicationVolume.id (·.id = id) ({ · with name, mountPath, fileContent }) (fun _ => rfl) s.volumes
      have howners :=
        map_ite ApplicationVolume.applicationId (·.id = id) ({ · with name, mountPath, fileContent }) (fun _ => rfl) s.volumes
      refine ⟨h.applications, hids ▸ h.volumes, fun v hv => ?_⟩
      have hm := List.mem_map_of_mem (f := ApplicationVolume.applicationId) hv
      rw [show (step s (.updateVolume id name mountPath fileContent)).volumes.map ApplicationVolume.applicationId = _ from howners] at hm
      obtain ⟨u, hu, he⟩ := List.mem_map.1 hm
      exact he ▸ h.owners u hu
  | deleteVolume id =>
      exact ⟨h.applications, h.volumes.sublist (List.filter_sublist.map _),
        fun v hv => h.owners v (List.mem_filter.1 hv).1⟩
  | copy parent id overrides ids =>
      rw [step]
      split
      · exact h
      · split_ifs
        · exact h
        · exact (h.insertApplication _).insertVolumes _

theorem run_inv (requests : List Request) : Inv (run step empty requests) :=
  along_invariant (fun s r h _ => step_inv s r h) ⟨by simp [empty], by simp [empty], by simp [empty]⟩ (along_true _ requests)

variable (docker : Docker)

/-- The containers of `a` mount nothing writable that those of `b` mount. -/
def Apart (s : State) (a b : Application) : Prop :=
  a.serverId = b.serverId → ¬ Touches (mounts docker a (s.volumesOf a.id)) (mounts docker b (s.volumesOf b.id))

/-- The condition: what `a` or `b` mounts by a given name is nothing of the other's. -/
structure Separate (s : State) (a b : Application) : Prop where
  taken : ¬ Touches (taken docker a (s.volumesOf a.id)) (taken docker b (s.volumesOf b.id))
  above : ¬ Touches (Volume.taken docker a (s.volumesOf a.id)) (own docker b (s.volumesOf b.id))
  under : ¬ Touches (own docker a (s.volumesOf a.id)) (Volume.taken docker b (s.volumesOf b.id))

theorem touches_iff {ms ms' l r l' r' : List Mount} (h : ∀ m, m ∈ ms ↔ m ∈ l ∨ m ∈ r)
    (h' : ∀ m, m ∈ ms' ↔ m ∈ l' ∨ m ∈ r') :
    Touches ms ms' ↔ (Touches l l' ∨ Touches l r') ∨ (Touches r l' ∨ Touches r r') := by
  simp only [Touches, h, h', or_and_right, exists_or, and_or_left]
  exact or_or_or_comm

theorem own_not_touches {s : State} (h : Inv s) {a b : Application} (hab : a.id ≠ b.id) :
    ¬ Touches (own docker a (s.volumesOf a.id)) (own docker b (s.volumesOf b.id)) := by
  rintro ⟨m, hm, -, m', hm', ho⟩
  refine Owned.apart hab (fun v hv v' hv' he => ?_) (own_owned docker hm) (own_owned docker hm') ho
  simp only [State.volumesOf, List.mem_filter, decide_eq_true_eq] at hv hv'
  obtain rfl := List.inj_on_of_nodup_map h.volumes hv.1 hv'.1 he
  exact hab (hv.2.symm.trans hv'.2)

theorem apart_iff {s : State} (h : Inv s) {a b : Application} (hab : a.id ≠ b.id) :
    Apart docker s a b ↔ (a.serverId = b.serverId → Separate docker s a b) := by
  rw [Apart, touches_iff (mem_mounts docker a _) (mem_mounts docker b _)]
  refine forall_congr' fun _ => ⟨fun hn => ?_, fun hs => ?_⟩
  · exact ⟨fun ht => hn (Or.inr (Or.inr ht)), fun ht => hn (Or.inr (Or.inl ht)),
      fun ht => hn (Or.inl (Or.inr ht))⟩
  · rintro ((ht | ht) | (ht | ht))
    · exact own_not_touches docker h hab ht
    · exact hs.under ht
    · exact hs.above ht
    · exact hs.taken ht

/-- A copy that is made: the parent is there, and the database makes ids that are new. -/
structure Makes (s : State) (parent id : Uuid) (ids : Nat → Uuid) (app : Application) : Prop where
  found : s.find parent = some app
  fresh : id ∉ s.applications.map (·.id)
  distinct : (s.volumes.map (·.id) ++ (copyVolumes (s.volumesOf parent) id ids).map (·.id)).Nodup

theorem filterMap_mapIdx {α β γ : Type} (f : Nat → α → β) (g : β → Option γ) (g' : α → Option γ)
    (h : ∀ i a, g (f i a) = g' a)
    (l : List α) : (l.mapIdx f).filterMap g = l.filterMap g' := by
  induction l generalizing f with
  | nil => rfl
  | cons a l ih => rw [List.mapIdx_cons, List.filterMap_cons, List.filterMap_cons, h, ih _ fun i b => h (i + 1) b]

section Made

variable {s : State} {parent id : Uuid} {overrides : Overrides} {ids : Nat → Uuid} {app : Application}

theorem Makes.mem (h : Makes s parent id ids app) : app ∈ s.applications ∧ app.id = parent :=
  ⟨List.mem_of_find?_eq_some h.found, by simpa using List.find?_some h.found⟩

theorem copyVolumes_owner {volumes : List ApplicationVolume} {v : ApplicationVolume}
    (h : v ∈ copyVolumes volumes id ids) :
    v.applicationId = id := by
  obtain ⟨i, hi, rfl⟩ := List.mem_mapIdx.1 h
  rfl

theorem step_copy (h : Makes s parent id ids app) :
    step s (.copy parent id overrides ids) =
      ⟨s.applications ++ [applicationCopyValues app id overrides],
        s.volumes ++ copyVolumes (s.volumesOf parent) id ids⟩ := by
  rw [step, h.found]
  dsimp only
  have hfresh : (applicationCopyValues app id overrides).id ∉ s.applications.map (·.id) := h.fresh
  rw [if_neg h.fresh, State.insertApplication, if_neg hfresh, State.insertVolumes, if_pos]
  refine ⟨h.distinct, fun v hv => ?_⟩
  rw [copyVolumes_owner hv]
  simp [applicationCopyValues]

theorem volumesOf_parent (h : Makes s parent id ids app) :
    (step s (.copy parent id overrides ids)).volumesOf app.id = s.volumesOf parent := by
  obtain ⟨hmem, rfl⟩ := h.mem
  have hnone : (copyVolumes (s.volumesOf app.id) id ids).filter (fun v => v.applicationId = app.id) = [] := by
    refine List.filter_eq_nil_iff.2 fun v hv he => ?_
    rw [copyVolumes_owner hv, decide_eq_true_eq] at he
    exact h.fresh (he ▸ List.mem_map_of_mem hmem)
  rw [step_copy h, State.volumesOf, List.filter_append, hnone, List.append_nil]
  rfl

theorem volumesOf_copy (hi : Inv s) (h : Makes s parent id ids app) :
    (step s (.copy parent id overrides ids)).volumesOf id = copyVolumes (s.volumesOf parent) id ids := by
  rw [step_copy h, State.volumesOf, List.filter_append, List.filter_eq_nil_iff.2, List.nil_append,
    List.filter_eq_self.2]
  · intro v hv
    simpa using copyVolumes_owner hv
  · intro v hv he
    rw [decide_eq_true_eq] at he
    exact h.fresh (he ▸ hi.owners v hv)

theorem rowMount_taken (a b i : Uuid) {v : ApplicationVolume} (h : (takenPath v).isSome = true) :
    rowMount a { v with id := i, applicationId := a } = rowMount b v := by
  obtain ⟨path, hp⟩ := Option.isSome_iff_exists.1 h
  have hp' : takenPath { v with id := i, applicationId := a } = some path := hp
  simp only [rowMount, mountSource, hp, hp']

theorem rowMount_isSome (a b i : Uuid) (v : ApplicationVolume) :
    (rowMount a { v with id := i, applicationId := a }).isSome = (rowMount b v).isSome := by
  cases hp : takenPath v with
  | some path => rw [rowMount_taken a b i (by simp [hp])]
  | none =>
      have hp' : takenPath { v with id := i, applicationId := a } = none := hp
      rw [rowMount_own hp, rowMount_own hp', Option.isSome_map, Option.isSome_map]

theorem accepted_copy (volumes : List ApplicationVolume) :
    Accepted (applicationCopyValues app id overrides) (copyVolumes volumes id ids) ↔
      Accepted app volumes := by
  simp only [Accepted, copyVolumes, List.mem_mapIdx]
  constructor
  · intro h v hv
    obtain ⟨i, hi, rfl⟩ := List.mem_iff_getElem.1 hv
    rw [← rowMount_isSome id app.id (ids i)]
    exact h _ ⟨i, hi, rfl⟩
  · rintro h _ ⟨i, hi, rfl⟩
    exact (rowMount_isSome id app.id (ids i) _).trans (h _ (List.getElem_mem hi))

/-- What a copy mounts by a given name is what its parent mounts so. -/
theorem taken_copy (volumes : List ApplicationVolume) (hc : app.compose = false) :
    taken docker (applicationCopyValues app id overrides) (copyVolumes volumes id ids) = taken docker app volumes := by
  have hc' : (applicationCopyValues app id overrides).compose = false := hc
  have hrows : ((copyVolumes volumes id ids).filter fun v => (takenPath v).isSome).filterMap (rowMount id) =
      (volumes.filter fun v => (takenPath v).isSome).filterMap (rowMount app.id) := by
    rw [List.filterMap_filter, List.filterMap_filter]
    refine filterMap_mapIdx _ _ _ (fun i v => ?_) volumes
    change (if (takenPath v).isSome = true then rowMount id { v with id := ids i, applicationId := id } else none) = _
    by_cases ht : (takenPath v).isSome = true
    · rw [if_pos ht, if_pos ht]
      exact rowMount_taken id app.id (ids i) ht
    · rw [if_neg ht, if_neg ht]
  rw [taken, taken, hc, hc', if_neg Bool.false_ne_true, if_neg Bool.false_ne_true]
  by_cases ha : Accepted app volumes
  · rw [if_pos ha, if_pos ((accepted_copy volumes).2 ha)]
    exact congrArg (· ++ _) hrows
  · rw [if_neg ha, if_neg fun h => ha ((accepted_copy volumes).1 h)]

end Made

theorem overlap_refl (a : String) : Overlap a a := by
  rw [Overlap]
  split
  · exact Or.inl List.prefix_rfl
  · rfl

theorem touches_self_iff (ms : List Mount) : Touches ms ms ↔ ∃ m ∈ ms, m.writable = true :=
  ⟨fun ⟨m, hm, hw, _⟩ => ⟨m, hm, hw⟩, fun ⟨m, hm, hw⟩ => ⟨m, hm, hw, m, hm, overlap_refl _⟩⟩

theorem not_touches_of_readOnly {ms ms' : List Mount} (h : ¬ ∃ m ∈ ms, m.writable = true) :
    ¬ Touches ms ms' :=
  fun ⟨m, hm, hw, _⟩ => h ⟨m, hm, hw⟩

/-- The condition at the moment of the copy, for an application of one container: nothing that it mounts by a given
name is writable, or lies over what is the copy's own. -/
theorem separate_copy_iff {s : State} (hi : Inv s) {parent id : Uuid} {overrides : Overrides}
    {ids : Nat → Uuid} {app : Application}
    (h : Makes s parent id ids app) (hc : app.compose = false) :
    Separate docker (step s (.copy parent id overrides ids)) (applicationCopyValues app id overrides) app ↔
      (∀ m ∈ taken docker app (s.volumesOf app.id), m.writable = false) ∧
        ¬ Touches (own docker (applicationCopyValues app id overrides) (copyVolumes (s.volumesOf app.id) id ids))
          (taken docker app (s.volumesOf app.id)) := by
  have hparent := @volumesOf_parent _ _ _ overrides _ _ h
  have hcopy : (step s (.copy parent id overrides ids)).volumesOf (applicationCopyValues app id overrides).id = _ :=
    volumesOf_copy hi h
  obtain ⟨-, rfl⟩ := h.mem
  have hro : ¬ Touches (taken docker app (s.volumesOf app.id)) (taken docker app (s.volumesOf app.id)) ↔
      ∀ m ∈ taken docker app (s.volumesOf app.id), m.writable = false := by
    rw [touches_self_iff]
    simp
  constructor
  · rintro ⟨ht, -, hu⟩
    rw [hcopy, hparent] at hu
    rw [hcopy, hparent, taken_copy docker _ hc] at ht
    exact ⟨hro.1 ht, hu⟩
  · rintro ⟨ht, hu⟩
    refine ⟨?_, ?_, ?_⟩
    · rw [hcopy, hparent, taken_copy docker _ hc]
      exact hro.2 ht
    · rw [hcopy, hparent, taken_copy docker _ hc]
      exact not_touches_of_readOnly fun ⟨m, hm, hw⟩ => absurd hw (by simp [ht m hm])
    · rwa [hcopy, hparent]

/-- When a copy is made, and at every later time, copies of copies included. -/
theorem run_copy_apart_iff (requests : List Request) {parent id : Uuid} {overrides : Overrides}
    {ids : Nat → Uuid} {app : Application}
    (h : Makes (run step empty requests) parent id ids app) (later : List Request) :
    let s := step (run step empty requests) (.copy parent id overrides ids)
    let copy := applicationCopyValues app id overrides
    (app ∈ s.applications ∧ copy ∈ s.applications ∧ (Apart docker s copy app ↔ (copy.serverId = app.serverId → Separate docker s copy app))) ∧
      (app.compose = false → (Separate docker s copy app ↔ (∀ m ∈ taken docker app (s.volumesOf app.id), m.writable = false) ∧
        ¬ Touches (own docker copy (s.volumesOf id)) (taken docker app (s.volumesOf app.id)))) ∧
      ∀ a ∈ (run step s later).applications, ∀ b ∈ (run step s later).applications, a.id ≠ b.id →
        (Apart docker (run step s later) a b ↔ (a.serverId = b.serverId → Separate docker (run step s later) a b)) := by
  intro s copy
  have hi : Inv s := step_inv _ _ (run_inv requests)
  have hs : s = _ := step_copy h
  have hid : copy.id ≠ app.id := fun he => h.fresh (List.mem_map.2 ⟨app, h.mem.1, he.symm⟩)
  refine ⟨⟨?_, ?_, apart_iff docker hi hid⟩, fun hc => ?_, fun a _ b _ hab => ?_⟩
  · rw [hs]
    exact List.mem_append_left _ h.mem.1
  · rw [hs]
    exact List.mem_append_right _ (List.mem_singleton_self _)
  · have hparent : s.volumesOf app.id = _ := volumesOf_parent h
    have hcopy : s.volumesOf id = _ := volumesOf_copy (run_inv requests) h
    obtain ⟨-, rfl⟩ := h.mem
    rw [hparent, hcopy]
    exact separate_copy_iff docker (run_inv requests) h hc
  · exact apart_iff docker (along_invariant (fun s r h _ => step_inv s r h) hi (along_true s later)) hab

def site : Application := ⟨.fill 'a' Uuid.isAlphanum_a, "server", false, "main", ""⟩

def row (kind : VolumeKind) : ApplicationVolume :=
  ⟨.fill 'b' rfl, site.id, "data", "/data", kind, some "/srv/data", none⟩

def noOptions : Docker := ⟨fun _ => [], fun _ => []⟩

def newIds (i : Nat) : Uuid := if i = 0 then .fill 'd' rfl else .fill 'e' rfl

/-- A clone on the same server. -/
abbrev clone : Request := .copy site.id (.fill 'c' rfl) ⟨none, none⟩ newIds

def cloned : Application := applicationCopyValues site (.fill 'c' rfl) ⟨none, none⟩

theorem run_site (kind : VolumeKind) :
    run step empty [.create site, .addVolume (row kind)] = ⟨[site], [row kind]⟩ := by
  simp [run, step, empty, State.insertApplication, State.insertVolumes, row]

theorem makes_site (kind : VolumeKind) :
    Makes (run step empty [.create site, .addVolume (row kind)]) site.id (.fill 'c' rfl) newIds site := by
  rw [run_site]
  exact ⟨by simp [State.find], by simp [site], by simp [State.volumesOf, copyVolumes, row, newIds]⟩

theorem volumesOf_site (kind : VolumeKind) :
    (step (run step empty [.create site, .addVolume (row kind)]) clone).volumesOf site.id = [row kind] := by
  rw [volumesOf_parent (makes_site kind), run_site]
  simp [State.volumesOf, row]

/-- A volume of docker's own is not shared. -/
theorem run_copy_apart_iff_volume :
    Apart noOptions (run step empty [.create site, .addVolume (row .volume), clone]) cloned site := by
  have h :=
    @run_copy_apart_iff noOptions [.create site, .addVolume (row .volume)] _ _ ⟨none, none⟩ _ _ (makes_site .volume) []
  have ht : taken noOptions site [row .volume] = [] := by simp [taken, site, noOptions, row, takenPath]
  refine h.1.2.2.2 fun _ => (h.2.1 rfl).2 ?_
  rw [volumesOf_site, ht]
  exact ⟨by simp, by simp [Touches]⟩

/-- A directory of the server is: the clone writes to it. -/
theorem bind_shared : ¬ Apart noOptions (run step empty [.create site, .addVolume (row .bind), clone]) cloned site := by
  have hi := run_inv [.create site, .addVolume (row .bind)]
  have hr : rowMount site.id (row .bind) = some ⟨"/srv/data", "/data", true⟩ := by rfl
  have ht : taken noOptions site [row .bind] = [⟨"/srv/data", "/data", true⟩] := by
    have ha : Accepted site [row .bind] := by simp [Accepted, hr]
    have hf : [row .bind].filter (fun v => (takenPath v).isSome) = [row .bind] := by simp [row, takenPath]
    rw [taken, if_neg (by simp [site]), if_pos ha, hf, List.filterMap_cons, hr]
    rfl
  change ¬ Apart noOptions (step (run step empty [.create site, .addVolume (row .bind)]) clone) cloned site
  rw [apart_iff noOptions (step_inv _ _ hi) (by simp [cloned, applicationCopyValues, site])]
  intro h
  have hro := ((separate_copy_iff noOptions hi (makes_site .bind) rfl).1 (h rfl)).1
  have hv : (run step empty [.create site, .addVolume (row .bind)]).volumesOf site.id = [row .bind] := by
    rw [run_site]
    simp [State.volumesOf, row]
  rw [hv, ht] at hro
  exact absurd (hro _ (List.mem_singleton_self _)) (by simp)

end Yeah.Volume.Copies
