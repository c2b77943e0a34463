import Yeah.Images.Trim
import Mathlib.Data.Bool.AllAny

namespace Yeah.Images

open Text

/-- The image refs of the last N successful deployments of every application on the server that keeps rollback images. -/
def rollbackImageRefs (tables : Tables) (serverId : String) : List String :=
  let apps := tables.applications.filter fun app => app.serverId = serverId ∧ app.rollbackImages > 0
  apps.flatMap fun app =>
    let rows := (history tables app.id).take rowLimit
    (deploymentsToRetain (rows.map Deployment.like) app.rollbackImages).map fun d => deploymentImageRef app.id d.id

/-- What a cleanup with image pruning may delete while some images are protected. -/
def selectImagesToRemove (images : List DockerImageInfo) (protectedRefs : List String) : List String :=
  let protectedIds := (images.filter fun i => protectedRefs.contains i.ref).map DockerImageInfo.id
  let inUseIds := (images.filter DockerImageInfo.inUse).map DockerImageInfo.id
  ((images.filter fun i => !(inUseIds.contains i.id || protectedIds.contains i.id)).map DockerImageInfo.id).eraseDups

structure DockerCleanupOptions where
  pruneImages : Bool
  removeImageIds : Option (List String)

def cleanupOptions (tables : Tables) (serverId : String) (pruneImages : Bool)
    (listing : List Char) : DockerCleanupOptions :=
  let protectedRefs := rollbackImageRefs tables serverId
  if pruneImages ∧ protectedRefs ≠ [] then ⟨pruneImages, some (selectImagesToRemove (parseDockerImages listing) protectedRefs)⟩
  else ⟨pruneImages, none⟩

namespace DockerCleanupOptions

variable (opts : DockerCleanupOptions)

/-- The `-a` of `docker system prune`. -/
def prunesAll : Bool := opts.pruneImages && opts.removeImageIds.isNone

/-- `/^[0-9a-f]{12,64}$/` -/
def isRemovable (id : String) : Bool :=
  12 ≤ id.toList.length ∧ id.toList.length ≤ 64 ∧ id.toList.all isHexDigit

def removed : List String :=
  if opts.pruneImages then (opts.removeImageIds.getD []).filter isRemovable else []

end DockerCleanupOptions

namespace Docker

variable (docker : Docker)

def runs (id : ImageId) : Bool := docker.containers.any fun c => c.running && decide (c.image = id)

def dangling (id : ImageId) : Bool :=
  docker.rows.all fun r => !decide (r.id = id) || (decide (r.repository.text = "<none>") && decide (r.tag.text = "<none>"))

/-- `docker system prune -f` takes the stopped containers first, then of the images that no container is left of the untagged ones, and
with `-a` all. -/
def prunes (all : Bool) (id : ImageId) : Bool := !docker.runs id && (all || docker.dangling id)

end Docker

def selects (docker : Docker) (opts : DockerCleanupOptions) (id : ImageId) : Bool :=
  docker.prunes opts.prunesAll id || opts.removed.contains id.short

variable (tables : Tables) (serverId : String) (docker : Docker)

/-- The row has the tag of one of the newest successful deployments of an application on the server. -/
def Kept (r : Row) : Prop :=
  ∃ app ∈ tables.applications, app.serverId = serverId ∧
    ∃ d ∈ newest (history tables app.id) app.rollbackImages, r.Carries app.id d

/-- Such a deployment that is among the newest of its application. -/
def KeptRecent (r : Row) : Prop :=
  ∃ app ∈ tables.applications, app.serverId = serverId ∧
    ∃ d ∈ newest (history tables app.id) app.rollbackImages, d ∈ (history tables app.id).take rowLimit ∧
      r.Carries app.id d

/-- No application on the server has such a deployment. -/
def NoneRecent : Prop :=
  ∀ app ∈ tables.applications, app.serverId = serverId →
    ∀ d ∈ newest (history tables app.id) app.rollbackImages, d ∉ (history tables app.id).take rowLimit

/-- Some image with the same twelve digits is used, or has the tag of such a deployment. -/
def Covered (id : ImageId) : Prop :=
  ∃ r ∈ docker.rows, r.id.short = id.short ∧ (docker.uses r.id ∨ KeptRecent tables serverId r)

section Select

variable {tables serverId docker}

theorem mem_rollbackImageRefs {ref : String} :
    ref ∈ rollbackImageRefs tables serverId ↔
      ∃ app ∈ tables.applications, app.serverId = serverId ∧
        ∃ d ∈ newest (history tables app.id) app.rollbackImages, d ∈ (history tables app.id).take rowLimit ∧
          deploymentImageRef app.id d.id = ref := by
  have hretained (app : Application) (d : DeploymentLike) :
      d ∈ deploymentsToRetain (((history tables app.id).take rowLimit).map Deployment.like) app.rollbackImages ↔
        ∃ d' ∈ newest (history tables app.id) app.rollbackImages, d' ∈ (history tables app.id).take rowLimit ∧ d'.like = d := by
    rw [retained_eq ((history_pairwise tables app.id).sublist (List.take_sublist _ _)), List.mem_map]
    apply exists_congr
    intro d'
    rw [mem_newest_take (history_nodup tables app.id), and_assoc]
  rw [rollbackImageRefs, List.mem_flatMap]
  constructor
  · rintro ⟨app, happ, href⟩
    obtain ⟨hmem, hserver⟩ := List.mem_filter.1 happ
    obtain ⟨d, hd, rfl⟩ := List.mem_map.1 href
    obtain ⟨d', hnew, hrecent, rfl⟩ := (hretained app d).1 hd
    exact ⟨app, hmem, (of_decide_eq_true hserver).1, d', hnew, hrecent, rfl⟩
  · rintro ⟨app, hmem, hserver, d, hnew, hrecent, rfl⟩
    have hkeep : 0 < app.rollbackImages := by
      rw [Nat.pos_iff_ne_zero]
      intro hzero
      rw [hzero] at hnew
      cases hnew
    exact ⟨app, List.mem_filter.2 ⟨hmem, decide_eq_true ⟨hserver, hkeep⟩⟩,
      List.mem_map.2 ⟨d.like, (hretained app d.like).2 ⟨d, hnew, hrecent, rfl⟩, rfl⟩⟩

theorem ref_mem_rollbackImageRefs (r : Row) :
    r.ref ∈ rollbackImageRefs tables serverId ↔ KeptRecent tables serverId r := by
  rw [mem_rollbackImageRefs, KeptRecent]
  refine exists_congr fun app => and_congr_right fun _ => and_congr_right fun _ => exists_congr fun d => and_congr_right fun _ =>
    and_congr_right fun _ => ?_
  rw [eq_comm, ref_eq_iff]

theorem rollbackImageRefs_eq_nil_iff :
    rollbackImageRefs tables serverId = [] ↔ NoneRecent tables serverId := by
  rw [List.eq_nil_iff_forall_not_mem, NoneRecent]
  constructor
  · intro h app happ hserver d hd hrecent
    exact h _ (mem_rollbackImageRefs.2 ⟨app, happ, hserver, d, hd, hrecent, rfl⟩)
  · intro h ref href
    obtain ⟨app, happ, hserver, d, hd, hrecent, -⟩ := mem_rollbackImageRefs.1 href
    exact h app happ hserver d hd hrecent

theorem isRemovable_short (id : ImageId) : DockerCleanupOptions.isRemovable id.short = true := by
  have hlist : id.short.toList = id.digits.toList.take 12 := String.toList_ofList
  have hlength : (id.digits.toList.take 12).length = 12 := by
    rw [List.length_take, id.length_eq]
    rfl
  rw [DockerCleanupOptions.isRemovable, hlist, hlength, decide_eq_true_iff]
  exact ⟨by decide, by decide, List.all_eq_true.2 fun c hc => id.hex c (List.mem_of_mem_take hc)⟩

/-- The selection is by the first twelve digits. -/
theorem mem_selectImagesToRemove {r : Row} (hr : r ∈ docker.rows) :
    r.id.short ∈ selectImagesToRemove (parseDockerImages docker.listing) (rollbackImageRefs tables serverId) ↔
      ¬ Covered tables serverId docker r.id := by
  rw [parseDockerImages_listing]
  have hused (id : String) : id ∈ ((docker.rows.map fun r => r.info docker.uses).filter DockerImageInfo.inUse).map DockerImageInfo.id ↔
      ∃ r ∈ docker.rows, r.id.short = id ∧ docker.uses r.id = true := by
    rw [List.filter_map, List.map_map, List.mem_map]
    apply exists_congr
    intro r
    rw [List.mem_filter, and_assoc, and_comm (b := docker.uses r.id = true)]
    rfl
  have hprotected (id : String) : id ∈ ((docker.rows.map fun r => r.info docker.uses).filter
        fun i => (rollbackImageRefs tables serverId).contains i.ref).map DockerImageInfo.id ↔
      ∃ r ∈ docker.rows, r.id.short = id ∧ KeptRecent tables serverId r := by
    rw [List.filter_map, List.map_map, List.mem_map]
    apply exists_congr
    intro r
    rw [List.mem_filter, and_assoc, and_comm (a := _ = true), ← ref_mem_rollbackImageRefs r]
    exact and_congr_right fun _ => and_congr_right fun _ => List.contains_iff_mem
  have hcovered : Covered tables serverId docker r.id ↔
      (∃ r' ∈ docker.rows, r'.id.short = r.id.short ∧ docker.uses r'.id = true) ∨
        ∃ r' ∈ docker.rows, r'.id.short = r.id.short ∧ KeptRecent tables serverId r' := by
    rw [Covered, ← exists_or]
    apply exists_congr
    intro r'
    rw [← and_or_left, ← and_or_left]
  rw [hcovered, ← hused, ← hprotected, selectImagesToRemove, List.mem_eraseDups, List.mem_map]
  constructor
  · rintro ⟨i, hi, hid⟩
    have hfree := (List.mem_filter.1 hi).2
    rw [hid, Bool.not_eq_true', Bool.or_eq_false_iff, List.contains_eq_mem, List.contains_eq_mem, decide_eq_false_iff_not,
      decide_eq_false_iff_not] at hfree
    exact not_or.2 hfree
  · intro h
    refine ⟨r.info docker.uses, List.mem_filter.2 ⟨List.mem_map_of_mem hr, ?_⟩, rfl⟩
    change (!(List.contains _ r.id.short || List.contains _ r.id.short)) = true
    rw [Bool.not_eq_true', Bool.or_eq_false_iff, List.contains_eq_mem, List.contains_eq_mem, decide_eq_false_iff_not,
      decide_eq_false_iff_not]
    exact not_or.1 h

variable {pruneImages : Bool}

theorem selects_iff {r : Row} (hr : r ∈ docker.rows) :
    selects docker (cleanupOptions tables serverId pruneImages docker.listing) r.id = true ↔
      (docker.runs r.id = false ∧ (docker.dangling r.id = true ∨ (pruneImages = true ∧ NoneRecent tables serverId))) ∨
        (pruneImages = true ∧ ¬ NoneRecent tables serverId ∧ ¬ Covered tables serverId docker r.id) := by
  rw [cleanupOptions, ← rollbackImageRefs_eq_nil_iff, ← mem_selectImagesToRemove hr]
  split_ifs with h
  · obtain ⟨hprune, hrefs⟩ := h
    have hids (ids : List String) : (ids.filter DockerCleanupOptions.isRemovable).contains r.id.short =
        true ↔ r.id.short ∈ ids := by
      rw [List.contains_iff_mem, List.mem_filter, and_iff_left (isRemovable_short r.id)]
    simp only [selects, Docker.prunes, DockerCleanupOptions.prunesAll, DockerCleanupOptions.removed, hprune, hrefs, Bool.or_eq_true,
      Bool.and_eq_true, Bool.not_eq_true', Option.isNone_some, Bool.and_false, Bool.false_eq_true, Option.getD_some, if_true, hids]
    tauto
  · simp only [selects, Docker.prunes, DockerCleanupOptions.prunesAll, DockerCleanupOptions.removed, Option.isNone_none, Option.getD_none,
      Bool.and_true, Bool.or_eq_true, Bool.and_eq_true, Bool.not_eq_true']
    cases pruneImages
    · simp
    · have hnil : rollbackImageRefs tables serverId = [] := by simpa using h
      simp [hnil]

theorem uses_of_runs {id : ImageId} (h : docker.runs id = true) : docker.uses id = true := by
  obtain ⟨c, hc, hruns⟩ := List.any_eq_true.1 h
  exact List.any_eq_true.2 ⟨c, hc, (Bool.and_eq_true_iff.1 hruns).2⟩

theorem covered_of_uses {r : Row} (hr : r ∈ docker.rows) (h : docker.uses r.id = true) :
    Covered tables serverId docker r.id :=
  ⟨r, hr, rfl, Or.inl h⟩

theorem not_dangling_of_kept {r : Row} (hr : r ∈ docker.rows) (h : Kept tables serverId r) :
    docker.dangling r.id = false := by
  obtain ⟨app, -, -, d, -, hrepository, -⟩ := h
  rw [Docker.dangling, List.all_eq_false]
  refine ⟨r, hr, ?_⟩
  simp [hrepository, appImageRepository_ne_none]

end Select

/-- What the cleanup must do. -/
structure CleanupSound (pruneImages : Bool) (selected : ImageId → Bool) : Prop where
  spares : ∀ r ∈ docker.rows, Kept tables serverId r → selected r.id = false
  spares_used : ∀ r ∈ docker.rows, docker.uses r.id = true → selected r.id = false
  removes : pruneImages = true → ∀ r ∈ docker.rows, docker.uses r.id = false →
    (∀ r' ∈ docker.rows, r'.id = r.id → ¬ Kept tables serverId r') → selected r.id = true

/-- When the cleanup does it. -/
structure CleanupSafe (pruneImages : Bool) : Prop where
  stopped : ∀ r ∈ docker.rows, docker.uses r.id = true → docker.runs r.id = true ∨
    (docker.dangling r.id = false ∧ (pruneImages = true → ¬ NoneRecent tables serverId))
  reached : pruneImages = true → ∀ r ∈ docker.rows, Kept tables serverId r →
    (NoneRecent tables serverId → docker.runs r.id = true) ∧
        (¬ NoneRecent tables serverId → Covered tables serverId docker r.id)
  apart : pruneImages = true → ¬ NoneRecent tables serverId →
    ∀ r ∈ docker.rows, docker.uses r.id = false →
    (∀ r' ∈ docker.rows, r'.id = r.id → ¬ Kept tables serverId r') → docker.dangling r.id = true ∨
        ¬ Covered tables serverId docker r.id

theorem cleanup_sound_iff (pruneImages : Bool) :
    CleanupSound tables serverId docker pruneImages (selects docker (cleanupOptions tables serverId pruneImages docker.listing)) ↔
      CleanupSafe tables serverId docker pruneImages := by
  constructor
  · intro h
    constructor
    · intro r hr hused
      have hspared := h.spares_used r hr hused
      rw [← Bool.not_eq_true, selects_iff hr] at hspared
      cases hruns : docker.runs r.id
      · right
        cases hdangling : docker.dangling r.id <;> simp_all
      · exact Or.inl rfl
    · intro hprune r hr hkept
      have hspared := h.spares r hr hkept
      rw [← Bool.not_eq_true, selects_iff hr] at hspared
      constructor
      · intro hnone
        by_contra hruns
        exact hspared (Or.inl ⟨Bool.eq_false_iff.2 hruns, Or.inr ⟨hprune, hnone⟩⟩)
      · intro hsome
        by_contra hcovered
        exact hspared (Or.inr ⟨hprune, hsome, hcovered⟩)
    · intro hprune hsome r hr hunused hother
      have hremoved := (selects_iff hr).1 (h.removes hprune r hr hunused hother)
      rcases hremoved with ⟨-, hdangling | ⟨-, hnone⟩⟩ | ⟨-, -, hcovered⟩
      · exact Or.inl hdangling
      · exact absurd hnone hsome
      · exact Or.inr hcovered
  · intro h
    constructor
    · intro r hr hkept
      rw [← Bool.not_eq_true, selects_iff hr, not_dangling_of_kept hr hkept]
      rintro (⟨hruns, hd | ⟨hprune, hnone⟩⟩ | ⟨hprune, hsome, hcovered⟩)
      · cases hd
      · rw [(h.reached hprune r hr hkept).1 hnone] at hruns
        cases hruns
      · exact hcovered ((h.reached hprune r hr hkept).2 hsome)
    · intro r hr hused
      rw [← Bool.not_eq_true, selects_iff hr]
      rintro (⟨hruns, hd⟩ | ⟨-, -, hcovered⟩)
      · rcases h.stopped r hr hused with hruns' | ⟨hdangling, hsome⟩
        · rw [hruns'] at hruns
          cases hruns
        · rcases hd with hd | ⟨hprune, hnone⟩
          · rw [hdangling] at hd
            cases hd
          · exact hsome hprune hnone
      · exact hcovered (covered_of_uses hr hused)
    · intro hprune r hr hunused hother
      rw [selects_iff hr]
      have hruns : docker.runs r.id = false := by
        rw [← Bool.not_eq_true]
        intro hruns
        rw [uses_of_runs hruns] at hunused
        cases hunused
      by_cases hnone : NoneRecent tables serverId
      · exact Or.inl ⟨hruns, Or.inr ⟨hprune, hnone⟩⟩
      · rcases h.apart hprune hnone r hr hunused hother with hdangling | hcovered
        · exact Or.inl ⟨hruns, Or.inl hdangling⟩
        · exact Or.inr ⟨hprune, hnone, hcovered⟩

section Failures

def failuresApp : Uuid := Uuid.fill 'a' Uuid.isAlphanum_a

theorem digitChar_hex : ∀ n : Fin 201, isHexDigit (Nat.digitChar (n / 16)) ∧
    isHexDigit (Nat.digitChar (n % 16)) := by decide +kernel

def numberText (n : Fin 201) : List Char :=
  Nat.digitChar (n / 16) :: Nat.digitChar (n % 16) :: "000000-0000-4000-8000-000000000000".toList

def numbered (n : Fin 201) : DeploymentId where
  text := String.ofList (numberText n)
  hex := by
    have hrest : ∀ c ∈ "000000-0000-4000-8000-000000000000".toList, isHexDigit c ∨ c = '-' :=
      List.all_iff_forall_prop.1 (by decide +kernel)
    rw [String.toList_ofList]
    intro c hc
    rcases List.mem_cons.1 hc with rfl | hc
    · exact Or.inl (digitChar_hex n).1
    · rcases List.mem_cons.1 hc with rfl | hc
      · exact Or.inl (digitChar_hex n).2
      · exact hrest c hc
  digits := by
    rw [String.toList_ofList]
    revert n
    decide +kernel

theorem numbered_injective : Function.Injective numbered := by
  intro m n h
  have htext : numberText m = numberText n := String.ofList_injective (congrArg DeploymentId.text h)
  have hdigit : ∀ a b : Fin 16, Nat.digitChar a = Nat.digitChar b → a = b := by decide +kernel
  obtain ⟨hhigh, htail⟩ := List.cons.inj htext
  have hlow := (List.cons.inj htail).1
  have hm := m.isLt
  have hn := n.isLt
  have hdiv := congrArg Fin.val (hdigit ⟨m / 16, by omega⟩ ⟨n / 16, by omega⟩ hhigh)
  have hmod := congrArg Fin.val (hdigit ⟨m % 16, by omega⟩ ⟨n % 16, by omega⟩ hlow)
  dsimp only at hdiv hmod
  exact Fin.ext (by omega)

def failure (n : Fin 201) : Deployment where
  id := numbered n
  applicationId := failuresApp
  status := if n = 0 then .running else if n = 200 then .success else .failed
  commitSha := none
  createdAt := 200 - n

def failures : Tables where
  applications := [⟨failuresApp, "s", 2⟩]
  deployments := (List.finRange 201).map failure
  unique := by
    rw [List.map_map]
    exact (List.nodup_finRange 201).map numbered_injective

def counted (n : Fin 201) : Deployment := (failure n).counted (numbered 0)

theorem counted_success (n : Fin 201) : (counted n).status = .success ↔ n = 0 ∨ n = 200 := by
  change (if numbered n = numbered 0 then _ else (failure n).status) = _ ↔ _
  simp only [numbered_injective.eq_iff, failure]
  split_ifs with h0 h200
  · simp [h0]
  · simp [h200]
  · simp [h0, h200]

theorem countedHistory_failures :
    countedHistory failures failuresApp (numbered 0) = (List.finRange 201).map counted := by
  have hall : failures.deployments.filter (fun d => d.applicationId = failuresApp) =
      failures.deployments := by
    rw [List.filter_eq_self]
    intro d hd
    obtain ⟨n, -, rfl⟩ := List.mem_map.1 hd
    exact decide_eq_true rfl
  have hsorted : failures.deployments.Pairwise
      fun a b => (Sorting.reversed (Sorting.comparing compare Deployment.createdAt) a b).isLE = true := by
    rw [failures, List.pairwise_map]
    apply (List.pairwise_lt_finRange 201).imp
    intro m n h
    rw [isLE_newer]
    have hlt : m.val < n.val := h
    change 200 - n.val ≤ 200 - m.val
    omega
  rw [countedHistory, history, hall, Sorting.sort, List.mergeSort_of_pairwise hsorted, failures,
    List.map_map]
  rfl

theorem newest_failures :
    newest (countedHistory failures failuresApp (numbered 0)) 2 = [counted 0, counted 200] := by
  have hends : (List.finRange 201).filter (fun n => n = 0 ∨ n = 200) = [0, 200] := by decide +kernel
  rw [countedHistory_failures, newest, List.filter_map,
    List.filter_congr (q := fun n => n = 0 ∨ n = 200), hends]
  · rfl
  · intro n _
    exact decide_eq_decide.2 (counted_success n)

def olderRow : Row where
  id :=
    ⟨String.ofList (List.replicate 64 'b'), List.all_iff_forall_prop.1 (by decide +kernel),
      by decide +kernel⟩
  repository :=
    ⟨appImageRepository failuresApp, List.all_iff_forall_prop.1 (by decide +kernel), by decide +kernel⟩
  tag :=
    ⟨deploymentImageTag (numbered 200), List.all_iff_forall_prop.1 (by decide +kernel), by decide +kernel⟩
  size := ⟨"120MB", List.all_iff_forall_prop.1 (by decide +kernel), by decide +kernel⟩
  created := ⟨"2 days ago", List.all_iff_forall_prop.1 (by decide +kernel), by decide +kernel⟩

end Failures

end Yeah.Images
