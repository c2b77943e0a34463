import Yeah.Deploy.Application
import Yeah.Images.Listing
import Yeah.Sorting
import Mathlib.Data.List.Nodup

namespace Yeah.Images

open Text Sorting

/-- The id of a deployment: thirty-two hexadecimal digits with dashes between them. -/
structure DeploymentId where
  text : String
  hex : ∀ c ∈ text.toList, isHexDigit c ∨ c = '-'
  digits : (text.toList.filter (· ≠ '-')).length = 32
  deriving DecidableEq

structure Deployment where
  id : DeploymentId
  applicationId : Uuid
  status : Deploy.DeploymentStatus
  commitSha : Option String
  /-- In microseconds. -/
  createdAt : Nat

structure Application where
  id : Uuid
  serverId : String
  rollbackImages : Nat

structure Tables where
  applications : List Application
  deployments : List Deployment
  unique : (deployments.map Deployment.id).Nodup

structure DeploymentLike where
  id : DeploymentId
  status : Deploy.DeploymentStatus
  commitSha : Option String
  /-- In milliseconds, as in its text, which sorts as the time does. -/
  createdAt : Nat

def deploymentImageTag (id : DeploymentId) : String :=
  "dep-" ++ String.ofList (((id.text.toList.filter (· ≠ '-')).take 12).map Char.toLower)

def deploymentImageRef (applicationId : Uuid) (id : DeploymentId) : String :=
  appImageRepository applicationId ++ ":" ++ deploymentImageTag id

/-- The deployments whose images must be kept: the newest `keep` successful ones. -/
def deploymentsToRetain (deployments : List DeploymentLike) (keep : Nat) : List DeploymentLike :=
  if keep = 0 then []
  else (sort (reversed (comparing compare DeploymentLike.createdAt)) (deployments.filter fun d => d.status = .success)).take keep

/-- Deployment tags present on the server that are no longer among the retained ones. -/
def staleDeploymentRefs (images : List AppImage) (retained : List DeploymentLike) : List String :=
  let keepTags := retained.map fun d => deploymentImageTag d.id
  (images.filter fun i => i.deploymentTag.any fun tag => !keepTags.contains tag).map AppImage.ref

/-- All deployments of an application, in the order in which the database gives them. -/
def history (tables : Tables) (applicationId : Uuid) : List Deployment :=
  sort (reversed (comparing compare Deployment.createdAt)) (tables.deployments.filter fun d => d.applicationId = applicationId)

def rowLimit : Nat := 200

namespace Deployment

def like (d : Deployment) : DeploymentLike := ⟨d.id, d.status, d.commitSha, d.createdAt / 1000⟩

/-- The current deployment counts as a success: it only gets its final status right after. -/
def counted (current : DeploymentId) (d : Deployment) : Deployment :=
  { d with status := if d.id = current then .success else d.status }

end Deployment

/-- The tags that the trimming after a deployment removes. -/
def trimRollbackImages (tables : Tables) (applicationId : Uuid) (current : DeploymentId) (keep : Nat)
    (output : List Char) : List String :=
  let rows := (history tables applicationId).take rowLimit
  let retained := deploymentsToRetain (rows.map fun d => (d.counted current).like) keep
  staleDeploymentRefs (parseAppImages output applicationId) retained

def newest (ds : List Deployment) (keep : Nat) : List Deployment :=
  (ds.filter fun d => d.status = .success).take keep

def Row.Carries (r : Row) (applicationId : Uuid) (d : Deployment) : Prop :=
  r.repository.text = appImageRepository applicationId ∧ r.tag.text = deploymentImageTag d.id

section Retained

theorem isLE_newer {α : Type} (f : α → Nat) (a b : α) :
    (reversed (comparing compare f) a b).isLE = true ↔ f b ≤ f a := by
  rw [reversed, comparing, Nat.isLE_compare]

variable {ds : List Deployment} {keep : Nat} {d : Deployment}

theorem retained_eq (h : ds.Pairwise fun a b => b.createdAt ≤ a.createdAt) (keep : Nat) :
    deploymentsToRetain (ds.map Deployment.like) keep = (newest ds keep).map Deployment.like := by
  rw [deploymentsToRetain, newest]
  split_ifs with hkeep
  · rw [hkeep]
    rfl
  · have hsorted : ((ds.filter fun d => d.status = .success).map Deployment.like).Pairwise
        fun a b => (reversed (comparing compare DeploymentLike.createdAt) a b).isLE = true := by
      rw [List.pairwise_map]
      apply (h.filter _).imp
      intro a b hab
      exact (isLE_newer DeploymentLike.createdAt _ _).2 (Nat.div_le_div_right hab)
    rw [List.filter_map, sort, List.map_take]
    exact congrArg (List.take keep) (List.mergeSort_of_pairwise hsorted)

/-- The limit of the query hides no deployment but those behind it. -/
theorem mem_newest_take (h : ds.Nodup) (k : Nat) :
    d ∈ newest (ds.take k) keep ↔ d ∈ newest ds keep ∧ d ∈ ds.take k := by
  have hsplit : newest ds keep = newest (ds.take k) keep ++
      ((ds.drop k).filter fun d => d.status = .success).take (keep - ((ds.take k).filter fun d => d.status = .success).length) := by
    rw [newest, newest, ← List.take_append, ← List.filter_append, List.take_append_drop]
  rw [hsplit, List.mem_append]
  constructor
  · intro hd
    exact ⟨Or.inl hd, List.mem_of_mem_filter (List.mem_of_mem_take hd)⟩
  · rintro ⟨hd | hd, hk⟩
    · exact hd
    · have hdrop : d ∈ ds.drop k := List.mem_of_mem_filter (List.mem_of_mem_take hd)
      exact absurd hdrop (List.disjoint_take_drop h (Nat.le_refl k) hk)

variable (tables : Tables) (applicationId : Uuid)

theorem history_pairwise : (history tables applicationId).Pairwise fun a b => b.createdAt ≤ a.createdAt :=
  (sort_pairwise _).imp fun h => (isLE_newer _ _ _).1 h

theorem history_unique : ((history tables applicationId).map Deployment.id).Nodup := by
  have hfilter : ((tables.deployments.filter fun d => d.applicationId = applicationId).map Deployment.id).Nodup :=
    tables.unique.sublist (List.filter_sublist.map _)
  exact ((List.mergeSort_perm _ _).map Deployment.id).nodup_iff.2 hfilter

theorem history_nodup : (history tables applicationId).Nodup :=
  List.Nodup.of_map _ (history_unique tables applicationId)

variable (current : DeploymentId)

def countedHistory : List Deployment := (history tables applicationId).map (Deployment.counted current)

theorem countedHistory_nodup : (countedHistory tables applicationId current).Nodup := by
  apply List.Nodup.of_map Deployment.id
  rw [countedHistory, List.map_map]
  exact history_unique tables applicationId

theorem countedHistory_pairwise :
    (countedHistory tables applicationId current).Pairwise fun a b => b.createdAt ≤ a.createdAt :=
  List.pairwise_map.2 (history_pairwise tables applicationId)

end Retained

section Tags

theorem toLower_of_hex {c : Char} (h : isHexDigit c) : c.toLower = c := by
  simp only [isHexDigit, Bool.decide_or, Bool.decide_and, Bool.or_eq_true, Bool.and_eq_true,
    decide_eq_true_eq, Char.le_def, UInt32.le_iff_toNat_le] at h
  change ((48 ≤ c.toNat ∧ c.toNat ≤ 57) ∨ (97 ≤ c.toNat ∧ c.toNat ≤ 102)) at h
  refine dif_neg ?_
  rintro ⟨hlow, hhigh⟩
  have hlow' : 65 ≤ c.toNat := hlow
  have hhigh' : c.toNat ≤ 90 := hhigh
  omega

variable (id : DeploymentId)

def tagDigits : List Char := (id.text.toList.filter (· ≠ '-')).take 12

theorem hex_of_mem_tagDigits {c : Char} (h : c ∈ tagDigits id) : isHexDigit c := by
  obtain ⟨hmem, hdash⟩ := List.mem_filter.1 (List.mem_of_mem_take h)
  exact (id.hex c hmem).resolve_right (of_decide_eq_true hdash)

theorem deploymentImageTag_toList : (deploymentImageTag id).toList = "dep-".toList ++ tagDigits id := by
  have hlower : (tagDigits id).map Char.toLower = tagDigits id := by
    conv_rhs => rw [← List.map_id (tagDigits id)]
    exact List.map_congr_left fun c hc => toLower_of_hex (hex_of_mem_tagDigits id hc)
  rw [deploymentImageTag, String.toList_append]
  change _ ++ (String.ofList ((tagDigits id).map Char.toLower)).toList = _
  rw [hlower]
  exact congrArg _ String.toList_ofList

theorem isDeploymentTag_tag : isDeploymentTag (deploymentImageTag id) = true := by
  have hdrop : (deploymentImageTag id).toList.drop 4 = tagDigits id := by
    rw [deploymentImageTag_toList]
    rfl
  have hlength : (tagDigits id).length = 12 := by
    rw [tagDigits, List.length_take, id.digits]
    rfl
  rw [isDeploymentTag, hdrop, decide_eq_true_iff]
  refine ⟨?_, hlength, List.all_eq_true.2 fun c hc => hex_of_mem_tagDigits id hc⟩
  rw [deploymentImageTag_toList]
  exact List.prefix_append _ _

theorem colon_not_mem_tag : ':' ∉ (deploymentImageTag id).toList := by
  rw [deploymentImageTag_toList, List.mem_append, not_or]
  refine ⟨by decide, fun h => ?_⟩
  have hhex := hex_of_mem_tagDigits id h
  revert hhex
  decide

theorem colon_not_mem_repository (applicationId : Uuid) :
    ':' ∉ (appImageRepository applicationId).toList := by
  rw [appImageRepository, String.toList_append, List.mem_append, not_or]
  exact ⟨by decide, applicationId.notMem (by decide) (by decide)⟩

theorem colon_not_mem_shortId (id : ImageId) : ':' ∉ (shortId id.text).toList := by
  rw [id.shortId_text, ImageId.short, String.toList_ofList]
  intro h
  have hhex := id.hex _ (List.mem_of_mem_take h)
  revert hhex
  decide

theorem ref_parts {repository tag : String} {applicationId : Uuid} {id : DeploymentId}
    (h : repository ++ ":" ++ tag = deploymentImageRef applicationId id) :
    repository = appImageRepository applicationId ∧ tag = deploymentImageTag id := by
  have hlist : repository.toList ++ ':' :: tag.toList = (appImageRepository applicationId).toList ++
    ':' :: (deploymentImageTag id).toList := by
    have := congrArg String.toList h
    simpa [deploymentImageRef] using this
  have hcount := congrArg (List.count ':') hlist
  rw [List.count_append, List.count_append, List.count_cons_self, List.count_cons_self, List.count_eq_zero.2 (colon_not_mem_tag id),
    List.count_eq_zero.2 (colon_not_mem_repository applicationId)] at hcount
  have hrepository : ':' ∉ repository.toList := List.count_eq_zero.1 (by omega)
  obtain ⟨hleft, hright⟩ :=
    append_cons_inj_left hrepository (colon_not_mem_repository applicationId) hlist
  exact ⟨String.toList_inj.1 hleft, String.toList_inj.1 hright⟩

theorem appImageRepository_ne_none (applicationId : Uuid) :
    appImageRepository applicationId ≠ "<none>" := by
  intro h
  have hhead := congrArg (fun s : String => s.toList.head?) h
  simp [appImageRepository] at hhead

theorem ref_eq_iff (r : Row) (applicationId : Uuid) (d : Deployment) :
    r.ref = deploymentImageRef applicationId d.id ↔ r.Carries applicationId d := by
  have hrepository := appImageRepository_ne_none applicationId
  have htag : deploymentImageTag d.id ≠ "<none>" := by
    intro h
    have hhead := congrArg (fun s : String => s.toList.head?) h
    simp [deploymentImageTag] at hhead
  constructor
  · intro h
    rw [Row.ref, imageRef] at h
    split_ifs at h
    · refine absurd ?_ (colon_not_mem_shortId r.id)
      rw [h, deploymentImageRef]
      simp
    · exact ref_parts h
  · rintro ⟨hr, ht⟩
    rw [Row.ref, imageRef, hr, ht, if_neg (not_or.2 ⟨hrepository, htag⟩), deploymentImageRef]

end Tags

section Trim

variable {tables : Tables} {applicationId : Uuid} {current : DeploymentId} {keep : Nat} {rows : List Row} {running : Option ImageId} {ref : String}

theorem any_deploymentTag (r : Row) (p : String → Bool) :
    (r.appImage running).deploymentTag.any p = (isDeploymentTag r.tag.text && p r.tag.text) := by
  rw [Row.appImage]
  cases isDeploymentTag r.tag.text <;> rfl

theorem mem_trimRollbackImages :
    ref ∈ trimRollbackImages tables applicationId current keep (appListing rows running) ↔
      ∃ r ∈ rows, r.repository.text = appImageRepository applicationId ∧ isDeploymentTag r.tag.text ∧
        (∀ d ∈ newest (countedHistory tables applicationId current) keep,
          d ∈ (countedHistory tables applicationId current).take rowLimit → r.tag.text ≠ deploymentImageTag d.id) ∧
        r.ref = ref := by
  have hretained : deploymentsToRetain (((history tables applicationId).take rowLimit).map fun d => (d.counted current).like) keep =
      (newest ((countedHistory tables applicationId current).take rowLimit) keep).map Deployment.like := by
    rw [← retained_eq ((countedHistory_pairwise tables applicationId current).sublist (List.take_sublist _ _)), countedHistory,
      ← List.map_take, List.map_map]
    rfl
  have hkeep (tag : String) : tag ∉ ((newest ((countedHistory tables applicationId current).take rowLimit) keep).map Deployment.like).map
        (fun d => deploymentImageTag d.id) ↔
      ∀ d ∈ newest (countedHistory tables applicationId current) keep,
        d ∈ (countedHistory tables applicationId current).take rowLimit →
          tag ≠ deploymentImageTag d.id := by
    rw [List.map_map, List.mem_map, not_exists]
    apply forall_congr'
    intro d
    rw [mem_newest_take (countedHistory_nodup tables applicationId current), not_and, and_imp]
    exact forall₂_congr fun _ _ => not_congr eq_comm
  rw [trimRollbackImages, hretained, staleDeploymentRefs, parseAppImages_listing]
  constructor
  · intro h
    obtain ⟨i, hi, rfl⟩ := List.mem_map.1 h
    obtain ⟨himage, htag⟩ := List.mem_filter.1 hi
    obtain ⟨r, hr, rfl⟩ := List.mem_map.1 himage
    obtain ⟨hrow, hrepository⟩ := List.mem_filter.1 hr
    rw [any_deploymentTag, Bool.and_eq_true, Bool.not_eq_true', List.contains_eq_mem,
      decide_eq_false_iff_not, hkeep] at htag
    exact ⟨r, hrow, of_decide_eq_true hrepository, htag.1, htag.2, rfl⟩
  · rintro ⟨r, hrow, hrepository, htag, hother, rfl⟩
    refine List.mem_map.2 ⟨r.appImage running, List.mem_filter.2 ⟨?_, ?_⟩, rfl⟩
    · exact List.mem_map_of_mem (List.mem_filter.2 ⟨hrow, decide_eq_true hrepository⟩)
    · rw [any_deploymentTag, Bool.and_eq_true, Bool.not_eq_true', List.contains_eq_mem,
        decide_eq_false_iff_not, hkeep]
      exact ⟨htag, hother⟩

end Trim

/-- What the trimming after a deployment must do. -/
structure TrimSound (applicationId : Uuid) (kept : List Deployment) (rows : List Row) (refs : List String) :
    Prop where
  spares : ∀ d ∈ kept, deploymentImageRef applicationId d.id ∉ refs
  removes : ∀ r ∈ rows, r.repository.text = appImageRepository applicationId →
    isDeploymentTag r.tag.text →
    (∀ d ∈ kept, ¬ r.Carries applicationId d) → r.ref ∈ refs

/-- Every newest successful deployment whose tag is on the server is among the newest of all, or shares its tag with one that is. -/
def TrimSafe (applicationId : Uuid) (ds : List Deployment) (keep : Nat) (rows : List Row) : Prop :=
  ∀ d ∈ newest ds keep, (∃ r ∈ rows, r.Carries applicationId d) →
    ∃ d' ∈ newest ds keep, d' ∈ ds.take rowLimit ∧ deploymentImageTag d'.id = deploymentImageTag d.id

variable (tables : Tables) (applicationId : Uuid) (current : DeploymentId) (keep : Nat)

theorem trim_sound_iff (rows : List Row) (running : Option ImageId) :
    TrimSound applicationId (newest (countedHistory tables applicationId current) keep) rows
        (trimRollbackImages tables applicationId current keep (appListing rows running)) ↔
      TrimSafe applicationId (countedHistory tables applicationId current) keep rows := by
  constructor
  · intro h d hd ⟨r, hr, hcarries⟩
    by_contra hnone
    push Not at hnone
    refine h.spares d hd (mem_trimRollbackImages.2 ⟨r, hr, hcarries.1, ?_, ?_, (ref_eq_iff r applicationId d).2 hcarries⟩)
    · rw [hcarries.2]
      exact isDeploymentTag_tag d.id
    · intro d' hd' hk he
      exact hnone d' hd' hk (he.symm.trans hcarries.2)
  · intro h
    constructor
    · intro d hd hmem
      obtain ⟨r, hr, -, -, hother, href⟩ := mem_trimRollbackImages.1 hmem
      have hcarries := (ref_eq_iff r applicationId d).1 href
      obtain ⟨d', hd', hk, he⟩ := h d hd ⟨r, hr, hcarries⟩
      exact hother d' hd' hk (hcarries.2.trans he.symm)
    · intro r hr hrepo htag hother
      exact mem_trimRollbackImages.2 ⟨r, hr, hrepo, htag, fun d hd _ he => hother d hd ⟨hrepo, he⟩, rfl⟩

end Yeah.Images
