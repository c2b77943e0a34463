import Yeah.Deploy.Steps
import Yeah.Runs

namespace Yeah.Deploy

open Calls Prog Runs

/-- What a deployment is created by. -/
inductive Origin
  | deploy
  /-- Of an earlier deployment; `imageThere` when its image was asked for and is still on the server. -/
  | rollback (target : Deployment) (status : DeploymentStatus) (image imageThere : Bool)

/-- The row that the route inserts, if it does not refuse. -/
def Origin.insert (a : Application) (id : String) : Origin → Option Deployment
  | deploy => some ⟨id, a.id, none, none⟩
  | rollback target status image imageThere =>
      if status ≠ .success ∨ ((given target.commitSha).isNone ∧ image = false) then none
      else if image then
        if a.buildPack = .image ∨ a.buildPack = .dockerCompose then none
        else if imageThere then some ⟨id, a.id, target.commitSha, some (deploymentImageRef a.id target.id)⟩
        else none
      else some ⟨id, a.id, target.commitSha, none⟩

def Origin.isRollback : Origin → Bool
  | deploy => false
  | rollback .. => true

theorem deploymentImageRef_given (applicationId deploymentId : String) :
    given (some (deploymentImageRef applicationId deploymentId)) = some (deploymentImageRef applicationId deploymentId) := by
  have hne : deploymentImageRef applicationId deploymentId ≠ "" := by
    intro h
    have h' := congrArg String.toList h
    simp [deploymentImageRef, appImageRepository, toString] at h'
  simpa [given] using hne

theorem Origin.isRollback_insert {a : Application} {id : String} {origin : Origin} {d : Deployment}
    (h : origin.insert a id = some d) : d.isRollback = origin.isRollback := by
  cases origin with
  | deploy =>
      obtain rfl := Option.some.inj h
      rfl
  | rollback target status image imageThere =>
      simp only [insert] at h
      split at h
      · cases h
      · next hok =>
          split at h
          · split at h
            · cases h
            · split at h
              · obtain rfl := Option.some.inj h
                simp [Deployment.isRollback, deploymentImageRef_given, Origin.isRollback]
              · cases h
          · next himage =>
              obtain rfl := Option.some.inj h
              simp only [not_or, not_and, Bool.not_eq_true] at hok himage
              cases hc : given target.commitSha with
              | none => exact absurd himage (by simpa [hc] using hok.2)
              | some sha => simp [Deployment.isRollback, hc, Origin.isRollback]

/-- A write of the commit into the row. -/
def Records : Event Reply → Prop
  | .called (_, .setCommit _) (.ok _) => True
  | _ => False

def Deployment.after (d : Deployment) : Event Reply → Deployment
  | .called (_, .setCommit sha) (.ok _) => { d with commitSha := some sha }
  | _ => d

def Sound : Event Reply → Prop
  | .called (_, .setCommit sha) _ => sha ≠ ""
  | _ => True

theorem isRollback_after {d : Deployment} {e : Event Reply} (h : Sound e) :
    (d.after e).isRollback = true ↔ d.isRollback = true ∨ Records e := by
  have hother : d.isRollback = true ↔ d.isRollback = true ∨ False := by simp
  cases e with
  | raised m => exact hother
  | called c r =>
      obtain ⟨phase, op⟩ := c
      cases op with
      | setCommit sha =>
          cases r with
          | error m => exact hother
          | ok r =>
              have hne : sha ≠ "" := h
              have hgiven : given (some sha) = some sha := by simpa [given] using hne
              exact iff_of_true (by simp [Deployment.after, Deployment.isRollback, hgiven])
                (Or.inr trivial)
      | _ => exact hother

theorem isRollback_foldl {d : Deployment} {t : List (Event Reply)} (h : ∀ e ∈ t, Sound e) :
    (t.foldl Deployment.after d).isRollback = true ↔ d.isRollback = true ∨ ∃ e ∈ t, Records e := by
  induction t generalizing d with
  | nil => simp
  | cons e t ih =>
      rw [List.foldl_cons, ih fun e' he' => h e' (List.mem_cons_of_mem _ he'),
        isRollback_after (h e List.mem_cons_self)]
      simp only [List.mem_cons, exists_eq_or_imp, or_assoc]

theorem sound_of_plain {K : Command → Prop} {e : Event Reply} (h : Plain K e) : Sound e := by
  cases e with
  | raised m => trivial
  | called c r =>
      obtain ⟨phase, op⟩ := c
      cases op with
      | setCommit sha => exact h.2
      | _ => trivial

theorem sound_of_quiet {phase : Phase} {e : Event Reply} (h : Quiet phase e) : Sound e := by
  cases e with
  | raised m => trivial
  | called c r =>
      obtain ⟨p, op⟩ := c
      cases op with
      | setCommit sha => exact h.2.elim
      | _ => trivial

section Deliveries

variable (settings : Settings)

theorem sound_attempt (a : Application) (c : Context) : Only Sound (attempt settings a c) := by
  refine only_ensure (only_attempt (only_bind ?_ fun commit => ?_) fun m => ?_) ?_
  · exact (any_deploySequence settings a c).only.imp fun _ => sound_of_plain
  · exact (quiet_reportSuccess settings a commit).imp fun _ => sound_of_quiet
  · exact (quiet_reportFailure settings a m).imp fun _ => sound_of_quiet
  · exact (still_cleanup c.registry).imp fun _ h => sound_of_quiet h.1

theorem sound_deployApplication (id : String) : Only Sound (deployApplication settings id) := by
  refine only_bind (only_call fun _ => trivial) fun row => ?_
  cases row with
  | none => exact only_pure ()
  | some d =>
      refine only_bind (only_call fun _ => trivial) fun row => ?_
      cases row with
      | none => exact only_call fun _ => trivial
      | some a =>
          refine only_bind (only_call fun _ => trivial) fun row => ?_
          cases row with
          | none => exact only_call fun _ => trivial
          | some server =>
              refine only_bind ((steps_start a d server).only.imp fun _ h => sound_of_quiet h.1) fun c => ?_
              exact sound_attempt settings a c

def found (d : Deployment) (env : Env Reply) : Env Reply := fun h c =>
  match h, c with
  | [], (.preamble, .selectDeployment _) => .ok (some d)
  | h, c => env h c

def trace (d : Deployment) (env : Env Reply) : List (Event Reply) :=
  (deployApplication settings d.id (found d env) []).2

/-- The worker takes the job, and dies when this many of its calls have ended. -/
structure Delivery where
  env : Env Reply
  cut : Nat

namespace Delivery

def done (d : Deployment) (x : Delivery) : List (Event Reply) := (trace settings d x.env).take x.cut

def row (d : Deployment) (x : Delivery) : Deployment := (x.done settings d).foldl Deployment.after d

theorem isRollback_row (d : Deployment) (x : Delivery) :
    (x.row settings d).isRollback = true ↔ d.isRollback = true ∨ ∃ e ∈ x.done settings d, Records e := by
  refine isRollback_foldl fun e he => ?_
  obtain ⟨t, ht, hsound⟩ := sound_deployApplication settings d.id (found d x.env) []
  have hmem : e ∈ trace settings d x.env := List.mem_of_mem_take he
  rw [trace, ht, List.nil_append] at hmem
  exact hsound e hmem

end Delivery

theorem isRollback_run (d : Deployment) (xs : List Delivery) :
    (run (fun d x => Delivery.row settings d x) d xs).isRollback = true ↔
      d.isRollback = true ∨ ¬ Along (fun d x => Delivery.row settings d x) (fun d x => ¬ ∃ e ∈ x.done settings d, Records e) d xs := by
  induction xs generalizing d with
  | nil => simp [run, Along]
  | cons x xs ih =>
      change (run _ (x.row settings d) xs).isRollback = true ↔ _
      rw [ih, x.isRollback_row, Along, not_and_or, not_not, or_assoc]

/-- However often the worker dies, the deployment that is taken up again is a rollback exactly if it was
created as one: if and only if it was, or no delivery that was cut off had recorded a commit. -/
theorem redelivered_isRollback_iff {a : Application} {id : String} {origin : Origin} {d : Deployment}
    (h : origin.insert a id = some d) (xs : List Delivery) :
    (run (fun d x => Delivery.row settings d x) d xs).isRollback = origin.isRollback ↔
      origin.isRollback = true ∨
        Along (fun d x => Delivery.row settings d x) (fun d x => ¬ ∃ e ∈ x.done settings d, Records e) d xs := by
  rw [Bool.eq_iff_iff, isRollback_run, Origin.isRollback_insert h]
  tauto

end Deliveries

/-- The first delivery dies before it has recorded a commit. -/
theorem redelivered_isRollback_iff_early :
    (run (fun d x => Delivery.row plain d x) ⟨"d", "a", none, none⟩ [⟨allWell ⟨"d", "a", none, none⟩ website, 4⟩]).isRollback =
        Origin.deploy.isRollback ↔
      Origin.deploy.isRollback = true ∨
        Along (fun d x => Delivery.row plain d x) (fun d x => ¬ ∃ e ∈ x.done plain d, Records e) ⟨"d", "a", none, none⟩
          [⟨allWell ⟨"d", "a", none, none⟩ website, 4⟩] :=
  @redelivered_isRollback_iff plain website "d" .deploy ⟨"d", "a", none, none⟩ rfl [⟨allWell ⟨"d", "a", none, none⟩ website, 4⟩]

def runsPreDeploy : Event Reply → Bool
  | .called (_, .exec _ (.preDeploy ..) _) _ => true
  | _ => false

def migrated : Application := { website with preDeployCommand := some "migrate" }

/-- The worker dies after the commit was recorded, and before the pre-deploy command: the second
delivery skips the command. -/
theorem redelivery_skips_preDeploy :
    let d : Deployment := ⟨"d", "a", none, none⟩
    let env := allWell d migrated
    Origin.deploy.insert migrated "d" = some d ∧
      (trace plain d env).any runsPreDeploy = true ∧
      ((Delivery.mk env 22).done plain d).any runsPreDeploy = false ∧
      (Delivery.row plain d ⟨env, 22⟩).isRollback = true ∧
      (trace plain (Delivery.row plain d ⟨env, 22⟩) env).any runsPreDeploy = false := by
  refine ⟨rfl, ?_, ?_, ?_, ?_⟩ <;> decide +kernel

end Yeah.Deploy
