import Yeah.Deploy.Steps
import Yeah.Runs

namespace Yeah.Deploy

open Calls Prog Runs

/-- The event is a command of this kind, whatever its outcome. -/
def Sends (K : Command → Prop) : Event Reply → Prop
  | .called (_, .exec _ command _) _ => K command
  | _ => False

/-- The event is a command of this kind that exited 0. -/
def Succeeds (K : Command → Prop) : Event Reply → Prop
  | .called (_, .exec _ command _) (.ok r) => K command ∧ ExecResult.exitCode r = 0
  | _ => False

def Displaces (a : Application) : Event Reply → Prop := Sends fun c => c.Displaces a.containerName

def IsPreDeploy (c : Command) : Prop := ∃ command ctx, c = .preDeploy command ctx
def IsPostDeploy (c : Command) : Prop := ∃ command name, c = .postDeploy command name
def IsRun (a : Application) (c : Command) : Prop :=
  ∃ env flags network image, c = .run a.containerName env flags network image
def IsHealthWait (a : Application) (c : Command) : Prop :=
  ∃ seconds, c = .healthWait a.containerName seconds

/-- When a command may come, by what came before it. -/
structure Allowed (d : Deployment) (a : Application) (before : List (Event Reply)) (e : Event Reply) :
    Prop where
  /-- The old container goes only when nothing has failed, by the one stop, after the pre-deploy command. -/
  stop : Displaces a e → Sends (fun c => c = .stopOld a.containerName a.stopGraceSeconds) e ∧
    (∀ x ∈ before, ¬ Failed x ∧ ¬ Displaces a x) ∧
    ((given a.preDeployCommand).isSome = true → d.isRollback = false → ∃ x ∈ before, Succeeds IsPreDeploy x)
  preDeploy : Sends IsPreDeploy e → d.isRollback = false ∧ ∀ x ∈ before, ¬ Displaces a x
  postDeploy : Sends IsPostDeploy e → d.isRollback = false ∧ (∃ x ∈ before, Succeeds (IsRun a) x) ∧
    ((given a.healthPath).isSome = true → ∃ x ∈ before, Succeeds (IsHealthWait a) x)

variable {d : Deployment} {a : Application}

def Inert (a : Application) (e : Event Reply) : Prop :=
  ¬ Displaces a e ∧ ¬ Sends IsPreDeploy e ∧ ¬ Sends IsPostDeploy e

theorem Inert.allowed {e : Event Reply} (h : Inert a e) (before : List (Event Reply)) :
    Allowed d a before e :=
  ⟨fun he => absurd he h.1, fun he => absurd he h.2.1, fun he => absurd he h.2.2⟩

theorem inert_of_ordinary {phase : Phase} {host : Host} {c : Command} {required : Bool}
    {r : Except String ExecResult} (h : c.ordinary = true) :
    Inert a (.called (phase, .exec host c required) r) := by
  refine ⟨fun he => ?_, ?_, ?_⟩
  · rcases Command.displaces_cases he with ⟨n, g, rfl⟩ | ⟨_, _, _, _, _, rfl⟩ <;> cases h
  · rintro ⟨command, ctx, rfl⟩
    cases h
  · rintro ⟨command, name, rfl⟩
    cases h

theorem inert_of_plain {e : Event Reply} (h : Plain (fun c => c.ordinary = true) e) : Inert a e := by
  cases e with
  | raised m => exact ⟨id, id, id⟩
  | called c r =>
      obtain ⟨phase, op⟩ := c
      cases op with
      | exec host command required => exact inert_of_ordinary h.2
      | _ => exact ⟨id, id, id⟩

theorem inert_of_quiet {phase : Phase} {e : Event Reply} (h : Quiet phase e) : Inert a e := by
  cases e with
  | raised m => exact h.elim
  | called c r =>
      obtain ⟨p, op⟩ := c
      cases op with
      | exec host command required =>
          obtain ⟨-, registry, rfl⟩ := h.2
          exact inert_of_ordinary rfl
      | _ => exact ⟨id, id, id⟩

section Sequence

/-- A record in which every command is allowed, and of which `X` holds besides. -/
def Kept (d : Deployment) (a : Application) (X : List (Event Reply) → Prop)
    (l : List (Event Reply)) : Prop :=
  Guarded (Allowed d a) l ∧ X l

def Stable (a : Application) (X : List (Event Reply) → Prop) : Prop :=
  ∀ l t, X l → (∀ e ∈ t, Inert a e ∧ ¬ Failed e) → X (l ++ t)

variable {X Y : List (Event Reply) → Prop}

theorem triple_inert {α : Type} {φ : Event Reply → Prop} {p : Job α} (hp : Only φ p)
    (hφ : ∀ e, φ e → Inert a e) :
    Triple (Guarded (Allowed d a)) p (fun _ => Guarded (Allowed d a)) (Guarded (Allowed d a)) :=
  triple_of_only hp fun _ _ h ht => h.append fun e he before => (hφ e (ht e he)).allowed before

theorem triple_ordinary {α : Type} {p : Job α} (hp : Ordinary p) (hX : Stable a X) :
    Triple (Kept d a X) p (fun _ => Kept d a X) (Guarded (Allowed d a)) := by
  have hallowed : ∀ l t, Kept d a X l → (∀ e ∈ t, Plain (fun c => c.ordinary = true) e) →
    Guarded (Allowed d a) (l ++ t) :=
    fun l t h ht => h.1.append fun e he before => (inert_of_plain (ht e he)).allowed before
  refine triple_of_steps hp (fun l t h ht => ⟨?_, ?_⟩) hallowed
  · exact hallowed l t h fun e he => (ht e he).1
  · exact hX l t h.2 fun e he => ⟨inert_of_plain (ht e he).1, (ht e he).2⟩

theorem triple_runStep {phase : Phase} {host : Host} {step : Step} (hp : phase.trying) (hX : Stable a X)
    (hallowed : ∀ l r, X l → Allowed d a l (.called (phase, .exec host step.command (!step.allowFailure)) r))
    (hY : ∀ l r, X l → (step.allowFailure = false → ExecResult.exitCode r = 0) →
      Y (l ++ [.called (phase, .exec host step.command (!step.allowFailure)) (.ok r)])) :
    Triple (Kept d a X) (runStepIn phase host step) (fun _ => Kept d a Y) (Guarded (Allowed d a)) := by
  have hsay : Ordinary (ask phase (.publishLine s!"\x1b[36m$ {step.label}\x1b[0m\n")) :=
    part_askIn hp trivial rfl
  refine triple_bind (triple_ordinary hsay hX) fun _ => ?_
  let S (r : ExecResult) (l : List (Event Reply)) : Prop :=
    Guarded (Allowed d a) l ∧ ((step.allowFailure = false → r.exitCode = 0) → Y l)
  have hexec : Triple (Kept d a X) (ask phase (.exec host step.command (!step.allowFailure))) S (Guarded (Allowed d a)) := by
    refine triple_call (fun l r h => ⟨?_, ?_⟩) fun l m h => ?_
    · exact h.1.snoc (hallowed l _ h.2)
    · exact hY l r h.2
    · exact h.1.snoc (hallowed l _ h.2)
  refine triple_bind hexec fun r => ?_
  unfold Prog.when
  split
  · exact triple_raise fun l h => h.1.snoc (Inert.allowed ⟨id, id, id⟩ l)
  · next hr =>
      refine triple_pure fun l h => ⟨h.1, h.2 fun hstep => ?_⟩
      simpa [hstep] using hr

theorem stable_true : Stable a fun _ => True := fun _ _ _ _ => trivial

theorem stable_exists (φ : Event Reply → Prop) : Stable a fun l => ∃ x ∈ l, φ x :=
  fun _ _ h _ => h.imp fun _ hx => ⟨List.mem_append_left _ hx.1, hx.2⟩

/-- Nothing has failed and the old container is in place. -/
def Untouched (a : Application) (l : List (Event Reply)) : Prop := ∀ x ∈ l, ¬ Failed x ∧ ¬ Displaces a x

def Readied (d : Deployment) (a : Application) (l : List (Event Reply)) : Prop :=
  Untouched a l ∧ ((given a.preDeployCommand).isSome = true → d.isRollback = false → ∃ x ∈ l, Succeeds IsPreDeploy x)

def Started (a : Application) (l : List (Event Reply)) : Prop := ∃ x ∈ l, Succeeds (IsRun a) x

def Healthy (a : Application) (l : List (Event Reply)) : Prop :=
  Started a l ∧ ((given a.healthPath).isSome = true → ∃ x ∈ l, Succeeds (IsHealthWait a) x)

theorem stable_untouched : Stable a (Untouched a) :=
  fun _ _ h ht x hx => (List.mem_append.1 hx).elim (h x) fun hx => ⟨(ht x hx).2, (ht x hx).1.1⟩

theorem stable_readied : Stable a (Readied d a) := fun l t h ht =>
  ⟨stable_untouched l t h.1 ht, fun hp hr => stable_exists (Succeeds IsPreDeploy) l t (h.2 hp hr) ht⟩

theorem stable_started : Stable a (Started a) := stable_exists _

theorem stable_healthy : Stable a (Healthy a) := fun l t h ht =>
  ⟨stable_started l t h.1 ht, fun hp => stable_exists (Succeeds (IsHealthWait a)) l t (h.2 hp) ht⟩

theorem not_displaces_preDeploy {phase : Phase} {host : Host} {command : String} {ctx : PreDeployContext}
    {required : Bool}
    {r : Except String ExecResult} :
    ¬ Displaces a (.called (phase, .exec host (.preDeploy command ctx) required) r) := by
  intro h
  rcases Command.displaces_cases h with ⟨n, g, hc⟩ | ⟨_, _, _, _, _, hc⟩ <;> cases hc

theorem not_displaces_postDeploy {phase : Phase} {host : Host} {command name : String} {required : Bool}
    {r : Except String ExecResult} :
    ¬ Displaces a (.called (phase, .exec host (.postDeploy command name) required) r) := by
  intro h
  rcases Command.displaces_cases h with ⟨n, g, hc⟩ | ⟨_, _, _, _, _, hc⟩ <;> cases hc

variable (settings : Settings) (c : Context)

theorem triple_runPreDeploy : Triple (Kept c.deployment a (Untouched a)) (runPreDeploy a c)
    (fun _ => Kept c.deployment a (Readied c.deployment a)) (Guarded (Allowed c.deployment a)) := by
  unfold runPreDeploy
  split
  · next hnone => exact triple_pure fun l h => ⟨h.1, h.2, by simp [hnone]⟩
  · next command hsome =>
      unfold Prog.when
      split
      · next hr =>
          simp only [Bool.not_eq_eq_eq_not, Bool.not_true] at hr
          refine triple_runStep (Or.inl rfl) stable_untouched (fun l r h => ⟨?_, ?_, ?_⟩)
            fun l r h hexit => ⟨fun x hx => ?_, fun _ _ => ?_⟩
          · exact fun he => absurd he not_displaces_preDeploy
          · exact fun _ => ⟨hr, fun x hx => (h x hx).2⟩
          · rintro ⟨_, _, hc⟩
            cases hc
          · rcases List.mem_append.1 hx with hx | hx
            · exact h x hx
            · obtain rfl := List.mem_singleton.1 hx
              exact ⟨fun hF => hF.2.2 (hexit rfl), not_displaces_preDeploy⟩
          · exact ⟨_, List.mem_append_right _ List.mem_cons_self, ⟨command, _, rfl⟩, hexit rfl⟩
      · next hr =>
          refine triple_pure fun l h => ⟨h.1, h.2, fun _ hn => ?_⟩
          simp [hn] at hr

theorem triple_removeOld : Triple (Kept d a (Readied d a)) (runStep .deploy (removeOldStep a))
    (fun _ => Kept d a fun _ => True) (Guarded (Allowed d a)) := by
  refine triple_runStep (Or.inl rfl) stable_readied (fun l r h => ⟨fun _ => ⟨rfl, h⟩, ?_, ?_⟩)
    fun _ _ _ _ => trivial
  · rintro ⟨_, _, hc⟩
    cases hc
  · rintro ⟨_, _, hc⟩
    cases hc

theorem triple_ordinaryStep {step : Step} {K : Command → Prop} (ho : step.command.ordinary = true)
    (hX : Stable a X)
    (hK : K step.command) (hs : step.allowFailure = false) :
    Triple (Kept d a X) (runStep .deploy step) (fun _ => Kept d a fun l => X l ∧ ∃ x ∈ l, Succeeds K x)
      (Guarded (Allowed d a)) := by
  refine triple_runStep (Or.inl rfl) hX (fun l r _ => (inert_of_ordinary ho).allowed l)
    fun l r h hexit => ⟨?_, ?_⟩
  · refine hX l _ h fun e he => ?_
    obtain rfl := List.mem_singleton.1 he
    exact ⟨inert_of_ordinary ho, fun hF => hF.2.2 (hexit hs)⟩
  · exact ⟨_, List.mem_append_right _ List.mem_cons_self, hK, hexit hs⟩

theorem triple_start : Triple (Kept d a fun _ => True) (runStep .deploy (runStepDef settings a c))
    (fun _ => Kept d a (Started a)) (Guarded (Allowed d a)) := by
  have hrun : IsRun a (runStepDef settings a c).command := ⟨_, _, _, _, rfl⟩
  have h := triple_ordinaryStep (d := d) rfl (@stable_true a) hrun rfl
  exact h.imp (fun _ => id) (fun _ _ h => ⟨h.1, h.2.2⟩) fun _ => id

theorem triple_waitForHealth :
    Triple (Kept d a (Started a)) (waitForHealth a) (fun _ => Kept d a (Healthy a))
    (Guarded (Allowed d a)) := by
  unfold waitForHealth
  split
  · next hnone => exact triple_pure fun l h => ⟨h.1, h.2, by simp [hnone]⟩
  · next path hsome =>
      have hwait : IsHealthWait a (.healthWait a.containerName a.healthWaitSeconds) := ⟨_, rfl⟩
      have h :=
        @triple_ordinaryStep d a _ ⟨s!"waiting for the healthcheck ({path})", _, false⟩ _ rfl stable_started hwait rfl
      exact h.imp (fun _ => id) (fun _ _ h => ⟨h.1, h.2.1, fun _ => h.2.2⟩) fun _ => id

theorem triple_runPostDeploy : Triple (Kept c.deployment a (Healthy a)) (runPostDeploy a c)
    (fun _ => Kept c.deployment a fun _ => True) (Guarded (Allowed c.deployment a)) := by
  unfold runPostDeploy
  split
  · exact triple_pure fun l h => ⟨h.1, trivial⟩
  · next command hsome =>
      unfold Prog.when
      split
      · next hr =>
          refine triple_runStep (Or.inr rfl) stable_healthy
            (fun l r h => ⟨?_, ?_, fun _ => ⟨by simpa using hr, h⟩⟩) fun _ _ _ _ => trivial
          · exact fun he => absurd he not_displaces_postDeploy
          · rintro ⟨_, _, hc⟩
            cases hc
      · exact triple_pure fun l h => ⟨h.1, trivial⟩

theorem triple_deploySequence (hpack : a.buildPack ≠ .dockerCompose) :
    Triple (Kept c.deployment a (Untouched a)) (deploySequence settings a c)
      (fun _ => Guarded (Allowed c.deployment a)) (Guarded (Allowed c.deployment a)) := by
  unfold deploySequence
  refine triple_bind (triple_ordinary (ordinary_prepare settings a c) stable_untouched) fun prepared => ?_
  rw [if_neg hpack]
  refine triple_bind (triple_ordinary (ordinary_obtainImage settings a c _ _ _) stable_untouched)
    fun _ => ?_
  refine triple_bind (triple_ordinary (ordinary_keepImage a c.deployment) stable_untouched) fun _ => ?_
  refine triple_bind (triple_runPreDeploy c) fun _ => triple_bind triple_removeOld fun _ => ?_
  refine triple_bind (triple_start settings c) fun _ => ?_
  refine triple_bind (triple_ordinary (part_runStep rfl) stable_started) fun _ => ?_
  refine triple_bind (triple_ordinary (ordinary_writeAppRouting settings a c) stable_started) fun _ => ?_
  refine triple_bind triple_waitForHealth fun _ => triple_bind (triple_runPostDeploy c) fun _ => ?_
  refine triple_bind (triple_ordinary (ordinary_trim settings a) stable_true) fun _ => ?_
  exact triple_pure fun l h => h.1

end Sequence

section Whole

variable (settings : Settings)

theorem triple_attemptJob (c : Context) (hpack : a.buildPack ≠ .dockerCompose) :
    Triple (Kept c.deployment a (Untouched a)) (attempt settings a c)
      (fun _ => Guarded (Allowed c.deployment a)) (Guarded (Allowed c.deployment a)) := by
  refine triple_ensure (triple_attempt (E := Guarded (Allowed c.deployment a)) ?_ fun m => ?_) ?_
  · refine triple_bind (triple_deploySequence settings c hpack) fun commit => ?_
    exact triple_inert (quiet_reportSuccess settings a commit) fun e => inert_of_quiet
  · exact triple_inert (quiet_reportFailure settings a m) fun e => inert_of_quiet
  · exact triple_inert (still_cleanup c.registry) fun e h => inert_of_quiet h.1

theorem triple_preamble {α : Type} {p : Job α} (hp : Steps (Threw .preamble) (Quiet .preamble) p) :
    Triple (Kept d a (Untouched a)) p (fun _ => Kept d a (Untouched a)) (Guarded (Allowed d a)) := by
  have hallowed : ∀ l t, Kept d a (Untouched a) l → (∀ e ∈ t, Quiet .preamble e) →
    Guarded (Allowed d a) (l ++ t) :=
    fun l t h ht => h.1.append fun e he before => (inert_of_quiet (ht e he)).allowed before
  refine triple_of_steps (hp.congr fun e he => (quiet_failed he).symm) (fun l t h ht => ⟨?_, ?_⟩) hallowed
  · exact hallowed l t h fun e he => (ht e he).1
  · exact stable_untouched l t h.2 fun e he => ⟨inert_of_quiet (ht e he).1, (ht e he).2⟩

theorem reads_ask {op : Op} (h : op.Quiet) :
    Steps (Threw .preamble) (Quiet .preamble) (ask .preamble op) :=
  steps_call (fun _ => ⟨Or.inl rfl, h⟩) (fun _ hF => hF) fun _ => rfl

theorem triple_deployWith (hpack : a.buildPack ≠ .dockerCompose) :
    Triple (Kept d a (Untouched a)) (deployWith settings d (some a)) (fun _ => Guarded (Allowed d a))
      (Guarded (Allowed d a)) := by
  have hserver : (Op.selectServer a.serverId).Quiet := trivial
  have hfinish : (Op.finish .failed).Quiet := trivial
  refine triple_bind (triple_preamble (reads_ask hserver)) fun row => ?_
  cases row with
  | none => exact (triple_preamble (reads_ask hfinish)).imp (fun _ => id) (fun _ _ h => h.1) fun _ => id
  | some server =>
      refine triple_bind ((triple_preamble ((steps_start a d server).imp fun _ h => h.1)).returns (start_deployment a d server)) fun c env l h => ?_
      obtain ⟨rfl, hl⟩ := h
      exact triple_attemptJob settings c hpack env l hl

theorem kept_of_quiet {l : List (Event Reply)} (h : ∀ e ∈ l, Quiet .preamble e ∧ ¬ Failed e) :
    Kept d a (Untouched a) l :=
  ⟨guarded_nil.append fun e he before => (inert_of_quiet (h e he).1).allowed before,
    fun e he => ⟨(h e he).2, (inert_of_quiet (h e he).1).1⟩⟩

/-- Whatever fails or throws, the container of the old version is displaced at most by its stop, after
everything before it has succeeded; and the commands around a deployment keep their places. -/
theorem deployApplication_guarded (env : Env Reply) (d : Deployment) (a : Application)
    (hd : env [] (.preamble, .selectDeployment d.id) = .ok (some d))
    (ha : env [.called (.preamble, .selectDeployment d.id) (.ok (some d))] (.preamble, .selectApplication d.applicationId) =
      .ok (some a))
    (hpack : a.buildPack ≠ .dockerCompose) :
    Guarded (Allowed d a) (deployApplication settings d.id env []).2 := by
  have hrun : deployApplication settings d.id env [] = deployWith settings d (some a) env
      [.called (.preamble, .selectDeployment d.id) (.ok (some d)),
        .called (.preamble, .selectApplication d.applicationId) (.ok (some a))] := (call_then hd).trans (call_then ha)
  rw [hrun]
  have hread : Kept d a (Untouched a)
      [.called (.preamble, .selectDeployment d.id) (.ok (some d)),
        .called (.preamble, .selectApplication d.applicationId) (.ok (some a))] := by
    refine kept_of_quiet fun e he => ?_
    rcases List.mem_cons.1 he with rfl | he
    · exact ⟨⟨Or.inl rfl, trivial⟩, id⟩
    · obtain rfl := List.mem_singleton.1 he
      exact ⟨⟨Or.inl rfl, trivial⟩, id⟩
  have h := triple_deployWith settings hpack env _ hread
  split at h <;> exact h

theorem deployApplication_guarded_well :
    Guarded (Allowed ⟨"d", "a", none, none⟩ website)
      (deployApplication plain "d" (allWell ⟨"d", "a", none, none⟩ website) []).2 :=
  deployApplication_guarded plain (allWell ⟨"d", "a", none, none⟩ website) ⟨"d", "a", none, none⟩ website rfl rfl (by decide)

end Whole

end Yeah.Deploy
