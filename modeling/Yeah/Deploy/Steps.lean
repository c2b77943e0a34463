import Yeah.Deploy.Job

namespace Yeah.Deploy

open Calls Prog

def Phase.strict : Phase → Bool
  | preamble | sequence | optional => true
  | _ => false

/-- A step went wrong: a call threw, a command that must succeed did not, or the job itself threw. -/
def Failed : Event Reply → Prop
  | .raised _ => True
  | .called (phase, _) (.error _) => phase.strict = true
  | .called (phase, .exec _ _ required) (.ok r) => phase.strict = true ∧ required = true ∧ ExecResult.exitCode r ≠ 0
  | _ => False

/-- Every command but those that take the old container away or that the application brought. -/
def Command.ordinary : Command → Bool
  | stopOld .. | composeUp .. | preDeploy .. | postDeploy .. => false
  | _ => true

/-- A command that must succeed. -/
def Op.checked : Op → Bool
  | exec _ _ required => required
  | _ => false

/-- An operation that writes no status, whose command is one of `K`. -/
def Op.Plain (K : Command → Prop) : Op → Prop
  | exec _ command _ => K command
  | setCommit sha => sha ≠ ""
  | setDeploymentRunning | setApplicationStatus _ | finish _ => False
  | _ => True

def Plain (K : Command → Prop) : Event Reply → Prop
  | .raised _ => True
  | .called (phase, op) _ => (phase = .sequence ∨ phase = .optional ∨ phase = .bestEffort) ∧ op.Plain K

/-- A part of the `try`: it ends normally exactly if nothing in it went wrong. -/
abbrev Part {α : Type} (K : Command → Prop) (p : Job α) : Prop := Steps Failed (Plain K) p

variable {K : Command → Prop}

def Phase.trying (phase : Phase) : Prop := phase = sequence ∨ phase = optional

variable {phase : Phase}

theorem Phase.trying.strict (hp : phase.trying) : phase.strict = true := by
  rcases hp with rfl | rfl <;> rfl

theorem Phase.trying.plain (hp : phase.trying) :
    phase = sequence ∨ phase = optional ∨ phase = bestEffort :=
  hp.imp id Or.inl

theorem not_failed_ok {op : Op} {r : op.Reply} (hr : op.checked = false) :
    ¬ Failed (.called (phase, op) (.ok r)) := by
  intro hF
  cases op with
  | exec host c required => exact Bool.noConfusion (hr.symm.trans hF.2.1)
  | _ => exact hF

theorem not_failed_lax {op : Op} {r : Except String op.Reply} (hp : phase.strict = false) :
    ¬ Failed (.called (phase, op) r) := by
  intro hF
  cases r with
  | error m => exact Bool.noConfusion (hp.symm.trans hF)
  | ok r =>
      cases op with
      | exec host c required => exact Bool.noConfusion (hp.symm.trans hF.1)
      | _ => exact hF

theorem part_askIn {op : Op} (hp : phase.trying) (h : op.Plain K) (hr : op.checked = false) :
    Part K (ask phase op) := by
  exact steps_call (fun _ => ⟨hp.plain, h⟩) (fun _ => not_failed_ok hr) fun _ => hp.strict

theorem part_ask {op : Op} (h : op.Plain K) (hr : op.checked = false) :
    Part K (ask .sequence op) :=
  part_askIn (Or.inl rfl) h hr

theorem part_say (line : String) : Part K (say line) := part_ask trivial rfl

theorem part_send {host : Host} {c : Command} (h : K c) : Part K (send host c) :=
  steps_bind (part_ask h rfl) fun _ => steps_pure ()

theorem part_exec {host : Host} {c : Command} {required : Bool} {m : ExecResult → String}
    (hp : phase.trying) (h : K c) :
    Part K (ask phase (.exec host c required) >>= fun r : ExecResult =>
      Prog.when (r.exitCode ≠ 0 && required) (raise (m r))) := by
  have hplain : ∀ r, Plain K (.called (phase, .exec host c required) r) := fun _ => ⟨hp.plain, h⟩
  have hcall : Does (ask phase (.exec host c required)) fun r t =>
      t = [.called (phase, .exec host c required) r] := does_call _ fun _ => rfl
  have hwhen : ∀ r : ExecResult, Does (Prog.when (r.exitCode ≠ 0 && required) (raise (m r)) : Job Unit) fun o t =>
      if r.exitCode ≠ 0 ∧ required = true then t = [.raised (m r)] ∧ ∃ e, o = .error e else t = [] ∧
        o = .ok () := by
    intro r
    unfold Prog.when
    by_cases hr : r.exitCode ≠ 0 ∧ required = true
    · rw [if_pos (by simpa using hr)]
      exact does_raise _ (by simp [hr])
    · rw [if_neg (by simpa using hr)]
      exact does_pure () (by rw [if_neg hr]; exact ⟨rfl, rfl⟩)
  refine Does.imp (does_bind hcall hwhen) fun o t ht => ?_
  rcases ht with ⟨e, rfl, rfl⟩ | ⟨r, t₁, t₂, rfl, rfl, ht⟩
  · exact ⟨fun _ he => List.mem_singleton.1 he ▸ hplain _, nofun,
      fun hn => absurd hp.strict (hn _ List.mem_cons_self)⟩
  · split at ht
    · next hr =>
        obtain ⟨rfl, e, rfl⟩ := ht
        refine ⟨fun e he => ?_, nofun, fun hn => absurd ⟨hp.strict, hr.2, hr.1⟩ (hn _ List.mem_cons_self)⟩
        rcases List.mem_cons.1 he with rfl | he
        · exact hplain _
        · exact List.mem_singleton.1 he ▸ trivial
    · next hr =>
        obtain ⟨rfl, rfl⟩ := ht
        refine ⟨fun e he => ?_, fun _ e he => ?_, fun _ => ⟨(), rfl⟩⟩
        · rw [List.append_nil] at he
          exact List.mem_singleton.1 he ▸ hplain _
        · rw [List.append_nil] at he
          obtain rfl := List.mem_singleton.1 he
          exact fun hF => hr ⟨hF.2.2, hF.2.1⟩

theorem part_runStepIn {host : Host} {step : Step} (hp : phase.trying) (h : K step.command) :
    Part K (runStepIn phase host step) := by
  refine steps_bind (part_askIn hp trivial rfl) fun _ => ?_
  exact part_exec hp h

theorem part_runStep {host : Host} {step : Step} (h : K step.command) : Part K (runStep host step) :=
  part_runStepIn (Or.inl rfl) h

theorem part_runRouting {c : Command} (h : K c) : Part K (runRouting c) := by
  have he :=
    @part_exec K .sequence .deploy c true (fun r => s!"command failed ({r.exitCode})") (Or.inl rfl) h
  simp only [Bool.and_true] at he
  exact he

theorem part_raise {α : Type} (m : String) : Part K (raise m : Job α) := steps_raise trivial trivial

theorem part_swallow {p : Job Unit} (h : Only (fun e => Plain K e ∧ ¬ Failed e) p) : Part K (swallow p) :=
  steps_swallow h

theorem only_ask {op : Op} (h : op.Plain K) :
    Only (fun e => Plain K e ∧ ¬ Failed e) (ask .bestEffort op) :=
  only_call fun _ => ⟨⟨Or.inr (Or.inr rfl), h⟩, not_failed_lax rfl⟩

variable (settings : Settings) (a : Application)

theorem part_expandEnv : Part K (expandEnv settings a) := by
  unfold expandEnv loadSharedVariables
  refine steps_bind (steps_bind (part_ask trivial rfl) fun _ => part_ask trivial rfl) fun _ => ?_
  exact steps_ite (fun _ => steps_pure _) fun _ => part_raise _

theorem part_cloneUrl : Part K (cloneUrl settings a) := by
  unfold cloneUrl
  split
  · refine steps_bind (part_ask trivial rfl) fun row => ?_
    split
    · exact part_raise _
    · exact steps_pure _
  · split
    · refine steps_ite (fun _ => ?_) fun _ => part_raise _
      exact steps_bind (part_ask trivial rfl) fun _ => steps_pure _
    · exact steps_pure _

section Ordinary

/-- A part that sends ordinary commands only. -/
abbrev Ordinary {α : Type} (p : Job α) : Prop := Part (fun c => c.ordinary = true) p

theorem ordinary_writeDeployKey (host : Host) : Ordinary (writeDeployKey a host) := by
  refine steps_when fun _ => ?_
  exact steps_bind (part_say _) fun _ => steps_bind (part_ask trivial rfl) fun _ => part_send rfl

theorem ordinary_recordCommit (stdout : String) : Ordinary (recordCommit stdout) := by
  unfold recordCommit
  split
  · exact steps_pure _
  · next sha hsha =>
      have hne : sha ≠ "" := by simpa using (Option.filter_eq_some_iff.1 hsha).2
      exact steps_bind (part_say _) fun _ => steps_bind (part_ask hne rfl) fun _ => steps_pure _

theorem ordinary_checkout (host : Host) (target : Option String) :
    Ordinary (checkout settings a host target) := by
  unfold checkout makeCloneOrPullStep
  refine steps_bind (ordinary_writeDeployKey a host) fun _ => ?_
  rw [then_then]
  refine steps_bind (part_cloneUrl settings a) fun url => ?_
  rw [pure_then]
  refine steps_bind (part_runStep rfl) fun _ => ?_
  refine steps_bind (steps_when fun _ => part_send rfl) fun _ => ?_
  refine steps_bind (part_ask rfl rfl) fun _ => ?_
  exact ordinary_recordCommit _

theorem ordinary_prepareSource (host : Host) (target : Option String) :
    Ordinary (prepareSource settings a host target) := by
  unfold prepareSource writeDockerfile
  refine steps_ite (fun _ => ordinary_checkout settings a host target) fun _ => ?_
  refine steps_bind (steps_when fun _ => ?_) fun _ => steps_pure _
  exact steps_bind (part_say _) fun _ => steps_bind (part_send rfl) fun _ => part_ask trivial rfl

theorem ordinary_login (host : Host) (registry : Registry) : Ordinary (login a host registry) := by
  unfold login
  refine steps_bind (part_say _) fun _ => steps_bind (part_ask trivial rfl) fun _ => ?_
  exact steps_bind (part_send rfl) fun _ => part_runStep rfl

theorem ordinary_loginIfAny (host : Host) (registry : Option Registry) :
    Ordinary (loginIfAny a host registry) := by
  cases registry with
  | none => exact steps_pure ()
  | some registry => exact ordinary_login a host registry

theorem buildImageSteps_ordinary (repoDir inlineDir imageName : String) (buildEnv : List EnvEntry) :
    ∀ step ∈ buildImageSteps a repoDir inlineDir imageName buildEnv, step.command.ordinary = true := by
  unfold buildImageSteps
  cases a.buildPack <;> simp [Command.ordinary]

theorem ordinary_build (host : Host) (buildEnv : List EnvEntry) :
    Ordinary (Prog.each (runStep host) (buildImageSteps a a.repoDir a.inlineDir a.containerName buildEnv)) :=
  steps_each fun step hstep => part_runStep (buildImageSteps_ordinary a _ _ _ _ step hstep)

theorem ordinary_buildOrReuse (host : Host) (buildEnv : List EnvEntry) (ref : String) {reuse : Job Unit}
    (h : Ordinary reuse) : Ordinary (buildOrReuse a host buildEnv ref reuse) := by
  unfold buildOrReuse
  refine steps_bind (part_ask rfl rfl) fun _ => steps_ite (fun _ => h) fun _ => ?_
  exact steps_bind (ordinary_build a host buildEnv) fun _ => part_runStep rfl

theorem ordinary_buildOnServer (d : Deployment) (buildServer : Server) (registry : Option Registry) :
    Ordinary (buildOnServer settings a d buildServer registry) := by
  unfold buildOnServer
  split
  · refine steps_bind (part_ask trivial rfl) fun _ => steps_bind (part_say _) fun _ => ?_
    refine steps_bind (part_runStep rfl) fun _ => ?_
    refine steps_bind (ordinary_prepareSource settings a .build _) fun _ => ?_
    refine steps_bind (part_expandEnv settings a) fun _ => ?_
    refine steps_bind (ordinary_login a .build _) fun _ => ?_
    refine steps_bind (ordinary_buildOrReuse a .build _ _ (part_say _)) fun _ => ?_
    refine steps_bind (part_swallow (only_bind (only_ask rfl) fun _ => only_pure _)) fun _ => ?_
    exact steps_bind (part_swallow (only_ask trivial)) fun _ => steps_pure _
  · exact part_raise _

theorem ordinary_writeFileVolume (v : Volume) : Ordinary (writeFileVolume a v) := by
  refine steps_when fun _ => ?_
  exact steps_bind (part_say _) fun _ => steps_bind (part_send rfl) fun _ => part_ask trivial rfl

theorem ordinary_prepare (c : Context) : Ordinary (prepare settings a c) := by
  unfold prepare buildFirst fetchSource
  refine steps_bind (steps_when fun _ => part_raise _) fun _ => ?_
  refine steps_bind (steps_when fun _ => part_raise _) fun _ => ?_
  refine steps_bind ?_ fun built => ?_
  · split
    · exact ordinary_buildOnServer settings a _ _ _
    · exact steps_pure _
  · refine steps_bind (part_ask trivial rfl) fun _ => steps_bind (part_say _) fun _ => ?_
    refine steps_bind (part_runStep rfl) fun _ => steps_bind (part_say _) fun _ => ?_
    refine steps_bind (part_expandEnv settings a) fun _ => steps_bind (part_ask trivial rfl) fun _ => ?_
    refine steps_bind (steps_ite (fun _ => steps_pure _) fun _ => ordinary_prepareSource settings a .deploy _) fun _ => ?_
    exact steps_bind (steps_each fun v _ => ordinary_writeFileVolume a v) fun _ => steps_pure _

theorem ordinary_obtainImage (c : Context) (commit builtRef : Option String) (entries : List EnvEntry) :
    Ordinary (obtainImage settings a c commit builtRef entries) := by
  unfold obtainImage
  split
  · exact part_runStep rfl
  · refine steps_bind (ordinary_loginIfAny a .deploy _) fun _ => ?_
    exact steps_bind (part_runStep rfl) fun _ => part_runStep rfl
  · refine steps_bind (ordinary_loginIfAny a .deploy _) fun _ => ?_
    split
    · exact ordinary_buildOrReuse a .deploy _ _ (part_runStep rfl)
    · exact ordinary_build a .deploy _

theorem ordinary_keepImage (d : Deployment) : Ordinary (keepImage a d) :=
  steps_when fun _ => part_runStep rfl

theorem ordinary_writeAppRouting (c : Context) : Ordinary (writeAppRouting settings a c) := by
  unfold writeAppRouting
  split
  · exact part_send rfl
  · refine steps_ite (fun _ => ?_) fun _ => ?_
    · refine steps_bind (part_runRouting rfl) fun _ => steps_bind (part_ask trivial rfl) fun _ => ?_
      refine steps_bind (part_runRouting rfl) fun _ => ?_
      exact steps_bind (part_ask trivial rfl) fun _ => part_ask trivial rfl
    · exact steps_bind (part_ask trivial rfl) fun _ => part_send rfl

theorem ordinary_waitForHealth : Ordinary (waitForHealth a) := by
  unfold waitForHealth
  split
  · exact steps_pure ()
  · exact part_runStep rfl

theorem ordinary_trim : Ordinary (Prog.when (0 < a.rollbackImages && a.buildPack ≠ .image) (Prog.swallow (trimRollbackImages settings a))) := by
  unfold trimRollbackImages
  refine steps_when fun _ => part_swallow ?_
  refine only_bind (only_ask trivial) fun _ => only_bind (only_ask rfl) fun _ => ?_
  split
  · exact only_pure _
  · exact only_bind (only_ask trivial) fun _ => only_bind (only_ask rfl) fun _ => only_pure _

end Ordinary

theorem Plain.mono {K' : Command → Prop} {e : Event Reply} (h : Plain K e) (hK : ∀ c, K c → K' c) :
    Plain K' e := by
  cases e with
  | raised m => trivial
  | called c r =>
      obtain ⟨phase, op⟩ := c
      refine ⟨h.1, ?_⟩
      cases op with
      | exec host c required => exact hK c h.2
      | _ => exact h.2

section Sequence

/-- A part of the steps of any kind. -/
abbrev Any {α : Type} (p : Job α) : Prop := Part (fun _ => True) p

theorem Ordinary.any {α : Type} {p : Job α} (h : Ordinary p) : Any p :=
  Steps.imp h fun _ he => he.mono fun _ _ => trivial

theorem any_startCompose (c : Context) : Any (startCompose settings a c) := by
  unfold startCompose routeCompose
  refine steps_bind (part_ask trivial rfl) fun _ => steps_bind (part_ask trivial rfl) fun _ => ?_
  refine steps_bind ?_ fun withOverride => ?_
  · split
    · exact steps_bind (part_say _) fun _ => steps_bind (part_ask trivial rfl) fun _ => steps_pure _
    · exact steps_bind (part_say _) fun _ => steps_pure _
    · exact steps_pure _
  · exact steps_bind (part_runStep trivial) fun _ => part_runStep trivial

theorem any_runPreDeploy (c : Context) : Any (runPreDeploy a c) := by
  unfold runPreDeploy
  split
  · exact steps_pure ()
  · exact steps_when fun _ => part_runStep trivial

theorem any_runPostDeploy (c : Context) : Any (runPostDeploy a c) := by
  unfold runPostDeploy
  split
  · exact steps_pure ()
  · exact steps_when fun _ => part_runStepIn (Or.inr rfl) trivial

theorem any_deploySequence (c : Context) : Any (deploySequence settings a c) := by
  unfold deploySequence
  refine steps_bind (ordinary_prepare settings a c).any fun prepared => ?_
  refine steps_ite (fun _ => ?_) fun _ => ?_
  · exact steps_bind (any_startCompose settings a c) fun _ => steps_pure _
  · refine steps_bind (ordinary_obtainImage settings a c _ _ _).any fun _ => ?_
    refine steps_bind (ordinary_keepImage a _).any fun _ => steps_bind (any_runPreDeploy a c) fun _ => ?_
    refine steps_bind (part_runStep trivial) fun _ => steps_bind (part_runStep trivial) fun _ => ?_
    refine steps_bind (part_runStep trivial) fun _ => ?_
    refine steps_bind (ordinary_writeAppRouting settings a c).any fun _ => ?_
    refine steps_bind (ordinary_waitForHealth a).any
      fun _ => steps_bind (any_runPostDeploy a c) fun _ => ?_
    exact steps_bind (ordinary_trim settings a).any fun _ => steps_pure _

end Sequence

section Around

def Threw (phase : Phase) : Event Reply → Prop
  | .called (p, _) (.error _) => p = phase
  | _ => False

def Op.writesStatus : Op → Bool
  | setDeploymentRunning | setApplicationStatus _ | finish _ => true
  | _ => false

def Op.concludes : Op → Bool
  | publishLine _ | finish _ => true
  | _ => false

def Op.settles (op : Op) : Bool := op.concludes || op.writesStatus

def Op.Quiet : Op → Prop
  | exec _ command required => required = false ∧ ∃ host, command = .registryLogout host
  | setCommit _ => False
  | _ => True

def Quiet (phase : Phase) : Event Reply → Prop
  | .raised _ => False
  | .called (p, op) _ => (p = phase ∨ p = .bestEffort) ∧ op.Quiet

def Still (phase : Phase) (e : Event Reply) : Prop :=
  Quiet phase e ∧ ∀ c r, e = .called c r → c.2.settles = false

variable {phase : Phase}

theorem quiet_ask {op : Op} (h : op.Quiet) : Only (Quiet phase) (ask phase op) :=
  only_call fun _ => ⟨Or.inl rfl, h⟩

theorem still_ask {op : Op} (h : op.Quiet) (hs : op.settles = false) :
    Steps (Threw phase) (Still phase) (ask phase op) := by
  refine steps_call (fun r => ⟨⟨Or.inl rfl, h⟩, ?_⟩) (fun _ hF => hF) fun _ => rfl
  rintro c r' ⟨⟩
  exact hs

theorem still_commentOnPreview (hp : phase ≠ .bestEffort) (state : String) (commit : Option String) :
    Steps (Threw phase) (Still phase) (commentOnPreview settings a state commit) := by
  have hask : ∀ {op : Op}, op.Quiet → op.settles = false →
      Only (fun e => Still phase e ∧ ¬ Threw phase e) (ask .bestEffort op) := by
    intro op h hs
    refine only_call fun r => ⟨⟨⟨Or.inr rfl, h⟩, ?_⟩, ?_⟩
    · rintro c r' ⟨⟩
      exact hs
    · cases r with
      | ok r => exact id
      | error m => exact fun h => hp h.symm
  unfold commentOnPreview
  split
  · refine steps_swallow (only_when ?_)
    exact only_bind (hask trivial rfl) fun _ => hask trivial rfl
  · exact steps_pure ()

/-- What the job does before it reads the rows of the deployment in its `try`. -/
def Opening (e : Event Reply) : Prop :=
  Quiet .preamble e ∧ ∀ phase status r, e ≠ .called (phase, .finish status) r

theorem quiet_failed {e : Event Reply} (h : Quiet .preamble e) : Failed e ↔ Threw .preamble e := by
  cases e with
  | raised m => exact h.elim
  | called c r =>
      obtain ⟨p, op⟩ := c
      cases r with
      | error m =>
          rcases h.1 with rfl | rfl
          · exact ⟨fun _ => rfl, fun _ => rfl⟩
          · exact ⟨nofun, nofun⟩
      | ok r =>
          refine ⟨fun hF => ?_, False.elim⟩
          cases op with
          | exec host command required => exact nomatch h.2.1.symm.trans hF.2.1
          | _ => exact hF

theorem start_ask {op : Op} (h : op.Quiet) (hf : ∀ status, op ≠ .finish status) :
    Steps (Threw .preamble) Opening (ask .preamble op) := by
  refine steps_call (fun r => ⟨⟨Or.inl rfl, h⟩, ?_⟩) (fun _ hF => hF) fun _ => rfl
  rintro phase status r' ⟨⟩
  exact hf _ rfl

theorem steps_start (d : Deployment) (server : Server) :
    Steps (Threw .preamble) Opening (start a d server) := by
  unfold start loadSharedVariables findRegistry findBuildServer
  refine steps_bind (steps_when fun _ => ?_) fun _ => ?_
  · exact steps_bind (steps_bind (start_ask trivial nofun) fun _ => start_ask trivial nofun) fun _ => steps_pure ()
  · refine steps_bind (start_ask trivial nofun) fun _ => steps_bind (start_ask trivial nofun) fun _ => ?_
    refine steps_bind (start_ask trivial nofun) fun _ => steps_bind (start_ask trivial nofun) fun _ => ?_
    refine steps_bind (start_ask trivial nofun) fun _ => steps_bind (start_ask trivial nofun) fun _ => ?_
    refine steps_bind ?_ fun _ => steps_bind ?_ fun _ => steps_pure _
    · split
      · exact steps_pure _
      · exact start_ask trivial nofun
    · split
      · exact steps_pure _
      · exact start_ask trivial nofun

theorem start_deployment (d : Deployment) (server : Server) :
    Returns (start a d server) fun c => c.deployment = d := by
  unfold start
  refine returns_bind fun _ => returns_bind fun _ => returns_bind fun _ => returns_bind fun _ => ?_
  refine returns_bind fun _ => returns_bind fun _ => returns_bind fun _ => returns_bind fun _ => ?_
  exact returns_bind fun _ => returns_pure rfl

/-- What is reported once the success is written. -/
def announceSuccess (commit : Option String) : Job Unit := do
  ask .success (.publishApplicationStatus .running)
  ask .success (.publishDeploymentStatus .success)
  commentOnPreview settings a "ready" commit
  ask .success (.notify "deploy.success")
  ask .success (.forwardLog "success")

def announceFailure : Job Unit := do
  ask .handler (.publishApplicationStatus .error)
  ask .handler (.publishDeploymentStatus .failed)
  commentOnPreview settings a "failed" none
  ask .handler (.notify "deploy.failed")
  ask .handler (.forwardLog "failed")

theorem still_announceSuccess (commit : Option String) :
    Steps (Threw .success) (Still .success) (announceSuccess settings a commit) := by
  refine steps_bind (still_ask trivial rfl) fun _ => steps_bind (still_ask trivial rfl) fun _ => ?_
  refine steps_bind (still_commentOnPreview settings a (by decide : Phase.success ≠ .bestEffort) _ _)
    fun _ => ?_
  exact steps_bind (still_ask trivial rfl) fun _ => still_ask trivial rfl

theorem still_announceFailure : Steps (Threw .handler) (Still .handler) (announceFailure settings a) := by
  refine steps_bind (still_ask trivial rfl) fun _ => steps_bind (still_ask trivial rfl) fun _ => ?_
  refine steps_bind (still_commentOnPreview settings a (by decide : Phase.handler ≠ .bestEffort) _ _)
    fun _ => ?_
  exact steps_bind (still_ask trivial rfl) fun _ => still_ask trivial rfl

theorem quiet_reportSuccess (commit : Option String) :
    Only (Quiet .success) (reportSuccess settings a commit) := by
  refine only_bind (quiet_ask trivial) fun _ => only_bind (quiet_ask trivial) fun _ => ?_
  exact (still_announceSuccess settings a commit).only.imp fun _ h => h.1

theorem quiet_reportFailure (m : String) : Only (Quiet .handler) (reportFailure settings a m) := by
  refine only_bind (quiet_ask trivial) fun _ => only_bind (quiet_ask trivial) fun _ => only_bind (quiet_ask trivial) fun _ => ?_
  exact (still_announceFailure settings a).only.imp fun _ h => h.1

theorem still_logout (host : Host) (registry : Registry) :
    Only (Still phase) (logout phase host registry) := by
  have hquiet : (Op.exec host (.registryLogout registry.host) false).Quiet := ⟨rfl, _, rfl⟩
  exact only_bind (still_ask hquiet rfl).only fun _ => only_pure ()

theorem still_close (host : Host) : Only (Still phase) (ask phase (.close host)) :=
  (still_ask (show (Op.close host).Quiet from trivial) rfl).only

theorem still_cleanup (registry : Option Registry) : Only (Still .cleanup) (cleanup registry) := by
  have hlogout : ∀ host past, Only (Still .cleanup) (logoutIfAny host past registry) := by
    intro host past
    cases registry with
    | none => exact only_pure ()
    | some registry => exact only_when (only_swallow (still_logout host registry))
  have hclose : ∀ host past, Only (Still .cleanup) (Prog.when (connected host past) (swallow (ask .cleanup (.close host)))) :=
    fun host past => only_when (only_swallow (still_close host))
  unfold cleanup
  refine only_bind only_past fun past => ?_
  refine only_bind (hlogout .deploy past) fun _ => only_bind (hlogout .build past) fun _ => ?_
  exact only_bind (hclose .deploy past) fun _ => hclose .build past

end Around

end Yeah.Deploy
