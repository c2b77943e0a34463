import Yeah.Deploy.Steps
import Yeah.Runs

namespace Yeah.Deploy

open Calls Prog Runs

/-- The statuses of the deployment and of its application. -/
structure Rows where
  deployment : DeploymentStatus
  application : ApplicationStatus
  deriving DecidableEq

def Op.update : Op → Rows → Rows
  | setDeploymentRunning, w => { w with deployment := .running }
  | setApplicationStatus status, w => { w with application := status }
  | finish status, w => { w with deployment := status }
  | _, w => w

/-- A call that throws has written nothing. -/
def Rows.after (w : Rows) : Event Reply → Rows
  | .called c (.ok _) => c.2.update w
  | _ => w

def final (w : Rows) (t : List (Event Reply)) : Rows := run Rows.after w t

def Happens (φ : Event Reply → Prop) (t : List (Event Reply)) : Prop := ∃ e ∈ t, φ e

/-- What goes wrong before the new version is live. -/
def Lost (e : Event Reply) : Prop := Failed e ∧ ¬ Threw .optional e

def Missing : Event Reply → Prop
  | .called (.preamble, .finish _) (.ok _) => True
  | _ => False

/-- The steps were taken: their rows were found, nothing threw before the new version was live, and every
command that is not optional exited 0. -/
def Completed (t : List (Event Reply)) : Prop := ¬ Happens Missing t ∧ ¬ Happens Lost t

/-- The deployment has ended with the right verdict, and its application can be started and stopped again. -/
def Settled (w : Rows) (t : List (Event Reply)) : Prop :=
  (w.deployment = .success ∨ w.deployment = .failed) ∧ w.application ≠ .deploying ∧
      (w.deployment = .success ↔ Completed t)

def ThrewAt (phase : Phase) (φ : Op → Bool) : Event Reply → Prop
  | .called (p, op) (.error _) => p = phase ∧ φ op = true
  | _ => False

/-- The calls that threw are ones that the verdict bears. -/
structure Reported (w : Rows) (t : List (Event Reply)) : Prop where
  preamble : ¬ Happens (Threw .preamble) t
  missing : Happens Missing t → w.application ≠ .deploying
  completed : Completed t → ¬ Happens (Threw .optional) t ∧
    ¬ Happens (ThrewAt .success Op.writesStatus) t ∧
    (Happens (Threw .success) t → Happens (ThrewAt .handler Op.concludes) t)
  failed : ¬ Completed t → ¬ Happens (ThrewAt .handler Op.settles) t

section Happens

variable {φ : Event Reply → Prop} {t t₁ t₂ : List (Event Reply)}

@[simp]
theorem happens_nil : ¬ Happens φ [] := by simp [Happens]

@[simp]
theorem happens_append : Happens φ (t₁ ++ t₂) ↔ Happens φ t₁ ∨ Happens φ t₂ := by
  simp only [Happens, List.mem_append, or_and_right, exists_or]

@[simp]
theorem happens_cons {e : Event Reply} : Happens φ (e :: t) ↔ φ e ∨ Happens φ t := by simp [Happens]

theorem not_happens {ψ : Event Reply → Prop} (h : ∀ e ∈ t, ψ e) (hφ : ∀ e, ψ e → ¬ φ e) : ¬ Happens φ t :=
  fun ⟨e, he, hn⟩ => hφ e (h e he) hn

@[simp]
theorem final_append (w : Rows) : final w (t₁ ++ t₂) = final (final w t₁) t₂ := List.foldl_append

theorem final_still (w : Rows) (h : ∀ e ∈ t, ∀ v : Rows, v.after e = v) : final w t = w := by
  induction t with
  | nil => rfl
  | cons e t ih =>
      change final (w.after e) t = w
      rw [h e List.mem_cons_self w]
      exact ih fun e' he' => h e' (List.mem_cons_of_mem _ he')

end Happens

theorem Op.update_still {op : Op} (h : op.settles = false) (w : Rows) : op.update w = w := by
  cases op <;> first | rfl | cases h

theorem after_still {phase : Phase} {e : Event Reply} (h : Still phase e) (w : Rows) : w.after e = w := by
  cases e with
  | raised m => rfl
  | called c r =>
      cases r with
      | error m => rfl
      | ok r => exact Op.update_still (h.2 c _ rfl) w

theorem after_plain {K : Command → Prop} {e : Event Reply} (h : Plain K e) (w : Rows) :
    w.after e = w := by
  cases e with
  | raised m => rfl
  | called c r =>
      obtain ⟨phase, op⟩ := c
      cases r with
      | error m => rfl
      | ok r => cases op <;> first | rfl | exact h.2.elim

def Of (phases : List Phase) : Event Reply → Prop
  | .raised _ => True
  | .called (phase, _) _ => phase ∈ phases

theorem of_plain {K : Command → Prop} {e : Event Reply} (h : Plain K e) :
    Of [.sequence, .optional, .bestEffort] e := by
  cases e with
  | raised m => trivial
  | called c r => simpa [Of] using h.1

theorem of_quiet {phase : Phase} {e : Event Reply} (h : Quiet phase e) : Of [phase, .bestEffort] e := by
  cases e with
  | raised m => trivial
  | called c r => simpa [Of] using h.1

section Of

variable {phases : List Phase} {e : Event Reply} {phase : Phase}

theorem Of.not_threw (h : Of phases e) (hp : phase ∉ phases) : ¬ Threw phase e := by
  cases e with
  | raised m => exact id
  | called c r =>
      cases r with
      | ok r => exact id
      | error m =>
          rintro rfl
          exact hp h

theorem Of.not_threwAt {φ : Op → Bool} (h : Of phases e) (hp : phase ∉ phases) : ¬ ThrewAt phase φ e := by
  cases e with
  | raised m => exact id
  | called c r =>
      cases r with
      | ok r => exact id
      | error m =>
          rintro ⟨rfl, -⟩
          exact hp h

theorem Of.not_missing (h : Of phases e) (hp : Phase.preamble ∉ phases) : ¬ Missing e := by
  cases e with
  | raised m => exact id
  | called c r =>
      obtain ⟨p, op⟩ := c
      intro hm
      cases p <;> first | exact hp h | (cases op <;> cases r <;> exact hm)

end Of

theorem quiet_not_failed {phase : Phase} {e : Event Reply} (h : Quiet phase e) (hp : phase.strict = false) :
    ¬ Failed e := by
  cases e with
  | raised m => exact h.elim
  | called c r =>
      refine not_failed_lax ?_
      rcases h.1 with h | h <;> rw [h]
      · exact hp
      · rfl

theorem not_threwAt_still {phase p : Phase} {φ : Op → Bool} {e : Event Reply} (h : Still phase e)
    (hφ : ∀ op : Op, op.settles = false → φ op = false) : ¬ ThrewAt p φ e := by
  cases e with
  | raised m => exact id
  | called c r =>
      cases r with
      | ok r => exact id
      | error m => exact fun ht => Bool.noConfusion ((hφ _ (h.2 c _ rfl)).symm.trans ht.2)

theorem Op.writesStatus_of_settles {op : Op} (h : op.settles = false) : op.writesStatus = false :=
  (Bool.or_eq_false_iff.1 h).2

section Reports

variable (settings : Settings) (a : Application)

theorem does_ask {phase : Phase} (op : Op) : Does (ask phase op) fun r t => t = [.called (phase, op) r] :=
  does_call _ fun _ => rfl

/-- How the report of a success can end. -/
inductive Success : Except String Unit → List (Event Reply) → Prop
  | all {t : List (Event Reply)} (ht : ¬ Happens (Threw .success) t) (hw : ∀ w, final w t = ⟨.success, .running⟩) : Success (.ok ()) t
  | unwritten {m : String} {t : List (Event Reply)} (ht : Happens (ThrewAt .success Op.writesStatus) t)
      (hw : ∀ w, (final w t).application = w.application) : Success (.error m) t
  | unannounced {m : String} {t : List (Event Reply)} (hn : ¬ Happens (ThrewAt .success Op.writesStatus) t)
      (ht : Happens (Threw .success) t) (hw : ∀ w, final w t = ⟨.success, .running⟩) : Success (.error m) t

theorem does_reportSuccess (commit : Option String) : Does (reportSuccess settings a commit) Success := by
  refine Does.imp (does_bind (does_ask _) fun _ => does_bind (does_ask _) fun _ => still_announceSuccess settings a commit) ?_
  rintro r t (⟨m, rfl, rfl⟩ | ⟨u, t₁, t', rfl, rfl, ⟨m, rfl, rfl⟩ | ⟨v, t₂, t₃, rfl, rfl, hstill, hend⟩⟩)
  · refine Success.unwritten ⟨_, List.mem_cons_self, rfl, rfl⟩ fun w => rfl
  · refine Success.unwritten ⟨_, List.mem_cons_of_mem _ List.mem_cons_self, rfl, rfl⟩ fun w => rfl
  · have hw : ∀ w : Rows, final w ([.called (.success, .finish .success) (.ok u)] ++
        ([.called (.success, .setApplicationStatus .running) (.ok v)] ++ t₃)) = ⟨.success, .running⟩ := fun w => by
      rw [final_append, final_append, final_still _ fun e he => after_still (hstill e he)]
      rfl
    cases r with
    | ok r => exact Success.all (by simpa [Threw, Happens] using hend.1 ⟨r, rfl⟩) hw
    | error m =>
        refine Success.unannounced ?_ ?_ hw
        · simp only [happens_append, happens_cons, happens_nil, ThrewAt, or_false, false_or]
          exact not_happens hstill fun e he => not_threwAt_still he fun _ => Op.writesStatus_of_settles
        · simp only [happens_append, happens_cons, happens_nil, Threw, or_false, false_or]
          by_contra hn
          obtain ⟨r, hr⟩ := hend.2 fun e he hF => hn ⟨e, he, hF⟩
          cases hr

/-- How the report of a failure can end. -/
inductive Failure : List (Event Reply) → Prop
  | unwritten {t : List (Event Reply)} (ht : Happens (ThrewAt .handler Op.concludes) t) (hw : ∀ w, final w t = w) : Failure t
  | half {t : List (Event Reply)} (hn : ¬ Happens (ThrewAt .handler Op.concludes) t)
      (ht : Happens (ThrewAt .handler Op.settles) t) (hw : ∀ w, final w t = ⟨.failed, w.application⟩) :
      Failure t
  | all {t : List (Event Reply)} (hn : ¬ Happens (ThrewAt .handler Op.settles) t)
      (hw : ∀ w, final w t = ⟨.failed, .error⟩) : Failure t

theorem does_reportFailure (m : String) : Does (reportFailure settings a m) fun _ t => Failure t := by
  refine Does.imp (does_bind (does_ask _) fun _ => does_bind (does_ask _) fun _ => does_bind (does_ask _) fun _ =>
    still_announceFailure settings a) ?_
  rintro r t (⟨m, rfl, rfl⟩ | ⟨u, t₁, t', rfl, rfl, ⟨m, rfl, rfl⟩ | ⟨v, t₂, t', rfl, rfl, ⟨m, rfl, rfl⟩ |
    ⟨x, t₃, t₄, rfl, rfl, hstill, -⟩⟩⟩)
  · exact Failure.unwritten ⟨_, List.mem_cons_self, rfl, rfl⟩ fun w => rfl
  · exact Failure.unwritten ⟨_, List.mem_cons_of_mem _ List.mem_cons_self, rfl, rfl⟩ fun w => rfl
  · refine Failure.half ?_ ⟨_, List.mem_append_right _ (List.mem_append_right _ List.mem_cons_self), rfl, rfl⟩ fun w => rfl
    simp [ThrewAt, Op.concludes]
  · refine Failure.all ?_ fun w => ?_
    · simp only [happens_append, happens_cons, happens_nil, ThrewAt, or_false, false_or]
      exact not_happens hstill fun e he => not_threwAt_still he fun _ => id
    · rw [final_append, final_append, final_append, final_still _ fun e he => after_still (hstill e he)]
      rfl

end Reports

section Opening

theorem after_opening {e : Event Reply} (h : Opening e) {w : Rows}
    (hw : w.deployment = .queued ∨ w.deployment = .running) :
    (w.after e).deployment = .queued ∨ (w.after e).deployment = .running := by
  cases e with
  | raised m => exact hw
  | called c r =>
      obtain ⟨phase, op⟩ := c
      cases r with
      | error m => exact hw
      | ok r =>
          cases op with
          | setDeploymentRunning => exact Or.inr rfl
          | finish status => exact absurd rfl (h.2 phase status _)
          | _ => exact hw

theorem final_opening {t : List (Event Reply)} (ht : ∀ e ∈ t, Opening e) {w : Rows}
    (hw : w.deployment = .queued ∨ w.deployment = .running) :
    (final w t).deployment = .queued ∨ (final w t).deployment = .running := by
  induction t generalizing w with
  | nil => exact hw
  | cons e t ih =>
      exact ih (fun e' he' => ht e' (List.mem_cons_of_mem _ he'))
        (after_opening (ht e List.mem_cons_self) hw)

variable (settings : Settings) (a : Application)

/-- What the statuses are after the program, if it ends normally. -/
def Sets {α : Type} (p : Job α) (g : Rows → Rows) : Prop :=
  Does p fun r t => ∀ x, r = .ok x → ∀ w, final w t = g w

theorem sets_pure {α : Type} (x : α) : Sets (pure x) id := does_pure x fun _ _ _ => rfl

theorem sets_ask {phase : Phase} (op : Op) : Sets (ask phase op) op.update := by
  refine Does.imp (does_ask op) ?_
  rintro r t rfl x rfl w
  rfl

theorem sets_bind {α β : Type} {p : Job α} {k : α → Job β} {g f : Rows → Rows} (hp : Sets p g)
    (hk : ∀ x, Sets (k x) f) :
    Sets (p >>= k) fun w => f (g w) := by
  refine Does.imp (does_bind hp hk) ?_
  rintro r t (⟨m, rfl, -⟩ | ⟨x, t₁, t₂, rfl, h₁, h₂⟩) y hy w
  · cases hy
  · rw [final_append, h₁ x rfl, h₂ y hy]

theorem sets_then {α β : Type} {p : Job α} {k : α → Job β} {g : Rows → Rows} (hp : Sets p id)
    (hk : ∀ x, Sets (k x) g) :
    Sets (p >>= k) g := sets_bind hp hk

theorem sets_loadSharedVariables : Sets (loadSharedVariables a .preamble) id := by
  have henvironment : Sets (ask .preamble (.selectEnvironment a.environmentId)) id := sets_ask _
  exact sets_then henvironment fun _ => sets_ask _

theorem sets_findRegistry : Sets (findRegistry a) id := by
  unfold findRegistry
  split
  · exact sets_pure _
  · exact sets_ask _

theorem sets_findBuildServer : Sets (findBuildServer a) id := by
  unfold findBuildServer
  split
  · exact sets_pure _
  · exact sets_ask _

theorem sets_start (d : Deployment) (server : Server) :
    Sets (start a d server) fun _ => ⟨.running, .deploying⟩ := by
  have hask : ∀ op : Op, op.update = id → Sets (ask .preamble op) id := fun op h => h ▸ sets_ask op
  unfold start
  refine sets_then ?_ fun _ => sets_bind (sets_ask _) fun _ => sets_bind (f := id) (sets_ask _) fun _ => ?_
  · unfold Prog.when
    split
    · exact sets_then (sets_loadSharedVariables a) fun _ => sets_pure ()
    · exact sets_pure ()
  · refine sets_then (hask _ rfl) fun _ => sets_then (hask _ rfl) fun _ => sets_then (hask _ rfl) fun _ => ?_
    refine sets_then (hask _ rfl) fun _ => sets_then (sets_findRegistry a) fun _ => ?_
    exact sets_then (sets_findBuildServer a) fun _ => sets_pure _

end Opening

section Parts

/-- What the job adds to the record before the `try`, in it, in its report, in the `catch` and in the
`finally`. -/
structure Parts (tp tq ts th tc : List (Event Reply)) : Prop where
  opening : ∀ e ∈ tp, Opening e
  opened : ¬ Happens (Threw .preamble) tp
  sequence : ∀ e ∈ tq, Plain (fun _ => True) e
  success : ∀ e ∈ ts, Quiet .success e
  handler : ∀ e ∈ th, Quiet .handler e
  cleanup : ∀ e ∈ tc, Still .cleanup e

variable {tp tq ts th tc : List (Event Reply)}

theorem not_threw_of {phases : List Phase} (phase : Phase) {t : List (Event Reply)}
    (h : ∀ e ∈ t, Of phases e)
    (hp : phase ∉ phases) : ¬ Happens (Threw phase) t :=
  not_happens h fun _ he => he.not_threw hp

theorem not_threwAt_of {phases : List Phase} (phase : Phase) (φ : Op → Bool) {t : List (Event Reply)}
    (h : ∀ e ∈ t, Of phases e) (hp : phase ∉ phases) : ¬ Happens (ThrewAt phase φ) t :=
  not_happens h fun _ he => he.not_threwAt hp

theorem not_lost_of {phase : Phase} {t : List (Event Reply)} (h : ∀ e ∈ t, Quiet phase e)
    (hp : phase.strict = false) :
    ¬ Happens Lost t :=
  not_happens h fun _ he hl => quiet_not_failed he hp hl.1

theorem not_lost_opening {t : List (Event Reply)} (h : ∀ e ∈ t, Opening e)
    (ht : ¬ Happens (Threw .preamble) t) :
    ¬ Happens Lost t :=
  fun ⟨e, he, hl⟩ => ht ⟨e, he, (quiet_failed (h e he).1).1 hl.1⟩

theorem not_missing_opening {t : List (Event Reply)} (h : ∀ e ∈ t, Opening e) : ¬ Happens Missing t := by
  refine not_happens h fun e he hm => ?_
  cases e with
  | raised m => exact hm
  | called c r =>
      obtain ⟨phase, op⟩ := c
      cases op with
      | finish status => exact he.2 phase status r rfl
      | _ => cases phase <;> cases r <;> exact hm

namespace Parts

variable (h : Parts tp tq ts th tc)

include h

theorem of_opening : ∀ e ∈ tp, Of [.preamble, .bestEffort] e := fun e he => of_quiet (h.opening e he).1
theorem of_sequence : ∀ e ∈ tq, Of [.sequence, .optional, .bestEffort] e :=
  fun e he => of_plain (h.sequence e he)
theorem of_success : ∀ e ∈ ts, Of [.success, .bestEffort] e := fun e he => of_quiet (h.success e he)
theorem of_handler : ∀ e ∈ th, Of [.handler, .bestEffort] e := fun e he => of_quiet (h.handler e he)
theorem of_cleanup : ∀ e ∈ tc, Of [.cleanup, .bestEffort] e := fun e he => of_quiet (h.cleanup e he).1

theorem missing : ¬ Happens Missing (tp ++ tq ++ ts ++ th ++ tc) := by
  simp only [happens_append, not_or]
  refine ⟨⟨⟨⟨?_, ?_⟩, ?_⟩, ?_⟩, ?_⟩
  · exact not_missing_opening h.opening
  · exact not_happens h.of_sequence fun _ he => he.not_missing (by decide)
  · exact not_happens h.of_success fun _ he => he.not_missing (by decide)
  · exact not_happens h.of_handler fun _ he => he.not_missing (by decide)
  · exact not_happens h.of_cleanup fun _ he => he.not_missing (by decide)

theorem preamble : ¬ Happens (Threw .preamble) (tp ++ tq ++ ts ++ th ++ tc) := by
  simp only [happens_append, not_or]
  refine ⟨⟨⟨⟨h.opened, ?_⟩, ?_⟩, ?_⟩, ?_⟩
  · exact not_threw_of .preamble h.of_sequence (by decide)
  · exact not_threw_of .preamble h.of_success (by decide)
  · exact not_threw_of .preamble h.of_handler (by decide)
  · exact not_threw_of .preamble h.of_cleanup (by decide)

theorem lost : Happens Lost (tp ++ tq ++ ts ++ th ++ tc) ↔ Happens Lost tq := by
  have ho := not_lost_opening h.opening h.opened
  have hs := not_lost_of h.success rfl
  have hh := not_lost_of h.handler rfl
  have hc := not_lost_of (fun e he => (h.cleanup e he).1) rfl
  simp only [happens_append, ho, hs, hh, hc, or_false, false_or]

theorem completed : Completed (tp ++ tq ++ ts ++ th ++ tc) ↔ ¬ Happens Lost tq := by
  simp only [Completed, h.missing, h.lost, not_false_eq_true, true_and]

theorem threwOptional : Happens (Threw .optional) (tp ++ tq ++ ts ++ th ++ tc) ↔
    Happens (Threw .optional) tq := by
  have ho := not_threw_of .optional h.of_opening (by decide)
  have hs := not_threw_of .optional h.of_success (by decide)
  have hh := not_threw_of .optional h.of_handler (by decide)
  have hc := not_threw_of .optional h.of_cleanup (by decide)
  simp only [happens_append, ho, hs, hh, hc, or_false, false_or]

theorem threwSuccess : Happens (Threw .success) (tp ++ tq ++ ts ++ th ++ tc) ↔
    Happens (Threw .success) ts := by
  have ho := not_threw_of .success h.of_opening (by decide)
  have hq := not_threw_of .success h.of_sequence (by decide)
  have hh := not_threw_of .success h.of_handler (by decide)
  have hc := not_threw_of .success h.of_cleanup (by decide)
  simp only [happens_append, ho, hq, hh, hc, or_false, false_or]

theorem threwAtSuccess (φ : Op → Bool) :
    Happens (ThrewAt .success φ) (tp ++ tq ++ ts ++ th ++ tc) ↔ Happens (ThrewAt .success φ) ts := by
  have ho := not_threwAt_of .success φ h.of_opening (by decide)
  have hq := not_threwAt_of .success φ h.of_sequence (by decide)
  have hh := not_threwAt_of .success φ h.of_handler (by decide)
  have hc := not_threwAt_of .success φ h.of_cleanup (by decide)
  simp only [happens_append, ho, hq, hh, hc, or_false, false_or]

theorem threwAtHandler (φ : Op → Bool) :
    Happens (ThrewAt .handler φ) (tp ++ tq ++ ts ++ th ++ tc) ↔ Happens (ThrewAt .handler φ) th := by
  have ho := not_threwAt_of .handler φ h.of_opening (by decide)
  have hq := not_threwAt_of .handler φ h.of_sequence (by decide)
  have hs := not_threwAt_of .handler φ h.of_success (by decide)
  have hc := not_threwAt_of .handler φ h.of_cleanup (by decide)
  simp only [happens_append, ho, hq, hs, hc, or_false, false_or]

theorem final (w : Rows) :
    final w (tp ++ tq ++ ts ++ th ++ tc) = Deploy.final (Deploy.final (Deploy.final w tp) ts) th := by
  have hq := final_still (Deploy.final w tp) fun e he => after_plain (h.sequence e he)
  have hc :=
    final_still (Deploy.final (Deploy.final (Deploy.final w tp) ts) th) fun e he => after_still (h.cleanup e he)
  simp only [final_append, hq, hc]

theorem reported (w : Rows) : Reported w (tp ++ tq ++ ts ++ th ++ tc) ↔
    (¬ Happens Lost tq → ¬ Happens (Threw .optional) tq ∧ ¬ Happens (ThrewAt .success Op.writesStatus) ts ∧
      (Happens (Threw .success) ts → Happens (ThrewAt .handler Op.concludes) th)) ∧
    (Happens Lost tq → ¬ Happens (ThrewAt .handler Op.settles) th) := by
  refine ⟨fun hr => ⟨fun hl => ?_, fun hl => ?_⟩,
    fun hr => ⟨h.preamble, fun hm => absurd hm h.missing, fun hc => ?_, fun hc => ?_⟩⟩
  · have hc := hr.completed (h.completed.2 hl)
    rwa [h.threwOptional, h.threwAtSuccess, h.threwSuccess, h.threwAtHandler] at hc
  · have hf := hr.failed fun hc => h.completed.1 hc hl
    rwa [h.threwAtHandler] at hf
  · rw [h.threwOptional, h.threwAtSuccess, h.threwSuccess, h.threwAtHandler]
    exact hr.1 (h.completed.1 hc)
  · rw [h.threwAtHandler]
    exact hr.2 (not_not.1 fun hl => hc (h.completed.2 hl))

end Parts

theorem threw_of_threwAt {phase : Phase} {φ : Op → Bool} {t : List (Event Reply)}
    (h : Happens (ThrewAt phase φ) t) :
    Happens (Threw phase) t := by
  obtain ⟨e, he, ht⟩ := h
  refine ⟨e, he, ?_⟩
  cases e with
  | raised m => exact ht
  | called c r => cases r <;> first | exact ht.1 | exact ht

theorem settles_of_concludes {phase : Phase} {t : List (Event Reply)}
    (h : Happens (ThrewAt phase Op.concludes) t) :
    Happens (ThrewAt phase Op.settles) t := by
  obtain ⟨e, he, ht⟩ := h
  refine ⟨e, he, ?_⟩
  cases e with
  | raised m => exact ht
  | called c r =>
      cases r with
      | ok r => exact ht
      | error m => exact ⟨ht.1, by rw [Op.settles, ht.2]; rfl⟩

variable {w : Rows}

theorem not_lost (hq : ¬ Happens Failed tq) : ¬ Happens Lost tq := fun ⟨e, he, hl⟩ => hq ⟨e, he, hl.1⟩

theorem not_optional (hq : ¬ Happens Failed tq) : ¬ Happens (Threw .optional) tq := by
  rintro ⟨e, he, ht⟩
  refine hq ⟨e, he, ?_⟩
  cases e with
  | raised m => exact ht.elim
  | called c r =>
      cases r with
      | ok r => exact ht.elim
      | error m =>
          obtain ⟨phase, op⟩ := c
          obtain rfl : phase = .optional := ht
          rfl

theorem not_success {v v' : Rows} (h : v = v') (hn : v'.deployment ≠ .success) :
    v.deployment ≠ .success := h ▸ hn

/-- The steps and their report went through. -/
theorem Parts.verdict_reported (h : Parts tp tq ts [] tc) (hq : ¬ Happens Failed tq) {x : Unit}
    (hs : Success (.ok x) ts) :
    Settled (Deploy.final w (tp ++ tq ++ ts ++ [] ++ tc)) (tp ++ tq ++ ts ++ [] ++ tc) ↔
      Reported w (tp ++ tq ++ ts ++ [] ++ tc) := by
  cases hs with
  | all ht hfinal =>
      rw [h.reported, h.final, hfinal]
      refine iff_of_true ⟨Or.inl rfl, nofun, fun _ => h.completed.2 (not_lost hq), fun _ => rfl⟩ ⟨fun _ => ⟨?_, ?_, ?_⟩, ?_⟩
      · exact not_optional hq
      · exact fun hn => ht (threw_of_threwAt hn)
      · exact fun hn => absurd hn ht
      · exact fun hl => absurd hl (not_lost hq)

/-- The steps went through and their report did not. -/
theorem Parts.verdict_unreported (h : Parts tp tq ts th tc)
    (hw : Deploy.final w tp = ⟨.running, .deploying⟩)
    (hq : ¬ Happens Failed tq) {m : String} (hs : Success (.error m) ts) (hh : Failure th) :
    Settled (Deploy.final w (tp ++ tq ++ ts ++ th ++ tc)) (tp ++ tq ++ ts ++ th ++ tc) ↔
      Reported w (tp ++ tq ++ ts ++ th ++ tc) := by
  have hc := h.completed.2 (not_lost hq)
  rw [h.reported, h.final, hw]
  cases hs with
  | unwritten ht hfinal =>
      -- The application is left deploying, or the deployment is marked as failed.
      refine iff_of_false ?_ fun hr => (hr.1 (not_lost hq)).2.1 ht
      rintro ⟨-, hn, hverdict⟩
      cases hh with
      | unwritten _ hfinal' => exact hn (by rw [hfinal', hfinal])
      | half _ _ hfinal' => exact hn (by rw [hfinal', hfinal])
      | all _ hfinal' => exact not_success (hfinal' _) nofun (hverdict.2 hc)
  | unannounced hn ht hfinal =>
      rw [hfinal]
      cases hh with
      | unwritten ht' hfinal' =>
          rw [hfinal']
          refine iff_of_true ⟨Or.inl rfl, nofun, fun _ => hc, fun _ => rfl⟩ ⟨fun _ => ⟨not_optional hq, hn, fun _ => ht'⟩, ?_⟩
          exact fun hl => absurd hl (not_lost hq)
      | half hn' _ hfinal' =>
          refine iff_of_false (fun hs => ?_) fun hr => hn' ((hr.1 (not_lost hq)).2.2 ht)
          exact not_success (hfinal' _) nofun (hs.2.2.2 hc)
      | all hn' hfinal' =>
          refine iff_of_false (fun hs => ?_) fun hr => hn' (settles_of_concludes ((hr.1 (not_lost hq)).2.2 ht))
          exact not_success (hfinal' _) nofun (hs.2.2.2 hc)

/-- The steps did not go through. -/
theorem Parts.verdict_failed (h : Parts tp tq [] th tc) (hw : Deploy.final w tp = ⟨.running, .deploying⟩)
    (hq : Happens Failed tq) (hh : Failure th) :
    Settled (Deploy.final w (tp ++ tq ++ [] ++ th ++ tc)) (tp ++ tq ++ [] ++ th ++ tc) ↔
      Reported w (tp ++ tq ++ [] ++ th ++ tc) := by
  have hstart : Deploy.final (Deploy.final w tp) [] = ⟨.running, .deploying⟩ := hw
  rw [h.reported, h.final, hstart]
  by_cases hl : Happens Lost tq
  · cases hh with
    | unwritten ht hfinal =>
        refine iff_of_false (fun hs => hs.2.1 ?_) fun hr => hr.2 hl (settles_of_concludes ht)
        rw [hfinal]
    | half _ ht hfinal =>
        refine iff_of_false (fun hs => hs.2.1 ?_) fun hr => hr.2 hl ht
        rw [hfinal]
    | all hn hfinal =>
        rw [hfinal]
        refine iff_of_true ⟨Or.inr rfl, nofun, nofun, fun hc => absurd hl (h.completed.1 hc)⟩ ⟨fun hn => absurd hl hn, fun _ => hn⟩
  · -- Only the step after the new version was live went wrong: the verdict must be a success, and is not.
    have hc := h.completed.2 hl
    obtain ⟨e, he, hF⟩ := hq
    have ho : Happens (Threw .optional) tq := ⟨e, he, not_not.1 fun hn => hl ⟨e, he, hF, hn⟩⟩
    refine iff_of_false (fun hs => ?_) fun hr => (hr.1 hl).1 ho
    have hv := hs.2.2.2 hc
    cases hh with
    | unwritten _ hfinal => exact not_success (hfinal ⟨.running, .deploying⟩) nofun hv
    | half _ _ hfinal => exact not_success (hfinal _) nofun hv
    | all _ hfinal => exact not_success (hfinal _) nofun hv

/-- How the steps, their report and the `catch` can go. -/
inductive Tried : List (Event Reply) → List (Event Reply) → List (Event Reply) → Prop
  | reported {tq ts : List (Event Reply)} {x : Unit} (hq : ¬ Happens Failed tq) (hs : Success (.ok x) ts) : Tried tq ts []
  | unreported {tq ts th : List (Event Reply)} {m : String} (hq : ¬ Happens Failed tq) (hs : Success (.error m) ts)
      (hh : Failure th) : Tried tq ts th
  | failed {tq th : List (Event Reply)} (hq : Happens Failed tq) (hh : Failure th) : Tried tq [] th

theorem Parts.verdict (h : Parts tp tq ts th tc) (hw : Deploy.final w tp = ⟨.running, .deploying⟩)
    (ht : Tried tq ts th) :
    Settled (Deploy.final w (tp ++ tq ++ ts ++ th ++ tc)) (tp ++ tq ++ ts ++ th ++ tc) ↔
      Reported w (tp ++ tq ++ ts ++ th ++ tc) := by
  cases ht with
  | reported hq hs => exact h.verdict_reported hq hs
  | unreported hq hs hh => exact h.verdict_unreported hw hq hs hh
  | failed hq hh => exact h.verdict_failed hw hq hh

theorem Parts.opened_by (h : Parts [] tq ts th tc) (ho : ∀ e ∈ tp, Opening e)
    (hn : ¬ Happens (Threw .preamble) tp) :
    Parts tp tq ts th tc :=
  ⟨ho, hn, h.sequence, h.success, h.handler, h.cleanup⟩

end Parts

section Whole

variable (settings : Settings)

theorem does_attemptJob (a : Application) (c : Context) : Does (attempt settings a c) fun _ t =>
    ∃ tq ts th tc, t = tq ++ ts ++ th ++ tc ∧ Parts [] tq ts th tc ∧ Tried tq ts th := by
  have hsuccess :=
    fun commit => Does.and (quiet_reportSuccess settings a commit) (does_reportSuccess settings a commit)
  have hfailure := fun m => Does.and (quiet_reportFailure settings a m) (does_reportFailure settings a m)
  refine Does.imp (does_ensure (does_attempt (does_bind (any_deploySequence settings a c) hsuccess) hfailure)
    (still_cleanup c.registry)) ?_
  have hparts : ∀ {tq ts th tc}, (∀ e ∈ tq, Plain (fun _ => True) e) → (∀ e ∈ ts, Quiet .success e) →
      (∀ e ∈ th, Quiet .handler e) → (∀ e ∈ tc, Still .cleanup e) → Parts [] tq ts th tc :=
    fun hq hs hh hc => ⟨by simp, by simp, hq, hs, hh, hc⟩
  have hfailed : ∀ {r : Except String (Option String)} {tq m}, ((∃ x, r = .ok x) ↔ ∀ e ∈ tq, ¬ Failed e) →
    r = .error m →
      Happens Failed tq := by
    rintro r tq m hend rfl
    by_contra hn
    obtain ⟨x, hx⟩ := hend.2 fun e he hF => hn ⟨e, he, hF⟩
    cases hx
  have hunfailed : ∀ {r : Except String (Option String)} {tq x}, ((∃ x, r = .ok x) ↔ ∀ e ∈ tq, ¬ Failed e) → r = .ok x →
      ¬ Happens Failed tq := fun hend hr ⟨e, he, hF⟩ => hend.1 ⟨_, hr⟩ e he hF
  rintro r t ⟨r', u, t₁, tc, rfl, hmid, hc, -⟩
  rcases hmid with ⟨x, rfl, ⟨m, hm, -⟩ | ⟨commit, tq, ts, rfl, ⟨hq, hend⟩, hs, hreport⟩⟩ |
    ⟨m, t₁, th, rfl, ⟨m', -, hq, hend⟩ | ⟨commit, tq, ts, rfl, ⟨hq, hend⟩, hs, hreport⟩, hh, hfail⟩
  · cases hm
  · exact ⟨tq, ts, [], tc, by simp, hparts hq hs (by simp) hc, .reported (hunfailed hend rfl) hreport⟩
  · exact ⟨t₁, [], th, tc, by simp, hparts hq (by simp) hh hc, .failed (hfailed hend rfl) hfail⟩
  · exact ⟨tq, ts, th, tc, rfl, hparts hq hs hh hc, .unreported (hunfailed hend rfl) hreport hfail⟩

/-- How the job of a deployment that has a row can go. -/
inductive Course : List (Event Reply) → Prop
  | cut {t : List (Event Reply)} (ho : ∀ e ∈ t, Opening e) (ht : Happens (Threw .preamble) t) : Course t
  | missing {t : List (Event Reply)} {r : Except String (Reply (.preamble, .finish .failed))} (ho : ∀ e ∈ t, Opening e) (hn : ¬ Happens (Threw .preamble) t)
      (hw : ∀ w, final w t = w) : Course (t ++ [.called (.preamble, .finish .failed) r])
  | tried {tp tq ts th tc : List (Event Reply)} (h : Parts tp tq ts th tc) (hw : ∀ w, final w tp = ⟨.running, .deploying⟩)
      (ht : Tried tq ts th) : Course (tp ++ tq ++ ts ++ th ++ tc)

theorem Course.read {op : Op} {x : op.Reply} {t : List (Event Reply)} (hq : op.Quiet)
    (hs : op.settles = false) (h : Course t) :
    Course (.called (.preamble, op) (.ok x) :: t) := by
  have ho : Opening (.called (.preamble, op) (.ok x)) := by
    refine ⟨⟨Or.inl rfl, hq⟩, ?_⟩
    rintro phase status r ⟨⟩
    cases hs
  have hn : ¬ Threw .preamble (.called (.preamble, op) (.ok x)) := id
  cases h with
  | cut hos ht => exact cut (by simpa using ⟨ho, hos⟩) (happens_cons.2 (Or.inr ht))
  | missing hos hns hw =>
      refine missing (t := _ :: _) (by simpa using ⟨ho, hos⟩) (by simpa using ⟨hn, hns⟩) fun w => ?_
      exact (hw _).trans (Op.update_still hs w)
  | tried h hw ht =>
      have hos : ∀ e ∈ .called (.preamble, op) (.ok x) :: _, Opening e :=
        List.forall_mem_cons.2 ⟨ho, h.opening⟩
      have hns := fun hm => (happens_cons.1 hm).elim hn h.opened
      exact tried ⟨hos, hns, h.sequence, h.success, h.handler, h.cleanup⟩ (fun w => hw _) ht

theorem does_read {op : Op} {k : op.Reply → Job Unit} (hq : op.Quiet) (hs : op.settles = false)
    (hk : ∀ x, Does (k x) fun _ t => Course t) : Does (ask .preamble op >>= k) fun _ t => Course t := by
  refine Does.imp (does_bind (does_ask op) hk) ?_
  rintro r t (⟨m, rfl, rfl⟩ | ⟨x, t₁, t₂, rfl, rfl, h⟩)
  · refine Course.cut ?_ ⟨_, List.mem_cons_self, rfl⟩
    intro e he
    obtain rfl := List.mem_singleton.1 he
    refine ⟨⟨Or.inl rfl, hq⟩, ?_⟩
    rintro phase status r ⟨⟩
    cases hs
  · exact h.read hq hs

theorem does_finish : Does (ask .preamble (.finish .failed)) fun _ t => Course t := by
  refine Does.imp (does_ask _) ?_
  rintro r t rfl
  exact Course.missing (t := []) (by simp) (by simp) fun w => rfl

theorem does_deployOn (a : Application) (d : Deployment) (row : Option Server) :
    Does (deployOn settings a d row) fun _ t => Course t := by
  cases row with
  | none => exact does_finish
  | some server =>
      have hstart := Does.and (steps_start a d server) (sets_start a d server)
      refine Does.imp (does_bind hstart fun c => does_attemptJob settings a c) ?_
      rintro r t (⟨m, -, ⟨ho, hend⟩, -⟩ | ⟨c, tp, t', rfl, ⟨⟨ho, hend⟩, hw⟩, tq, ts, th, tc, rfl, hparts, htried⟩)
      · refine Course.cut ho ?_
        by_contra hn
        obtain ⟨x, hx⟩ := hend.2 fun e he hF => hn ⟨e, he, hF⟩
        cases hx
      · have hn : ¬ Happens (Threw .preamble) tp := fun ⟨e, he, hF⟩ => hend.1 ⟨c, rfl⟩ e he hF
        have h := Course.tried (hparts.opened_by ho hn) (hw c rfl) htried
        simpa only [List.append_assoc] using h

theorem does_deployRow (d : Deployment) : Does (deployRow settings (some d)) fun _ t => Course t := by
  have happlication : (Op.selectApplication d.applicationId).Quiet := trivial
  refine does_read happlication rfl fun row => ?_
  cases row with
  | none => exact does_finish
  | some a =>
      have hserver : (Op.selectServer a.serverId).Quiet := trivial
      exact does_read hserver rfl fun row => does_deployOn settings a d row

theorem Course.verdict {t : List (Event Reply)} (h : Course t) {w : Rows}
    (hw : w.deployment = .queued ∨ w.deployment = .running) :
    Settled (final w t) t ↔ Reported w t := by
  cases h with
  | cut ho ht =>
      refine iff_of_false (fun hs => ?_) fun hr => hr.preamble ht
      rcases hs.1 with hs | hs <;> rcases final_opening ho hw with h | h <;> exact nomatch hs.symm.trans h
  | missing ho hn hfinal =>
      rename_i t r
      have hlost := not_lost_opening ho hn
      cases r with
      | error m =>
          -- The one write of the job has failed.
          refine iff_of_false (fun hs => ?_) fun hr => hr.preamble ⟨_, List.mem_append_right _ List.mem_cons_self, rfl⟩
          have hfinal' : final w (t ++ [.called (.preamble, .finish .failed) (.error m)]) = w := by
            rw [final_append, hfinal]
            rfl
          rw [hfinal'] at hs
          rcases hs.1 with hs | hs <;> rcases hw with h | h <;> exact nomatch hs.symm.trans h
      | ok u =>
          have hmissing : Happens Missing (t ++ [.called (.preamble, .finish .failed) (.ok u)]) :=
            ⟨_, List.mem_append_right _ List.mem_cons_self, trivial⟩
          have hfinal' : final w (t ++ [.called (.preamble, .finish .failed) (.ok u)]) =
              ⟨.failed, w.application⟩ := by
            rw [final_append, hfinal]
            rfl
          rw [hfinal']
          refine ⟨fun hs => ⟨?_, fun _ => hs.2.1, fun hc => absurd hmissing hc.1, fun _ => ?_⟩,
            fun hr => ?_⟩
          · simpa [Threw] using hn
          · have hof : ∀ e ∈ t, Of [.preamble, .bestEffort] e := fun e he => of_quiet (ho e he).1
            simpa [ThrewAt] using not_threwAt_of .handler Op.settles hof (by decide)
          · exact ⟨Or.inr rfl, hr.missing hmissing, nofun, fun hc => absurd hmissing hc.1⟩
  | tried h hfinal ht => exact h.verdict (hfinal w) ht

/-- A deployment that has a row ends settled exactly if the calls that threw are ones that the verdict bears. -/
theorem deployApplication_settles_iff (env : Env Reply) (deploymentId : String) (w : Rows)
    (hrow : env [] (.preamble, .selectDeployment deploymentId) ≠ .ok none)
    (hw : w.deployment = .queued ∨ w.deployment = .running) :
    Settled (final w (deployApplication settings deploymentId env []).2) (deployApplication settings deploymentId env []).2 ↔
      Reported w (deployApplication settings deploymentId env []).2 := by
  have hread : (Op.selectDeployment deploymentId).Quiet := trivial
  refine Course.verdict ?_ hw
  cases hr : env [] (.preamble, .selectDeployment deploymentId) with
  | error m =>
      have hrun : (deployApplication settings deploymentId env []).2 =
          [.called (.preamble, .selectDeployment deploymentId) (.error m)] :=
        congrArg Prod.snd (call_then_error hr)
      rw [hrun]
      refine Course.cut ?_ ⟨_, List.mem_cons_self, rfl⟩
      intro e he
      obtain rfl := List.mem_singleton.1 he
      exact ⟨⟨Or.inl rfl, hread⟩, nofun⟩
  | ok row =>
      cases row with
      | none => exact absurd hr hrow
      | some d =>
          have hrun : deployApplication settings deploymentId env [] =
              deployRow settings (some d) env [.called (.preamble, .selectDeployment deploymentId) (.ok (some d))] :=
                call_then hr
          obtain ⟨t, ht, hcourse⟩ :=
            does_deployRow settings d env [.called (.preamble, .selectDeployment deploymentId) (.ok (some d))]
          rw [hrun, ht]
          exact hcourse.read hread rfl

theorem allWell_found (d : Deployment) (a : Application) (id : String) :
    allWell d a [] (.preamble, .selectDeployment id) ≠ .ok none := by
  intro h
  have hsome : some d = none := Except.ok.inj h
  exact Option.some_ne_none d hsome

theorem deployApplication_settles_iff_well :
    Settled (final ⟨.queued, .idle⟩ (deployApplication plain "d" (allWell ⟨"d", "a", none, none⟩ website) []).2)
        (deployApplication plain "d" (allWell ⟨"d", "a", none, none⟩ website) []).2 ↔
      Reported ⟨.queued, .idle⟩ (deployApplication plain "d" (allWell ⟨"d", "a", none, none⟩ website) []).2 :=
  deployApplication_settles_iff plain (allWell ⟨"d", "a", none, none⟩ website) "d" ⟨.queued, .idle⟩
    (allWell_found ⟨"d", "a", none, none⟩ website "d") (Or.inl rfl)

example : final ⟨.queued, .idle⟩ (deployApplication plain "d" (allWell ⟨"d", "a", none, none⟩ website) []).2 =
    ⟨.success, .running⟩ := by decide +kernel

/-- Redis is gone when the first event is published. -/
def redisGone (d : Deployment) (a : Application) : Env Reply := fun h c =>
  match c with
  | (.preamble, .publishApplicationStatus _) => .error "Connection is closed."
  | c => allWell d a h c

theorem left_deploying : ¬ Settled (final ⟨.queued, .idle⟩ (deployApplication plain "d" (redisGone ⟨"d", "a", none, none⟩ website) []).2)
    (deployApplication plain "d" (redisGone ⟨"d", "a", none, none⟩ website) []).2 := by
  have hfinal : final ⟨.queued, .idle⟩ (deployApplication plain "d" (redisGone ⟨"d", "a", none, none⟩ website) []).2 =
      ⟨.running, .deploying⟩ := by decide
  rw [hfinal]
  exact fun h => h.2.1 rfl

end Whole

end Yeah.Deploy
