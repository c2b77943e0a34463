import Yeah.Provision.Service

namespace Yeah.Provision

namespace Host

variable (H : Host)

def Fine (c : Command) (l : List Container) : Prop := ∃ l', H.exec c l = .ok (0, l')

def after (c : Command) (l : List Container) : List Container :=
  match H.exec c l with
  | .ok (_, l') => l'
  | .error _ => l

def Up (l : List Container) : Prop := AllRun l ∧ ∀ s ∈ H.services, ∃ c ∈ l, c.service = s

end Host

/-- What is asked of the containers and the row. -/
def Meets (H : Host) (s : Service) (action : Action) (before after : List Container)
    (status : Status) : Prop :=
  match action with
  | .deploy => status = .running ∧ AllRun after ∧ (s.isStack = true → H.Up after)
  | .stop => status = .stopped ∧ ids after = ids before ∧ ∀ c ∈ after, c.state ≠ .running ∧ c.state ≠ .restarting
  | .start | .restart => status = .running ∧ ids after = ids before ∧ AllRun after

section Condition

variable (H : Host) (x : Answers) (s : Service) (action : Action) (before : List Container)

/-- What comes before the command that touches the containers goes well. -/
def Ready : Prop :=
  x.connect = none ∧
    match s.isStack, action with
    | true, .deploy =>
        x.parse = none ∧ H.Fine .mkdir before ∧ H.write "docker-compose.yml" = none ∧
          H.write ".env" = none ∧
          (∀ files, s.stackFiles = some files → H.Fine .stackDirs before ∧
            ∀ f ∈ files, H.write f.path = none ∧ (f.executable = true → H.Fine (.chmod f.path) before)) ∧
          H.write "compose.yeah.override.yml" = none ∧ H.Fine .ensureNetwork before ∧ H.Fine .pull before
    | true, _ => True
    | false, _ => H.Fine .mkdir before ∧ H.write ".env" = none

/-- That command. -/
def mainCommand : Command :=
  match s.isStack, action with
  | true, .deploy => .up
  | true, task => .lifecycle task
  | false, _ => .replace

/-- It goes well; of a stack that is deployed, docker may instead list no container but running and restarting ones. -/
def Started : Prop :=
  match s.isStack, action with
  | true, .deploy =>
      (H.Fine .up before ∨
        (∃ r, H.exec .state (H.after .up before) = .ok r) ∧ H.after .up before ≠ [] ∧
          ∀ c ∈ H.after .up before, c.state = .running ∨ c.state = .restarting) ∧ H.Fine .join (H.after .up before)
  | _, _ => H.Fine (mainCommand s action) before

def target : Status := if s.isStack = true ∧ action = .stop then .stopped else .running

open Classical in
/-- The condition: a job that gets through to its end is one of a stack, and a deployment with containers that all
run; or it is the deployment of a single container. A job that does not get there can say so, or had nothing to do. -/
def Obeys (status : Status) : Prop :=
  match x.selectService, x.selectServer with
  | some _, _ | none, .error _ => Meets H s action before before status
  | none, .ok false => x.setError = none ∨ Meets H s action before before status
  | none, .ok true =>
      let ran := Ready H x s action before ∧ Started H s action before
      if ran ∧ x.setStatus = none ∧ x.publish = none then
        if s.isStack then action = .deploy → H.Fine .up before ∨
          H.Up (H.after .up before) else action = .deploy
      else
        x.setError = none ∨
          Meets H s action before (if Ready H x s action before then H.after (mainCommand s action) before else before)
            (if ran ∧ x.setStatus = none then target s action else status)

end Condition

/-- The code ends normally in `v` if `φ`, and else throws and leaves `u`. -/
def Leads (r : Attempt World) (φ : Prop) (v u : World) : Prop :=
  r.Ends (fun w => w = v ∧ φ) (fun w => w = u ∧ ¬ φ)

section Rules

variable {H : Host} {x : Answers} {r : Attempt World} {φ ψ : Prop} {u v w u' v' : World}

open Classical in
theorem Leads.andThen {k : World → Attempt World} (hr : Leads r φ v u) (hk : φ → Leads (k v) ψ v' u') :
    Leads (r.andThen k) (φ ∧ ψ) v' (if φ then u' else u) := by
  cases r with
  | threw m w =>
      obtain ⟨rfl, hn⟩ := hr
      exact ⟨(if_neg hn).symm, fun h => hn h.1⟩
  | done w =>
      obtain ⟨rfl, hφ⟩ := hr
      refine (hk hφ).imp ?_ ?_
      · rintro w ⟨rfl, hψ⟩
        exact ⟨rfl, hφ, hψ⟩
      · rintro w ⟨rfl, hn⟩
        exact ⟨(if_pos hφ).symm, fun h => hn h.2⟩

theorem Leads.then {k : World → Attempt World} (hr : Leads r φ w w) (hk : Leads (k w) ψ v w) :
    Leads (r.andThen k) (φ ∧ ψ) v w := by
  have h := hr.andThen fun _ => hk
  rwa [ite_self] at h

theorem Leads.congr (hr : Leads r φ v u) (h : φ ↔ ψ) : Leads r ψ v u :=
  hr.imp (fun _ hw => ⟨hw.1, h.1 hw.2⟩) fun _ hw => ⟨hw.1, fun hψ => hw.2 (h.2 hψ)⟩

theorem leads_await (error : Option String) (w : World) :
    Leads (Attempt.await error id w) (error = none) w w := by
  cases error with
  | none => exact ⟨rfl, rfl⟩
  | some m => exact ⟨rfl, nofun⟩

theorem leads_run (c : Command) (w : World) :
    Leads (run H c w) (H.Fine c w.containers) { w with containers := H.after c w.containers }
      { w with containers := H.after c w.containers } := by
  unfold run Host.Fine Host.after
  cases hexec : H.exec c w.containers with
  | error m => exact ⟨rfl, nofun⟩
  | ok p =>
      obtain ⟨n, l⟩ := p
      cases n with
      | zero => exact ⟨rfl, l, rfl⟩
      | succ n =>
          refine ⟨rfl, ?_⟩
          rintro ⟨l', ⟨⟩⟩

theorem after_still {c : Command} (hc : c.still = true) (l : List Container) : H.after c l = l := by
  unfold Host.after
  split
  · next n l' h => exact H.still c l n l' hc h
  · rfl

theorem leads_still {c : Command} (hc : c.still = true) (w : World) :
    Leads (run H c w) (H.Fine c w.containers) w w := by
  have h := leads_run (H := H) c w
  rwa [after_still hc] at h

open Classical in
theorem leads_setStatus (status : Status) (w : World) :
    Leads (setStatus x status w) (x.setStatus = none ∧ x.publish = none) { w with status := status }
      (if x.setStatus = none then { w with status := status } else w) := by
  unfold setStatus
  cases hs : x.setStatus with
  | some m => exact ⟨by simp, fun h => nomatch h.1⟩
  | none => cases hp : x.publish <;> simp [Leads]

theorem leads_writeStackFiles (files : List StackFile) (w : World) :
    Leads (writeStackFiles H files w)
      (∀ f ∈ files, H.write f.path = none ∧ (f.executable = true → H.Fine (.chmod f.path) w.containers)) w w := by
  induction files with
  | nil => exact ⟨rfl, by simp⟩
  | cons f fs ih =>
      have hf : Leads (if f.executable then run H (.chmod f.path) w else .done w)
          (f.executable = true → H.Fine (.chmod f.path) w.containers) w w := by
        split
        · next he => exact (leads_still rfl w).congr (by simp [he])
        · next he => exact ⟨rfl, fun h => absurd h he⟩
      refine (((leads_await (H.write f.path) w).then hf).then ih).congr ?_
      rw [List.forall_mem_cons]

theorem rescue_iff (hr : Leads r φ v u) (hu : u.failed = false) (hv : v.failed = false) (P : World → Prop) :
    ((r.rescue fun _ => setError x).state.failed = false → P (r.rescue fun _ => setError x).state) ↔
      (φ ∧ P v ∨ ¬ φ ∧ (x.setError = none ∨ P u)) := by
  cases r with
  | done w =>
      obtain ⟨rfl, hφ⟩ := hr
      simp [hφ, hv]
  | threw m w =>
      obtain ⟨rfl, hn⟩ := hr
      unfold setError
      cases he : x.setError with
      | some m => simp [hn, hu]
      | none => cases hp : x.publishError <;> simp [hn]

end Rules

section Bodies

variable {H : Host} {x : Answers} {s : Service} {action : Action} {w : World}

theorem leads_startStack (w : World) :
    Leads (startStack H w)
      (H.Fine .up w.containers ∨
        (∃ r, H.exec .state (H.after .up w.containers) = .ok r) ∧ H.after .up w.containers ≠ [] ∧
          ∀ c ∈ H.after .up w.containers, c.state = .running ∨ c.state = .restarting)
      { w with containers := H.after .up w.containers } { w with containers := H.after .up w.containers } := by
  have hup := leads_run (H := H) .up w
  unfold startStack
  cases hr : run H .up w with
  | done v =>
      rw [hr] at hup
      exact ⟨hup.1, Or.inl hup.2⟩
  | threw m v =>
      rw [hr] at hup
      obtain ⟨rfl, hn⟩ := hup
      rw [Attempt.threw_rescue]
      dsimp only
      cases he : H.exec .state (H.after .up w.containers) with
      | error m => exact ⟨rfl, fun h => h.elim hn fun ⟨⟨r, hr⟩, _⟩ => nomatch hr⟩
      | ok p =>
          dsimp only
          split
          · next hall =>
              obtain ⟨hne, hstates⟩ := (everyContainerUp_listing _).1 hall
              exact ⟨rfl, Or.inr ⟨⟨p, rfl⟩, hne, hstates⟩⟩
          · next hall =>
              exact ⟨rfl, fun h => h.elim hn fun h => hall ((everyContainerUp_listing _).2 h.2)⟩

/-- The world when the command has run, and when its status is written. -/
def World.ran (H : Host) (s : Service) (action : Action) (w : World) : World :=
  { w with containers := H.after (mainCommand s action) w.containers }

def World.ended (H : Host) (s : Service) (action : Action) (w : World) : World :=
  { w.ran H s action with status := target s action }

open Classical in
noncomputable def World.left (H : Host) (x : Answers) (s : Service) (action : Action) (w : World) : World :=
  if Started H s action w.containers then if x.setStatus = none then w.ended H s action else w.ran H s action
  else w.ran H s action

theorem leads_main {k : World → Attempt World} (hk : Leads (k w) (Started H s action w.containers)
    (w.ran H s action) (w.ran H s action)) :
    Leads ((k w).andThen (setStatus x (target s action))) (Started H s action w.containers ∧ x.setStatus = none ∧ x.publish = none)
      (w.ended H s action) (w.left H x s action) :=
  hk.andThen fun _ => leads_setStatus _ _

open Classical in
/-- What the `try` of the job comes to. -/
def Body (H : Host) (x : Answers) (s : Service) (action : Action) (w : World) (r : Attempt World) : Prop :=
  Leads r (Ready H x s action w.containers ∧ Started H s action w.containers ∧ x.setStatus = none ∧ x.publish = none)
    (w.ended H s action) (if Ready H x s action w.containers then w.left H x s action else w)

theorem andThen_assoc {σ : Type} (r : Attempt σ) (k l : σ → Attempt σ) :
    (r.andThen k).andThen l = r.andThen fun s => (k s).andThen l := by
  cases r <;> rfl

theorem body_of {r : Attempt World} {k : World → Attempt World}
    (hr : Leads r (Ready H x s action w.containers) w w)
    (hk : Leads (k w) (Started H s action w.containers) (w.ran H s action) (w.ran H s action)) :
    Body H x s action w (r.andThen fun w => (k w).andThen (setStatus x (target s action))) :=
  hr.andThen fun _ => leads_main hk

theorem body_container (hs : s.isStack = false) (w : World) :
    Body H x s action w ((Attempt.await x.connect id w).andThen fun w =>
      (run H .mkdir w).andThen fun w =>
        (writeFile H ".env" w).andThen fun w => (run H .replace w).andThen (setStatus x .running)) := by
  have ht : target s action = .running := if_neg fun h => Bool.noConfusion (hs.symm.trans h.1)
  have hmain : Leads (run H .replace w) (Started H s action w.containers) (w.ran H s action) (w.ran H s action) := by
    unfold Started World.ran mainCommand
    rw [hs]
    exact leads_run .replace w
  have hready : Leads ((Attempt.await x.connect id w).andThen fun w => (run H .mkdir w).andThen (writeFile H ".env"))
      (Ready H x s action w.containers) w w := by
    unfold Ready
    rw [hs]
    exact (leads_await x.connect w).then ((leads_still rfl w).then (leads_await _ w))
  have h := body_of hready hmain
  rw [ht] at h
  simpa only [andThen_assoc] using h

theorem body_lifecycle (hs : s.isStack = true) {action : Action} (ha : action ≠ .deploy) (w : World) :
    Body H x s action w ((Attempt.await x.connect id w).andThen fun w =>
      (run H (.lifecycle action) w).andThen (setStatus x (target s action))) := by
  have hmain : Leads (run H (.lifecycle action) w) (Started H s action w.containers) (w.ran H s action) (w.ran H s action) := by
    unfold Started World.ran mainCommand
    cases action with
    | deploy => exact absurd rfl ha
    | start | stop | restart =>
        rw [hs]
        exact leads_run _ w
  refine body_of ?_ hmain
  unfold Ready
  cases action with
  | deploy => exact absurd rfl ha
  | start | stop | restart =>
      rw [hs]
      exact (leads_await x.connect w).congr (and_iff_left trivial).symm

theorem body_deployStack (hs : s.isStack = true) (w : World) :
    Body H x s .deploy w ((Attempt.await x.connect id w).andThen (deployStack H x s)) := by
  have ht : target s .deploy = .running := if_neg fun h => nomatch h.2
  have hmain : Leads ((startStack H w).andThen (run H .join)) (Started H s .deploy w.containers)
      (w.ran H s .deploy) (w.ran H s .deploy) := by
    unfold Started World.ran mainCommand
    rw [hs]
    have h := (leads_startStack (H := H) w).andThen fun _ => leads_still (H := H) (c := .join) rfl _
    rwa [ite_self] at h
  have hfiles : Leads (writeFiles H s w)
      (∀ files, s.stackFiles = some files → H.Fine .stackDirs w.containers ∧
        ∀ f ∈ files, H.write f.path = none ∧ (f.executable = true → H.Fine (.chmod f.path) w.containers)) w w := by
    unfold writeFiles
    cases s.stackFiles with
    | none => exact ⟨rfl, nofun⟩
    | some files =>
        refine ((leads_still rfl w).then (leads_writeStackFiles files w)).congr ⟨?_, fun h => h files rfl⟩
        rintro h _ ⟨⟩
        exact h
  have hready : Leads ((Attempt.await x.connect id w).andThen fun w =>
      (Attempt.await x.parse id w).andThen fun w =>
        (run H .mkdir w).andThen fun w =>
          (writeFile H "docker-compose.yml" w).andThen fun w =>
            (writeFile H ".env" w).andThen fun w =>
              (writeFiles H s w).andThen fun w =>
                (writeFile H "compose.yeah.override.yml" w).andThen fun w =>
                  (run H .ensureNetwork w).andThen (run H .pull))
      (Ready H x s .deploy w.containers) w w := by
    unfold Ready
    rw [hs]
    exact (leads_await _ w).then ((leads_await _ w).then ((leads_still rfl w).then ((leads_await _ w).then ((leads_await _ w).then
      (hfiles.then ((leads_await _ w).then ((leads_still rfl w).then (leads_still rfl w))))))))
  have h := body_of hready (k := fun w => (startStack H w).andThen (run H .join)) hmain
  rw [ht] at h
  unfold deployStack
  simpa only [andThen_assoc] using h

end Bodies

section Meets

variable {H : Host} {x : Answers} {s : Service} {action : Action} {l : List Container}

theorem after_eq {c : Command} {n : Nat} {l' : List Container} (h : H.exec c l = .ok (n, l')) :
    H.after c l = l' := by
  unfold Host.after
  rw [h]

/-- A single container that was made anew. -/
theorem meets_replaced (hs : s.isStack = false) (h : H.Fine .replace l) :
    Meets H s action l (H.after .replace l) .running ↔ action = .deploy := by
  obtain ⟨l', hexec⟩ := h
  obtain ⟨hrun, hids⟩ := H.replace l l' hexec
  rw [after_eq hexec]
  cases action with
  | deploy => exact iff_of_true ⟨rfl, hrun, fun h => Bool.noConfusion (hs.symm.trans h)⟩ rfl
  | stop => exact iff_of_false (fun h => nomatch h.1) nofun
  | start | restart => exact iff_of_false (fun h => hids h.2.1) nofun

theorem meets_up (hs : s.isStack = true) :
    Meets H s .deploy l (H.after .up l) .running ↔ H.Fine .up l ∨ H.Up (H.after .up l) := by
  constructor
  · exact fun h => Or.inr (h.2.2 hs)
  · rintro (⟨l', hexec⟩ | h)
    · obtain ⟨hrun, hall⟩ := H.up l l' hexec
      rw [after_eq hexec]
      exact ⟨rfl, hrun, fun _ => ⟨hrun, hall⟩⟩
    · exact ⟨rfl, h.1, fun _ => h⟩

theorem meets_started (h : Started H s action l) :
    Meets H s action l (H.after (mainCommand s action) l) (target s action) ↔
      if s.isStack then action = .deploy → H.Fine .up l ∨ H.Up (H.after .up l) else action = .deploy := by
  unfold Started mainCommand at h
  unfold mainCommand target
  cases hs : s.isStack with
  | false =>
      rw [hs] at h
      exact meets_replaced hs h
  | true =>
      rw [hs] at h
      cases action with
      | deploy => exact (meets_up hs).trans (imp_iff_right rfl).symm
      | start =>
          obtain ⟨l', hexec⟩ := h
          rw [after_eq hexec]
          exact iff_of_true ⟨rfl, H.start l l' hexec⟩ nofun
      | stop =>
          obtain ⟨l', hexec⟩ := h
          rw [after_eq hexec]
          exact iff_of_true ⟨rfl, H.stop l l' hexec⟩ nofun
      | restart =>
          obtain ⟨l', hexec⟩ := h
          rw [after_eq hexec]
          exact iff_of_true ⟨rfl, H.restart l l' hexec⟩ nofun

end Meets

section Job

variable {H : Host} {x : Answers} {s : Service} {action : Action} {l : List Container} {status : Status}

theorem Body.obeys_iff {r : Attempt World} (h : Body H x s action ⟨l, status, false⟩ r)
    (hselect : x.selectService = none)
    (hserver : x.selectServer = .ok true) :
    let w := (r.rescue fun _ => setError x).state
    (w.failed = false → Meets H s action l w.containers w.status) ↔ Obeys H x s action l status := by
  classical
  have hleft : (if Ready H x s action l then World.left H x s action ⟨l, status, false⟩ else ⟨l, status, false⟩) =
      ⟨if Ready H x s action l then H.after (mainCommand s action) l else l,
        if (Ready H x s action l ∧ Started H s action l) ∧ x.setStatus = none then target s action else status, false⟩ := by
    unfold World.left
    by_cases hr : Ready H x s action l
    · by_cases hst : Started H s action l
      · by_cases hset : x.setStatus = none
        · simp [hr, hst, hset, World.ended, World.ran]
        · simp [hr, hst, hset, World.ran]
      · simp [hr, hst, World.ran]
    · simp [hr]
  unfold Body at h
  dsimp only at h
  rw [hleft, ← and_assoc] at h
  refine (rescue_iff h rfl rfl fun w => Meets H s action l w.containers w.status).trans ?_
  unfold Obeys
  rw [hselect, hserver]
  dsimp only
  by_cases hran : (Ready H x s action l ∧ Started H s action l) ∧ x.setStatus = none ∧ x.publish = none
  · rw [if_pos hran, and_iff_right hran, or_iff_left fun hn => hn.1 hran]
    exact meets_started hran.1.2
  · rw [if_neg hran, and_iff_right hran, or_iff_right fun hp => hran hp.1]

end Job

def setState (state : ContainerState) (l : List Container) : List Container :=
  l.map fun c => { c with state := state }

theorem ids_setState (state : ContainerState) (l : List Container) : ids (setState state l) = ids l := by
  unfold ids setState
  rw [List.map_map]
  rfl

theorem mem_setState {state : ContainerState} {l : List Container} :
    ∀ c ∈ setState state l, c.state = state := by
  intro c hc
  obtain ⟨d, -, rfl⟩ := List.mem_map.1 hc
  rfl

theorem allRun_setState {l : List Container} (hl : l ≠ []) : AllRun (setState .running l) :=
  ⟨fun h => hl (List.map_eq_nil_iff.1 h), mem_setState⟩

def smooth : Host where
  exec c l :=
    match c with
    | .lifecycle .stop => .ok (0, setState .exited l)
    | .lifecycle _ => .ok (if l = [] then 1 else 0, setState .running l)
    | .replace => .ok (0, [⟨(ids l).headD "" ++ "+", "yeah-svc-a", "", .running, by simp [Text.isSpace]⟩])
    | .up => .ok (0, [⟨"1", "yeah-svc-a-web-1", "web", .running, by simp [Text.isSpace]⟩])
    | _ => .ok (0, l)
  write _ := none
  services := ["web"]
  still c l n l' hc h := by
    cases c <;> simp_all [Command.still]
  start l l' h := by
    simp only [Except.ok.injEq, Prod.mk.injEq, ite_eq_right_iff, Nat.one_ne_zero, imp_false] at h
    obtain ⟨hl, rfl⟩ := h
    exact ⟨ids_setState _ l, allRun_setState hl⟩
  restart l l' h := by
    simp only [Except.ok.injEq, Prod.mk.injEq, ite_eq_right_iff, Nat.one_ne_zero, imp_false] at h
    obtain ⟨hl, rfl⟩ := h
    exact ⟨ids_setState _ l, allRun_setState hl⟩
  stop l l' h := by
    cases h
    refine ⟨ids_setState _ l, fun c hc => ?_⟩
    rw [mem_setState c hc]
    exact ⟨nofun, nofun⟩
  replace l l' h := by
    cases h
    refine ⟨by simp [AllRun], fun he => ?_⟩
    cases l with
    | nil => cases he
    | cons c cs =>
        have hid : c.id ++ "+" = c.id := (List.cons.inj he).1
        have hlen := congrArg String.length hid
        simp at hlen
  up l l' h := by
    cases h
    simp [AllRun]

def noErrors : Answers := ⟨none, .ok true, none, none, none, none, none, none⟩

end Yeah.Provision
