import Yeah.Guard.Policy

namespace Yeah.Guard.Shed

open Runs

/-- The table and the id of a resource. -/
abbrev Key := Kind × String

inductive RowStatus
  | idle
  /-- `deploying` of an application, `provisioning` of a service -/
  | busy
  | running
  | stopped
  | error
  deriving DecidableEq

/-- The row of an application or a service; `several` for a compose application or a stack, which
run several containers. -/
structure Resource where
  kind : Kind
  id : String
  name : String
  priority : Priority
  several : Bool
  shedByGuard : Bool
  status : RowStatus
  deriving DecidableEq

/-- A container with the memory that `docker stats` shows. -/
structure Container where
  name : String
  memUsedBytes : Option ℚ

def asStatus : RowStatus → Status
  | .running => .running
  | .stopped => .stopped
  | _ => .other

inductive Task
  | start
  | stop
  | restart
  | deploy
  deriving DecidableEq

namespace Resource

variable (r : Resource)

def key : Key := (r.kind, r.id)

def containerName : String :=
  match r.kind with
  | .application => s!"yeah-app-{r.id}"
  | .service => s!"yeah-svc-{r.id}"

/-- Of two containers with one name the map keeps the later. -/
def container (running : List Container) : Option Container :=
  if r.several then none else running.reverse.find? fun c => c.name = r.containerName

def candidate (running : List Container) : Candidate where
  kind := r.kind
  id := r.id
  name := r.name
  priority := r.priority
  memBytes := (r.container running).bind (·.memUsedBytes)
  shedByGuard := r.shedByGuard
  status :=
    if asStatus r.status = .running ∧ r.several = false ∧
      (r.container running).isNone then .other else asStatus r.status

/-- What the worker does on a job: a service of one container is run anew whatever was asked. -/
def does (task : Task) : Task := if r.kind = .service ∧ r.several = false then .deploy else task

/-- Whether the route refuses the request. -/
def refuses (task : Task) : Bool :=
  task ≠ .deploy ∧ (r.status = .busy ∨ (r.kind = .service ∧ r.several = false))

end Resource

def keyOf (c : Candidate) : Key := (c.kind, c.id)

/-- The rows of the applications come first. -/
def buildGuardCandidates (rows : List Resource) (running : List Container) : List Candidate :=
  (rows.filter (fun r => r.kind = .application) ++ rows.filter fun r => r.kind = .service).map fun r => r.candidate running

def isStale (c : Candidate) : Bool := c.shedByGuard = true ∧ c.status ≠ .stopped

def staleShedFlags (candidates : List Candidate) : List Candidate := candidates.filter isStale

def cleared (candidates : List Candidate) : List Candidate :=
  candidates.map fun c => if isStale c then { c with shedByGuard := false } else c

inductive Owner
  | guard
  | user
  deriving DecidableEq

/-- A job waits, or has run its command, with what it did and whether that went well. -/
inductive Phase
  | queued
  | ran (task : Task) (ok : Bool)
  deriving DecidableEq

structure Job where
  key : Key
  task : Task
  owner : Owner
  phase : Phase
  deriving DecidableEq

/-- Where `runMemoryGuard` is. -/
inductive Sampler
  | idle
  | clearing (stale : List Key) (candidates : List Candidate) (memPercent : ℚ) (settings : Settings)
  | marking (target : Candidate) (stopping : Bool)
  | queueing (target : Candidate) (stopping : Bool)

structure State where
  rows : List Resource
  jobs : List Job
  sampler : Sampler
  counts : GuardState
  /-- Stopped by a stop job of the guard, with nothing done to it since. -/
  held : Key → Bool
  /-- Whose stop job stopped the resource last. -/
  lastStop : Key → Option Owner
  /-- For every start that the guard queued, whose the last stop was. -/
  restarts : List (Option Owner)

inductive Event
  | sample (memPercent : ℚ) (settings : Settings) (running : List Container)
  | proceed
  | abort
  | request (k : Key) (task : Task)
  | run (i : Nat) (ok : Bool)
  | finish (i : Nat) (published : Bool)

def mark (k : Key) (b : Bool) (rows : List Resource) : List Resource :=
  rows.map fun r => if r.key = k then { r with shedByGuard := b } else r

def setStatus (k : Key) (status : RowStatus) (rows : List Resource) : List Resource :=
  rows.map fun r => if r.key = k then { r with status := status } else r

def find (rows : List Resource) (k : Key) : Option Resource := rows.find? fun r => r.key = k

def resultStatus (task : Task) : RowStatus := if task = .stop then .stopped else .running

-- `localeCompare` of two names.
variable (collate : String → String → Ordering)

/-- A sample reads the rows. -/
def sample (s : State) (memPercent : ℚ) (settings : Settings) (running : List Container) : State :=
  match s.sampler with
  | .idle =>
      if settings.enabled = false then { s with counts := .initial }
      else
        let candidates := buildGuardCandidates s.rows running
        { s with sampler := .clearing ((staleShedFlags candidates).map keyOf) (cleared candidates) memPercent settings }
  | _ => s

/-- The next write of the sample that is in progress. -/
def proceed (s : State) : State :=
  match s.sampler with
  | .idle => s
  | .clearing (k :: stale) candidates memPercent settings =>
      { s with rows := mark k false s.rows, sampler := .clearing stale candidates memPercent settings }
  | .clearing [] candidates memPercent settings =>
      let r := guardStep collate s.counts memPercent settings candidates
      { s with
        counts := r.1
        sampler := match r.2 with
          | .none => .idle
          | .stop target => .marking target true
          | .start target => .marking target false }
  | .marking target stopping => { s with rows := mark (keyOf target) stopping s.rows, sampler := .queueing target stopping }
  | .queueing target true =>
      { s with jobs := s.jobs ++ [⟨keyOf target, .stop, .guard, .queued⟩], sampler := .idle }
  | .queueing target false =>
      { s with
        jobs := s.jobs ++ [⟨keyOf target, .start, .guard, .queued⟩]
        sampler := .idle
        held := Function.update s.held (keyOf target) false
        restarts := s.restarts ++ [s.lastStop (keyOf target)] }

/-- A user asks for a start, a stop, a restart or a deployment. -/
def request (s : State) (k : Key) (task : Task) : State :=
  match find s.rows k with
  | none => s
  | some r =>
      if r.refuses task then s
      else
        match r.kind with
        | .application => { s with jobs := s.jobs ++ [⟨k, task, .user, .queued⟩] }
        | .service =>
            { s with
              rows := setStatus k .busy s.rows
              jobs := s.jobs ++ [⟨k, task, .user, .queued⟩]
              held := Function.update s.held k false }

/-- The command of a job runs on the server. -/
def runJob (s : State) (i : Nat) (ok : Bool) : State :=
  match s.jobs[i]? with
  | some ⟨k, task, owner, .queued⟩ =>
      match find s.rows k with
      | none => { s with jobs := s.jobs.eraseIdx i }
      | some r =>
          { s with
            rows :=
              if r.does task = .deploy ∧ r.kind = .application then setStatus k .busy s.rows else s.rows
            jobs := s.jobs.set i ⟨k, task, owner, .ran (r.does task) ok⟩
            held := Function.update s.held k false
            lastStop := if r.does task = .stop ∧ ok = true then Function.update s.lastStop k (some owner) else s.lastStop }
  | _ => s

/-- A job writes the status; where publishing it throws, the status is `error`. -/
def finish (s : State) (i : Nat) (published : Bool) : State :=
  match s.jobs[i]? with
  | some ⟨k, _, owner, .ran task ok⟩ =>
      { s with
        rows := setStatus k (if ok && published then resultStatus task else .error) s.rows
        jobs := s.jobs.eraseIdx i
        held := Function.update s.held k (ok && published && task = .stop && owner = .guard) }
  | _ => s

def step (s : State) : Event → State
  | .sample memPercent settings running => sample s memPercent settings running
  | .proceed => proceed collate s
  | .abort => { s with sampler := .idle }
  | .request k task => request s k task
  | .run i ok => runJob s i ok
  | .finish i published => finish s i published

/-- What the guard has shed can be restored, and it restores nothing that a user has stopped. -/
structure Good (s : State) : Prop where
  restorable : ∀ running, ∀ c ∈ buildGuardCandidates s.rows running, s.held (keyOf c) = true →
    c.restorable = true ∨ ∃ target, s.sampler = .queueing target false ∧ keyOf target = keyOf c
  restarts : ∀ o ∈ s.restarts, o ≠ some .user

/-- The condition on a step: no sample reads the rows while a stop job of the guard has not ended, or one
of a user has stopped its resource and not written so; none is cut off between its mark and its job; and a
user's job stops a resource only while that is not marked and no sample is in progress. -/
def Calm (s : State) : Event → Prop
  | .sample .. => ∀ j ∈ s.jobs, (j.owner = .guard → j.task ≠ .stop) ∧ (j.owner = .user → j.phase ≠ .ran .stop true)
  | .abort => ∀ target stopping, s.sampler ≠ .queueing target stopping
  | .run i ok => ∀ k, s.jobs[i]? = some ⟨k, .stop, .user, .queued⟩ → ok = true →
      s.sampler = .idle ∧ ∀ r ∈ s.rows, r.key = k → r.shedByGuard = false
  | _ => True

section Rows

variable {k : Key} {b : Bool} {status : RowStatus} {rows : List Resource} {r' : Resource}

theorem mem_mark (h : r' ∈ mark k b rows) :
    ∃ r ∈ rows, r'.key = r.key ∧ r'.status = r.status ∧
      r'.shedByGuard = if r.key = k then b else r.shedByGuard := by
  obtain ⟨r, hr, rfl⟩ := List.mem_map.1 h
  refine ⟨r, hr, ?_⟩
  split
  · exact ⟨rfl, rfl, rfl⟩
  · exact ⟨rfl, rfl, rfl⟩

theorem mem_setStatus (h : r' ∈ setStatus k status rows) :
    ∃ r ∈ rows, r'.key = r.key ∧ r'.shedByGuard = r.shedByGuard ∧
      r'.status = if r.key = k then status else r.status := by
  obtain ⟨r, hr, rfl⟩ := List.mem_map.1 h
  refine ⟨r, hr, ?_⟩
  split
  · exact ⟨rfl, rfl, rfl⟩
  · exact ⟨rfl, rfl, rfl⟩

theorem find_some {r : Resource} (h : find rows k = some r) : r ∈ rows ∧ r.key = k :=
  ⟨List.mem_of_find?_eq_some h, by simpa using List.find?_some h⟩

theorem mem_buildGuardCandidates {running : List Container} {c : Candidate}
    (h : c ∈ buildGuardCandidates rows running) :
    ∃ r ∈ rows, c = r.candidate running := by
  obtain ⟨r, hr, rfl⟩ := List.mem_map.1 h
  refine ⟨r, ?_, rfl⟩
  rcases List.mem_append.1 hr with hr | hr
  · exact (List.mem_filter.1 hr).1
  · exact (List.mem_filter.1 hr).1

theorem candidate_stopped {r : Resource} {running : List Container} :
    (r.candidate running).status = .stopped ↔ r.status = .stopped := by
  unfold Resource.candidate
  cases hs : r.status <;> simp [asStatus]
  split <;> simp

theorem candidate_restorable {r : Resource} {running : List Container} :
    (r.candidate running).restorable = true ↔ r.shedByGuard = true ∧ r.status = .stopped := by
  have hshed : (r.candidate running).shedByGuard = r.shedByGuard := rfl
  simp only [Candidate.restorable, decide_eq_true_eq, hshed, candidate_stopped]

theorem mem_cleared {candidates : List Candidate} {c : Candidate} (h : c ∈ cleared candidates)
    (hc : c.restorable = true) :
    c ∈ candidates := by
  obtain ⟨d, hd, rfl⟩ := List.mem_map.1 h
  split at hc
  · simp [Candidate.restorable] at hc
  · next hn =>
      rw [if_neg hn]
      exact hd

end Rows

theorem does_stop {r : Resource} {task : Task} (h : r.does task = .stop) : task = .stop := by
  unfold Resource.does at h
  split at h
  · cases h
  · exact h

/-- A stop of the guard for the resource has not ended. -/
def Pending (s : State) (k : Key) : Prop := ∃ j ∈ s.jobs, j.owner = .guard ∧ j.task = .stop ∧ j.key = k

/-- The invariant of the sample that is in progress. -/
def Sampling (s : State) : Sampler → Prop
  | .idle => True
  | .clearing stale candidates _ _ =>
      (∀ k ∈ stale, s.held k = false) ∧
          ∀ c ∈ candidates, c.restorable = true → s.lastStop (keyOf c) ≠ some .user
  | .marking target stopping => stopping = false → s.lastStop (keyOf target) ≠ some .user
  | .queueing target stopping =>
      (stopping = false → s.lastStop (keyOf target) ≠ some .user) ∧
        (stopping = true → ∀ r ∈ s.rows, r.key = keyOf target → r.shedByGuard = true)

structure Inv (s : State) : Prop where
  held : ∀ r ∈ s.rows, s.held r.key = true → r.status = .stopped ∧
    (r.shedByGuard = true ∨ ∃ target, s.sampler = .queueing target false ∧ keyOf target = r.key)
  /-- While a stop of the guard waits, its resource is marked. -/
  pending : ∀ j ∈ s.jobs, j.owner = .guard → j.task = .stop → s.sampler = .idle ∧
    ∀ r ∈ s.rows, r.key = j.key → r.shedByGuard = true
  guardStop : ∀ j ∈ s.jobs, ∀ ok, j.owner = .guard → j.phase = .ran .stop ok → j.task = .stop
  guardStopped : ∀ j ∈ s.jobs, j.owner = .guard → j.phase = .ran .stop true →
    s.lastStop j.key ≠ some .user
  /-- Between the command of a user's stop and its status, the resource is not marked. -/
  userStopped : ∀ j ∈ s.jobs, j.owner = .user → j.phase = .ran .stop true →
    s.sampler = .idle ∧ ∀ r ∈ s.rows, r.key = j.key → r.shedByGuard = false
  sampling : Sampling s s.sampler
  /-- A marked resource that is stopped was stopped by the guard, or will be. -/
  marked : ∀ r ∈ s.rows, r.shedByGuard = true → r.status = .stopped →
    s.lastStop r.key ≠ some .user ∨ Pending s r.key ∨ ∃ target, s.sampler = .queueing target true ∧
      keyOf target = r.key
  restarts : ∀ o ∈ s.restarts, o ≠ some .user

theorem Inv.good {s : State} (h : Inv s) : Good s := by
  refine ⟨fun running c hc hheld => ?_, h.restarts⟩
  obtain ⟨r, hr, rfl⟩ := mem_buildGuardCandidates hc
  obtain ⟨hstopped, hshed | htarget⟩ := h.held r hr hheld
  · exact Or.inl (candidate_restorable.2 ⟨hshed, hstopped⟩)
  · exact Or.inr htarget

section Steps

variable {s : State}

theorem sampling_read (h : Inv s) (hidle : s.sampler = .idle) (hpending : ∀ k, ¬ Pending s k)
    (running : List Container)
    (memPercent : ℚ) (settings : Settings) :
    Sampling s (.clearing ((staleShedFlags (buildGuardCandidates s.rows running)).map keyOf)
      (cleared (buildGuardCandidates s.rows running)) memPercent settings) := by
  refine ⟨fun k hk => ?_, fun c hc hrestorable => ?_⟩
  · obtain ⟨c, hc, rfl⟩ := List.mem_map.1 hk
    obtain ⟨hmem, hstale⟩ := List.mem_filter.1 hc
    obtain ⟨r, hr, rfl⟩ := mem_buildGuardCandidates hmem
    simp only [isStale, decide_eq_true_eq] at hstale
    by_contra hheld
    rw [Bool.not_eq_false] at hheld
    exact hstale.2 (candidate_stopped.2 (h.held r hr hheld).1)
  · obtain ⟨r, hr, rfl⟩ := mem_buildGuardCandidates (mem_cleared hc hrestorable)
    obtain ⟨hshed, hstopped⟩ := candidate_restorable.1 hrestorable
    rcases h.marked r hr hshed hstopped with hlast | hp | ⟨target, ht, -⟩
    · exact hlast
    · exact absurd hp (hpending _)
    · exact nomatch hidle.symm.trans ht

/-- A sample that ends, or is cut off, before its mark. -/
theorem Inv.rest (h : Inv s) (hs : ∀ target stopping, s.sampler ≠ .queueing target stopping)
    (counts : GuardState) :
    Inv { s with counts := counts, sampler := .idle } := by
  refine ⟨fun r hr hheld => ?_, fun j hj hguard hstop => ?_, h.guardStop, h.guardStopped, fun j hj huser hran => ?_, trivial,
    fun r hr hshed hstopped => ?_, h.restarts⟩
  · obtain ⟨hstopped, hshed | ⟨target, ht, -⟩⟩ := h.held r hr hheld
    · exact ⟨hstopped, Or.inl hshed⟩
    · exact absurd ht (hs _ _)
  · exact ⟨rfl, (h.pending j hj hguard hstop).2⟩
  · exact ⟨rfl, (h.userStopped j hj huser hran).2⟩
  · rcases h.marked r hr hshed hstopped with hlast | hp | ⟨target, ht, -⟩
    · exact Or.inl hlast
    · exact Or.inr (Or.inl hp)
    · exact absurd ht (hs _ _)

theorem inv_sample (h : Inv s) {memPercent : ℚ} {settings : Settings} {running : List Container}
    (hc : ∀ j ∈ s.jobs, (j.owner = .guard → j.task ≠ .stop) ∧ (j.owner = .user → j.phase ≠ .ran .stop true)) :
    Inv (sample s memPercent settings running) := by
  have hpending : ∀ k, ¬ Pending s k := fun k ⟨j, hj, hguard, hstop, _⟩ => (hc j hj).1 hguard hstop
  unfold sample
  cases hs : s.sampler with
  | idle =>
      dsimp only
      split
      · exact h.rest (fun target stopping ht => nomatch hs.symm.trans ht) .initial
      · refine ⟨fun r hr hheld => ?_, ?_, h.guardStop, h.guardStopped, ?_, ?_,
          fun r hr hshed hstopped => ?_, h.restarts⟩
        · obtain ⟨hstopped, hshed | ⟨target, ht, -⟩⟩ := h.held r hr hheld
          · exact ⟨hstopped, Or.inl hshed⟩
          · exact nomatch hs.symm.trans ht
        · exact fun j hj hguard hstop => absurd hstop ((hc j hj).1 hguard)
        · exact fun j hj huser hran => absurd hran ((hc j hj).2 huser)
        · exact sampling_read h hs hpending running memPercent settings
        · rcases h.marked r hr hshed hstopped with hlast | hp | ⟨target, ht, -⟩
          · exact Or.inl hlast
          · exact absurd hp (hpending _)
          · exact nomatch hs.symm.trans ht
  | clearing | marking | queueing => exact h

/-- While a sample is in progress the guard waits for no stop, and no user's stop is half done. -/
theorem Inv.busy (h : Inv s) (hs : s.sampler ≠ .idle) :
    ∀ j ∈ s.jobs, (j.owner = .guard → j.task ≠ .stop) ∧ (j.owner = .user → j.phase ≠ .ran .stop true) :=
  fun j hj => ⟨fun hguard hstop => hs (h.pending j hj hguard hstop).1, fun huser hran => hs (h.userStopped j hj huser hran).1⟩

theorem Inv.not_pending (h : Inv s) (hs : s.sampler ≠ .idle) (k : Key) : ¬ Pending s k :=
  fun ⟨j, hj, hguard, hstop, _⟩ => (h.busy hs j hj).1 hguard hstop

theorem inv_clear (h : Inv s) {k : Key} {stale : List Key} {candidates : List Candidate} {memPercent : ℚ}
    {settings : Settings}
    (hs : s.sampler = .clearing (k :: stale) candidates memPercent settings) :
    Inv { s with rows := mark k false s.rows, sampler := .clearing stale candidates memPercent settings } := by
  have hbusy := h.busy (by rw [hs]; nofun)
  obtain ⟨hstale, hcandidates⟩ : Sampling s (.clearing (k :: stale) candidates memPercent settings) :=
    hs ▸ h.sampling
  refine ⟨fun r hr hheld => ?_, fun j hj hguard hstop => absurd hstop ((hbusy j hj).1 hguard), h.guardStop, h.guardStopped,
    fun j hj huser hran => absurd hran ((hbusy j hj).2 huser), ⟨?_, hcandidates⟩, fun r hr hshed hstopped => ?_, h.restarts⟩
  · obtain ⟨r, hr, hkey, hstatus, hmark⟩ := mem_mark hr
    rw [hkey] at hheld
    obtain ⟨hstopped, hshed | ⟨target, ht, -⟩⟩ := h.held r hr hheld
    · refine ⟨hstatus.trans hstopped, Or.inl ?_⟩
      rw [hmark, if_neg]
      · exact hshed
      · rintro rfl
        exact Bool.noConfusion ((hstale _ List.mem_cons_self).symm.trans hheld)
    · exact nomatch hs.symm.trans ht
  · exact fun k' hk' => hstale k' (List.mem_cons_of_mem _ hk')
  · obtain ⟨r, hr, hkey, hstatus, hmark⟩ := mem_mark hr
    rw [hkey]
    rw [hstatus] at hstopped
    rw [hmark] at hshed
    split at hshed
    · cases hshed
    · rcases h.marked r hr hshed hstopped with hlast | hp | ⟨target, ht, -⟩
      · exact Or.inl hlast
      · exact absurd hp (h.not_pending (by rw [hs]; nofun) _)
      · exact nomatch hs.symm.trans ht

/-- The decision on the sample. -/
theorem inv_decide (h : Inv s) {candidates : List Candidate} {memPercent : ℚ} {settings : Settings}
    (hs : s.sampler = .clearing [] candidates memPercent settings) {counts : GuardState} {sampler : Sampler}
    (hsampler : sampler = .idle ∨ ∃ target stopping, sampler = .marking target stopping ∧
      (stopping = false → target ∈ candidates ∧ target.restorable = true)) :
    Inv { s with counts := counts, sampler := sampler } := by
  obtain ⟨-, hcandidates⟩ : Sampling s (.clearing [] candidates memPercent settings) := hs ▸ h.sampling
  rcases hsampler with rfl | ⟨target, stopping, rfl, htarget⟩
  · exact h.rest (fun target stopping ht => nomatch hs.symm.trans ht) counts
  · have hbusy := h.busy (by rw [hs]; nofun)
    refine ⟨fun r hr hheld => ?_, fun j hj hguard hstop => absurd hstop ((hbusy j hj).1 hguard), h.guardStop, h.guardStopped,
      fun j hj huser hran => absurd hran ((hbusy j hj).2 huser), fun hstart => ?_, fun r hr hshed hstopped => ?_, h.restarts⟩
    · obtain ⟨hstopped, hshed | ⟨target, ht, -⟩⟩ := h.held r hr hheld
      · exact ⟨hstopped, Or.inl hshed⟩
      · exact nomatch hs.symm.trans ht
    · exact hcandidates target (htarget hstart).1 (htarget hstart).2
    · rcases h.marked r hr hshed hstopped with hlast | hp | ⟨target, ht, -⟩
      · exact Or.inl hlast
      · exact absurd hp (h.not_pending (by rw [hs]; nofun) _)
      · exact nomatch hs.symm.trans ht

theorem inv_mark (h : Inv s) {target : Candidate} {stopping : Bool}
    (hs : s.sampler = .marking target stopping) :
    Inv { s with rows := mark (keyOf target) stopping s.rows, sampler := .queueing target stopping } := by
  have hbusy := h.busy (by rw [hs]; nofun)
  have hlast : stopping = false → s.lastStop (keyOf target) ≠ some .user := by
    have hsampling : Sampling s (.marking target stopping) := hs ▸ h.sampling
    exact hsampling
  refine ⟨fun r hr hheld => ?_, fun j hj hguard hstop => absurd hstop ((hbusy j hj).1 hguard), h.guardStop, h.guardStopped,
    fun j hj huser hran => absurd hran ((hbusy j hj).2 huser), ⟨hlast, fun hstop r hr hkey => ?_⟩, fun r hr hshed hstopped => ?_,
    h.restarts⟩
  · obtain ⟨r, hr, hkey, hstatus, hmark⟩ := mem_mark hr
    rw [hkey] at hheld ⊢
    obtain ⟨hstopped, hshed | ⟨target, ht, -⟩⟩ := h.held r hr hheld
    · refine ⟨hstatus.trans hstopped, ?_⟩
      by_cases hk : r.key = keyOf target
      · rw [hmark, if_pos hk]
        cases stopping with
        | true => exact Or.inl rfl
        | false => exact Or.inr ⟨target, rfl, hk.symm⟩
      · rw [hmark, if_neg hk]
        exact Or.inl hshed
    · exact nomatch hs.symm.trans ht
  · obtain ⟨r, hr, hkey', -, hmark⟩ := mem_mark hr
    rw [hmark, if_pos (hkey'.symm.trans hkey)]
    exact hstop
  · obtain ⟨r, hr, hkey, hstatus, hmark⟩ := mem_mark hr
    rw [hkey]
    rw [hstatus] at hstopped
    rw [hmark] at hshed
    split at hshed
    · next hk => exact Or.inr (Or.inr ⟨target, by rw [hshed], hk.symm⟩)
    · rcases h.marked r hr hshed hstopped with hlast | hp | ⟨target, ht, -⟩
      · exact Or.inl hlast
      · exact absurd hp (h.not_pending (by rw [hs]; nofun) _)
      · exact nomatch hs.symm.trans ht

theorem inv_queueStop (h : Inv s) {target : Candidate} (hs : s.sampler = .queueing target true) :
    Inv { s with jobs := s.jobs ++ [⟨keyOf target, .stop, .guard, .queued⟩], sampler := .idle } := by
  have hbusy := h.busy (by rw [hs]; nofun)
  obtain ⟨-, hmarked⟩ : Sampling s (.queueing target true) := hs ▸ h.sampling
  have hjobs : ∀ j ∈ s.jobs ++ [⟨keyOf target, .stop, .guard, .queued⟩],
      j ∈ s.jobs ∨ j = ⟨keyOf target, .stop, .guard, .queued⟩ := fun j hj => by simpa using hj
  refine ⟨fun r hr hheld => ?_, fun j hj hguard hstop => ?_, fun j hj ok hguard hran => ?_, fun j hj hguard hran => ?_,
    fun j hj huser hran => ?_, trivial, fun r hr hshed hstopped => ?_, h.restarts⟩
  · obtain ⟨hstopped, hshed | ⟨target, ht, -⟩⟩ := h.held r hr hheld
    · exact ⟨hstopped, Or.inl hshed⟩
    · cases hs.symm.trans ht
  · rcases hjobs j hj with hj | rfl
    · exact absurd hstop ((hbusy j hj).1 hguard)
    · exact ⟨rfl, hmarked rfl⟩
  · rcases hjobs j hj with hj | rfl
    · exact h.guardStop j hj ok hguard hran
    · rfl
  · rcases hjobs j hj with hj | rfl
    · exact h.guardStopped j hj hguard hran
    · cases hran
  · rcases hjobs j hj with hj | rfl
    · exact absurd hran ((hbusy j hj).2 huser)
    · cases huser
  · rcases h.marked r hr hshed hstopped with hlast | hp | ⟨target', ht, hkey⟩
    · exact Or.inl hlast
    · exact absurd hp (h.not_pending (by rw [hs]; nofun) _)
    · obtain ⟨rfl, -⟩ : target = target' ∧ true = true := by simpa using hs.symm.trans ht
      exact Or.inr (Or.inl ⟨_, List.mem_append_right _ List.mem_cons_self, rfl, rfl, hkey⟩)

theorem inv_queueStart (h : Inv s) {target : Candidate} (hs : s.sampler = .queueing target false) :
    Inv { s with
      jobs := s.jobs ++ [⟨keyOf target, .start, .guard, .queued⟩]
      sampler := .idle
      held := Function.update s.held (keyOf target) false
      restarts := s.restarts ++ [s.lastStop (keyOf target)] } := by
  have hbusy := h.busy (by rw [hs]; nofun)
  obtain ⟨hlast, -⟩ : Sampling s (.queueing target false) := hs ▸ h.sampling
  have hjobs : ∀ j ∈ s.jobs ++ [⟨keyOf target, .start, .guard, .queued⟩],
      j ∈ s.jobs ∨ j = ⟨keyOf target, .start, .guard, .queued⟩ := fun j hj => by simpa using hj
  refine ⟨fun r hr hheld => ?_, fun j hj hguard hstop => ?_, fun j hj ok hguard hran => ?_, fun j hj hguard hran => ?_,
    fun j hj huser hran => ?_, trivial, fun r hr hshed hstopped => ?_, fun o ho => ?_⟩
  · dsimp only at hheld
    by_cases hk : r.key = keyOf target
    · rw [hk, Function.update_self] at hheld
      cases hheld
    · rw [Function.update_of_ne hk] at hheld
      obtain ⟨hstopped, hshed | ⟨target', ht, hkey⟩⟩ := h.held r hr hheld
      · exact ⟨hstopped, Or.inl hshed⟩
      · obtain ⟨rfl, -⟩ : target = target' ∧ true = true := by simpa using hs.symm.trans ht
        exact absurd hkey.symm hk
  · rcases hjobs j hj with hj | rfl
    · exact absurd hstop ((hbusy j hj).1 hguard)
    · cases hstop
  · rcases hjobs j hj with hj | rfl
    · exact h.guardStop j hj ok hguard hran
    · cases hran
  · rcases hjobs j hj with hj | rfl
    · exact h.guardStopped j hj hguard hran
    · cases hran
  · rcases hjobs j hj with hj | rfl
    · exact absurd hran ((hbusy j hj).2 huser)
    · cases huser
  · rcases h.marked r hr hshed hstopped with hlast | hp | ⟨target', ht, -⟩
    · exact Or.inl hlast
    · exact absurd hp (h.not_pending (by rw [hs]; nofun) _)
    · cases hs.symm.trans ht
  · rcases List.mem_append.1 ho with ho | ho
    · exact h.restarts o ho
    · exact List.mem_singleton.1 ho ▸ hlast rfl

theorem guardStep_start {counts : GuardState} {memPercent : ℚ} {settings : Settings}
    {candidates : List Candidate}
    {target : Candidate} (h : (guardStep collate counts memPercent settings candidates).2 = .start target) :
    target ∈ candidates ∧ target.restorable = true := by
  have hpick : pickToRestore collate candidates = some target := by
    unfold guardStep at h
    dsimp only at h
    split at h
    · cases h
    · split at h
      · split at h
        · split at h <;> cases h
        · cases h
      · split at h
        · split at h
          · split at h
            · next hp =>
                cases h
                exact hp
            · cases h
          · cases h
        · cases h
  obtain ⟨tail, htail⟩ := List.head?_eq_some_iff.1 hpick
  have hmem : target ∈ Sorting.sort (restoreOrder collate) (candidates.filter (·.restorable)) :=
    htail ▸ List.mem_cons_self
  exact List.mem_filter.1 (Sorting.mem_sort.1 hmem)

theorem inv_proceed (h : Inv s) : Inv (proceed collate s) := by
  unfold proceed
  split
  · exact h
  · next hs => exact inv_clear h hs
  · next candidates memPercent settings hs =>
      refine inv_decide h hs ?_
      cases hr : (guardStep collate s.counts memPercent settings candidates).2 with
      | none => exact Or.inl rfl
      | stop target => exact Or.inr ⟨target, true, rfl, nofun⟩
      | start target => exact Or.inr ⟨target, false, rfl, fun _ => guardStep_start collate hr⟩
  · next hs => exact inv_mark h hs
  · next hs => exact inv_queueStop h hs
  · next hs => exact inv_queueStart h hs

theorem find_none {rows : List Resource} {k : Key} (h : find rows k = none) : ∀ r ∈ rows, r.key ≠ k :=
  fun r hr => by simpa using List.find?_eq_none.1 h r hr

/-- A step that neither holds a resource anew nor records a user's stop, and keeps the marks. -/
theorem Sampling.mono {s' : State} {m : Sampler} (h : Sampling s m)
    (hheld : ∀ k, s.held k = false → s'.held k = false)
    (hlast : ∀ k, s.lastStop k ≠ some .user → s'.lastStop k ≠ some .user)
    (hrows : ∀ r' ∈ s'.rows, ∃ r ∈ s.rows, r'.key = r.key ∧ r'.shedByGuard = r.shedByGuard) :
    Sampling s' m := by
  cases m with
  | idle => trivial
  | clearing stale candidates memPercent settings =>
      exact ⟨fun k hk => hheld k (h.1 k hk), fun c hc hrestorable => hlast _ (h.2 c hc hrestorable)⟩
  | marking target stopping => exact fun hstart => hlast _ (h hstart)
  | queueing target stopping =>
      refine ⟨fun hstart => hlast _ (h.1 hstart), fun hstop r' hr' hkey => ?_⟩
      obtain ⟨r, hr, hkey', hshed⟩ := hrows r' hr'
      exact hshed.trans (h.2 hstop r hr (hkey'.symm.trans hkey))

theorem update_false {held : Key → Bool} {k k' : Key} (h : Function.update held k false k' = true) :
    k' ≠ k ∧ held k' = true := by
  by_cases hk : k' = k
  · rw [hk, Function.update_self] at h
    cases h
  · rw [Function.update_of_ne hk] at h
    exact ⟨hk, h⟩

theorem inv_queueUser (h : Inv s) (k : Key) (task : Task) {rows : List Resource} {held : Key → Bool}
    (hrows : ∀ r' ∈ rows, ∃ r ∈ s.rows, r'.key = r.key ∧ r'.shedByGuard = r.shedByGuard ∧
      (r'.status = .stopped → r.status = .stopped) ∧ (held r.key = true → r'.status = r.status))
    (hheld : ∀ k', held k' = true → s.held k' = true) :
    Inv { s with rows := rows, jobs := s.jobs ++ [⟨k, task, .user, .queued⟩], held := held } := by
  have hjobs : ∀ j ∈ s.jobs ++ [⟨k, task, .user, .queued⟩], j ∈ s.jobs ∨ j = ⟨k, task, .user, .queued⟩ :=
    fun j hj => by simpa using hj
  refine ⟨fun r' hr' hheld' => ?_, fun j hj hguard hstop => ?_, fun j hj ok hguard hran => ?_, fun j hj hguard hran => ?_,
    fun j hj huser hran => ?_, ?_, fun r' hr' hshed hstopped => ?_, h.restarts⟩
  · obtain ⟨r, hr, hkey, hshed, -, hstatus⟩ := hrows r' hr'
    dsimp only at hheld' ⊢
    rw [hkey] at hheld' ⊢
    rw [hshed, hstatus hheld']
    exact h.held r hr (hheld _ hheld')
  · rcases hjobs j hj with hj | rfl
    · obtain ⟨hidle, hmarked⟩ := h.pending j hj hguard hstop
      refine ⟨hidle, fun r' hr' hk => ?_⟩
      obtain ⟨r, hr, hkey, hshed, -⟩ := hrows r' hr'
      exact hshed.trans (hmarked r hr (hkey.symm.trans hk))
    · cases hguard
  · rcases hjobs j hj with hj | rfl
    · exact h.guardStop j hj ok hguard hran
    · cases hran
  · rcases hjobs j hj with hj | rfl
    · exact h.guardStopped j hj hguard hran
    · cases hran
  · rcases hjobs j hj with hj | rfl
    · obtain ⟨hidle, hmarked⟩ := h.userStopped j hj huser hran
      refine ⟨hidle, fun r' hr' hk => ?_⟩
      obtain ⟨r, hr, hkey, hshed, -⟩ := hrows r' hr'
      exact hshed.trans (hmarked r hr (hkey.symm.trans hk))
    · cases hran
  · refine h.sampling.mono (fun k' hk' => ?_) (fun _ hlast => hlast) fun r' hr' => ?_
    · rw [Bool.eq_false_iff] at hk' ⊢
      exact fun hn => hk' (hheld k' hn)
    · obtain ⟨r, hr, hkey, hshed, -⟩ := hrows r' hr'
      exact ⟨r, hr, hkey, hshed⟩
  · obtain ⟨r, hr, hkey, hshed', hstatus, -⟩ := hrows r' hr'
    rw [hkey]
    rcases h.marked r hr (hshed'.symm.trans hshed) (hstatus hstopped) with hlast | ⟨j, hj, hp⟩ | ht
    · exact Or.inl hlast
    · exact Or.inr (Or.inl ⟨j, List.mem_append_left _ hj, hp⟩)
    · exact Or.inr (Or.inr ht)

theorem inv_request (h : Inv s) (k : Key) (task : Task) : Inv (request s k task) := by
  unfold request
  split
  · exact h
  · next r _ =>
      split
      · exact h
      · cases r.kind with
        | application => exact inv_queueUser h k task (fun r hr => ⟨r, hr, rfl, rfl, id, fun _ => rfl⟩) fun _ hk => hk
        | service =>
            refine inv_queueUser h k task (fun r' hr' => ?_) fun k' hk' => (update_false hk').2
            obtain ⟨r, hr, hkey, hshed, hstatus⟩ := mem_setStatus hr'
            refine ⟨r, hr, hkey, hshed, fun hstopped => ?_, fun hheld => ?_⟩
            · rw [hstatus] at hstopped
              split at hstopped
              · cases hstopped
              · exact hstopped
            · rw [hstatus, if_neg (update_false hheld).1]

theorem Pending.erase {k : Key} (h : Pending s k) {i : Nat} {j : Job} (hi : s.jobs[i]? = some j)
    (hk : j.key ≠ k) :
    ∃ j ∈ s.jobs.eraseIdx i, j.owner = .guard ∧ j.task = .stop ∧ j.key = k := by
  obtain ⟨j', hj', hguard, hstop, hkey⟩ := h
  obtain ⟨n, hn⟩ := List.mem_iff_getElem?.1 hj'
  refine ⟨j', List.mem_eraseIdx_iff_getElem?.2 ⟨n, ?_, hn⟩, hguard, hstop, hkey⟩
  rintro rfl
  obtain rfl : j = j' := by simpa using hi.symm.trans hn
  exact hk hkey

theorem inv_dropJob (h : Inv s) {i : Nat} {j : Job} (hi : s.jobs[i]? = some j)
    (hnone : find s.rows j.key = none) :
    Inv { s with jobs := s.jobs.eraseIdx i } := by
  have hjobs : ∀ {j'}, j' ∈ s.jobs.eraseIdx i → j' ∈ s.jobs := List.mem_of_mem_eraseIdx
  refine ⟨h.held, fun j' hj' => h.pending j' (hjobs hj'), fun j' hj' => h.guardStop j' (hjobs hj'),
    fun j' hj' => h.guardStopped j' (hjobs hj'), fun j' hj' => h.userStopped j' (hjobs hj'),
    h.sampling.mono (fun _ hk => hk) (fun _ hk => hk) fun r hr => ⟨r, hr, rfl, rfl⟩, fun r hr hshed hstopped => ?_, h.restarts⟩
  rcases h.marked r hr hshed hstopped with hlast | hp | ht
  · exact Or.inl hlast
  · exact Or.inr (Or.inl (hp.erase hi (find_none hnone r hr).symm))
  · exact Or.inr (Or.inr ht)

/-- The command of a job runs; a user's stop finds the resource unmarked and no sample in progress. -/
theorem inv_ranJob (h : Inv s) {i : Nat} {k : Key} {task done : Task} {owner : Owner}
    (hi : s.jobs[i]? = some ⟨k, task, owner, .queued⟩) (hdone : done = .stop → task = .stop)
    {r : Resource} (hfind : find s.rows k = some r) {ok : Bool}
    (hc : task = .stop → owner = .user → ok = true → s.sampler = .idle ∧ ∀ r ∈ s.rows, r.key = k → r.shedByGuard = false)
    {rows : List Resource} (hrows : ∀ r' ∈ rows, ∃ r ∈ s.rows, r'.key = r.key ∧ r'.shedByGuard = r.shedByGuard ∧
      (r'.status = .stopped → r.status = .stopped) ∧ (r.key ≠ k → r'.status = r.status)) :
    Inv { s with
      rows := rows
      jobs := s.jobs.set i ⟨k, task, owner, .ran done ok⟩
      held := Function.update s.held k false
      lastStop := if done = .stop ∧ ok = true then Function.update s.lastStop k (some owner) else s.lastStop } := by
  have hjobs : ∀ j ∈ s.jobs.set i ⟨k, task, owner, .ran done ok⟩, j ∈ s.jobs ∨
    j = ⟨k, task, owner, .ran done ok⟩ :=
    fun j hj => List.mem_or_eq_of_mem_set hj
  have hold : (⟨k, task, owner, .queued⟩ : Job) ∈ s.jobs := List.mem_of_getElem? hi
  have hmarks : ∀ {b k'}, (∀ r ∈ s.rows, r.key = k' → r.shedByGuard = b) → ∀ r' ∈ rows, r'.key = k' →
    r'.shedByGuard = b := by
    intro b k' hb r' hr' hk
    obtain ⟨r, hr, hkey, hshed, -⟩ := hrows r' hr'
    exact hshed.trans (hb r hr (hkey.symm.trans hk))
  -- What was not last stopped by a user is still not, unless this is a user's stop of it.
  have hlast : ∀ k', s.lastStop k' ≠ some .user → (k' = k → done = .stop → ok = true → owner ≠ .user) →
      (if done = .stop ∧ ok = true then Function.update s.lastStop k (some owner) else s.lastStop) k' ≠ some .user := by
    intro k' hk' huser
    split
    · next hs =>
        by_cases hk : k' = k
        · rw [hk, Function.update_self]
          exact fun ho => huser hk hs.1 hs.2 (Option.some.inj ho)
        · rwa [Function.update_of_ne hk]
    · exact hk'
  refine ⟨fun r' hr' hheld => ?_, fun j hj hguard hstop => ?_, fun j hj ok' hguard hran => ?_, fun j hj hguard hran => ?_,
    fun j hj huser hran => ?_, ?_, fun r' hr' hshed hstopped => ?_, h.restarts⟩
  · obtain ⟨r, hr, hkey, hshed, -, hstatus⟩ := hrows r' hr'
    obtain ⟨hk, hheld⟩ := update_false hheld
    dsimp only
    rw [hkey] at hk hheld ⊢
    rw [hshed, hstatus hk]
    exact h.held r hr hheld
  · rcases hjobs j hj with hj | rfl
    · obtain ⟨hidle, hmarked⟩ := h.pending j hj hguard hstop
      exact ⟨hidle, hmarks hmarked⟩
    · obtain ⟨hidle, hmarked⟩ := h.pending _ hold hguard hstop
      exact ⟨hidle, hmarks hmarked⟩
  · rcases hjobs j hj with hj | rfl
    · exact h.guardStop j hj ok' hguard hran
    · cases hran
      exact hdone rfl
  · rcases hjobs j hj with hj | rfl
    · refine hlast _ (h.guardStopped j hj hguard hran) fun hk hstop hok huser => ?_
      -- The row of a stop that has not ended is marked, and a user's stop finds it unmarked.
      obtain ⟨hr, hrk⟩ := find_some hfind
      have hmarked :=
        (h.pending j hj hguard (h.guardStop j hj true hguard hran)).2 r hr (hrk.trans hk.symm)
      exact Bool.noConfusion (((hc (hdone hstop) huser hok).2 r hr hrk).symm.trans hmarked)
    · cases hran
      dsimp only at hguard ⊢
      rw [if_pos ⟨rfl, rfl⟩, Function.update_self, hguard]
      nofun
  · rcases hjobs j hj with hj | rfl
    · obtain ⟨hidle, hmarked⟩ := h.userStopped j hj huser hran
      exact ⟨hidle, hmarks hmarked⟩
    · cases hran
      obtain ⟨hidle, hmarked⟩ := hc (hdone rfl) huser rfl
      exact ⟨hidle, hmarks hmarked⟩
  · by_cases huser : done = .stop ∧ ok = true ∧ owner = .user
    · dsimp only
      rw [(hc (hdone huser.1) huser.2.2 huser.2.1).1]
      trivial
    · refine h.sampling.mono (fun k' hk' => ?_) (fun k' hk' => ?_) fun r' hr' => ?_
      · rw [Bool.eq_false_iff] at hk' ⊢
        exact fun hn => hk' (update_false hn).2
      · exact hlast k' hk' fun _ hstop hok ho => huser ⟨hstop, hok, ho⟩
      · obtain ⟨r, hr, hkey, hshed, -⟩ := hrows r' hr'
        exact ⟨r, hr, hkey, hshed⟩
  · obtain ⟨r₀, hr₀, hkey, hshed', hstatus, -⟩ := hrows r' hr'
    rw [hshed'] at hshed
    rw [hkey]
    rcases h.marked r₀ hr₀ hshed (hstatus hstopped) with hl | ⟨j, hj, hguard, hstop, hjkey⟩ | ht
    · refine Or.inl (hlast _ hl fun hk hstop hok huser => ?_)
      exact Bool.noConfusion (((hc (hdone hstop) huser hok).2 r₀ hr₀ hk).symm.trans hshed)
    · refine Or.inr (Or.inl ?_)
      obtain ⟨n, hn⟩ := List.mem_iff_getElem?.1 hj
      by_cases hin : i = n
      · subst hin
        obtain rfl : (⟨k, task, owner, .queued⟩ : Job) = j := by simpa using hi.symm.trans hn
        exact ⟨_, List.mem_set (List.getElem?_eq_some_iff.1 hi).1 _, hguard, hstop, hjkey⟩
      · exact ⟨j, List.mem_of_getElem? ((List.getElem?_set_ne hin).trans hn), hguard, hstop, hjkey⟩
    · exact Or.inr (Or.inr ht)

theorem inv_runJob (h : Inv s) {i : Nat} {ok : Bool}
    (hc : ∀ k, s.jobs[i]? = some ⟨k, .stop, .user, .queued⟩ → ok = true →
      s.sampler = .idle ∧ ∀ r ∈ s.rows, r.key = k → r.shedByGuard = false) : Inv (runJob s i ok) := by
  unfold runJob
  split
  · next k task owner hi =>
      split
      · next hnone => exact inv_dropJob h hi hnone
      · next r hfind =>
          refine inv_ranJob h hi does_stop hfind (fun htask howner hok => ?_) fun r' hr' => ?_
          · subst htask howner
            exact hc k hi hok
          · split at hr'
            · obtain ⟨r₀, hr₀, hkey, hshed, hstatus⟩ := mem_setStatus hr'
              refine ⟨r₀, hr₀, hkey, hshed, fun hstopped => ?_, fun hk => hstatus.trans (if_neg hk)⟩
              rw [hstatus] at hstopped
              split at hstopped
              · cases hstopped
              · exact hstopped
            · exact ⟨r', hr', rfl, rfl, id, fun _ => rfl⟩
  · exact h

theorem inv_wroteStatus (h : Inv s) {i : Nat} {k : Key} {task asked : Task} {owner : Owner} {ok : Bool}
    (hi : s.jobs[i]? = some ⟨k, asked, owner, .ran task ok⟩) (published : Bool) :
    Inv { s with
      rows := setStatus k (if ok && published then resultStatus task else .error) s.rows
      jobs := s.jobs.eraseIdx i
      held := Function.update s.held k (ok && published && task = .stop && owner = .guard) } := by
  have hjobs : ∀ {j}, j ∈ s.jobs.eraseIdx i → j ∈ s.jobs := List.mem_of_mem_eraseIdx
  have hold : (⟨k, asked, owner, .ran task ok⟩ : Job) ∈ s.jobs := List.mem_of_getElem? hi
  have hmarks : ∀ {b k'}, (∀ r ∈ s.rows, r.key = k' → r.shedByGuard = b) →
      ∀ r' ∈ setStatus k (if ok && published then resultStatus task else .error) s.rows, r'.key = k' →
        r'.shedByGuard = b := by
    intro b k' hb r' hr' hk
    obtain ⟨r, hr, hkey, hshed, -⟩ := mem_setStatus hr'
    exact hshed.trans (hb r hr (hkey.symm.trans hk))
  -- A stop of the guard that went well: until now it had not ended.
  have hguardStop : (ok && published && task = .stop && owner = .guard) = true →
      s.sampler = .idle ∧ (∀ r ∈ s.rows, r.key = k → r.shedByGuard = true) := by
    intro hheld
    simp only [Bool.and_eq_true, decide_eq_true_eq] at hheld
    obtain ⟨⟨-, rfl⟩, rfl⟩ := hheld
    exact h.pending _ hold rfl (h.guardStop _ hold ok rfl rfl)
  refine ⟨fun r' hr' hheld => ?_, fun j hj hguard hstop => ?_, fun j hj => h.guardStop j (hjobs hj),
    fun j hj => h.guardStopped j (hjobs hj), fun j hj huser hran => ?_, ?_, fun r' hr' hshed hstopped => ?_, h.restarts⟩
  · obtain ⟨r, hr, hkey, hshed, hstatus⟩ := mem_setStatus hr'
    dsimp only at hheld ⊢
    rw [hkey] at hheld ⊢
    rw [hshed, hstatus]
    by_cases hk : r.key = k
    · rw [hk, Function.update_self] at hheld
      rw [if_pos hk]
      refine ⟨?_, Or.inl ((hguardStop hheld).2 r hr hk)⟩
      simp only [Bool.and_eq_true, decide_eq_true_eq] at hheld
      obtain ⟨⟨⟨rfl, rfl⟩, rfl⟩, -⟩ := hheld
      rfl
    · rw [Function.update_of_ne hk] at hheld
      rw [if_neg hk]
      exact h.held r hr hheld
  · obtain ⟨hidle, hmarked⟩ := h.pending j (hjobs hj) hguard hstop
    exact ⟨hidle, hmarks hmarked⟩
  · obtain ⟨hidle, hmarked⟩ := h.userStopped j (hjobs hj) huser hran
    exact ⟨hidle, hmarks hmarked⟩
  · by_cases hguard : (ok && published && task = .stop && owner = .guard) = true
    · dsimp only
      rw [(hguardStop hguard).1]
      trivial
    · refine h.sampling.mono (fun k' hk' => ?_) (fun _ hk' => hk') fun r' hr' => ?_
      · rw [Bool.not_eq_true] at hguard
        dsimp only
        rw [hguard, Bool.eq_false_iff]
        exact fun hn => Bool.noConfusion (hk'.symm.trans (update_false hn).2)
      · obtain ⟨r, hr, hkey, hshed, -⟩ := mem_setStatus hr'
        exact ⟨r, hr, hkey, hshed⟩
  · obtain ⟨r, hr, hkey, hshed', hstatus⟩ := mem_setStatus hr'
    rw [hshed'] at hshed
    rw [hkey]
    by_cases hk : r.key = k
    · rw [hstatus, if_pos hk] at hstopped
      obtain ⟨rfl, rfl⟩ : ok = true ∧ task = .stop := by
        split at hstopped
        · next hwell =>
            unfold resultStatus at hstopped
            split at hstopped
            · next hstop => exact ⟨(Bool.and_eq_true _ _ ▸ hwell).1, hstop⟩
            · cases hstopped
        · cases hstopped
      cases owner with
      | guard =>
          rw [hk]
          exact Or.inl (h.guardStopped _ hold rfl rfl)
      | user => exact Bool.noConfusion (((h.userStopped _ hold rfl rfl).2 r hr hk).symm.trans hshed)
    · rw [hstatus, if_neg hk] at hstopped
      rcases h.marked r hr hshed hstopped with hlast | hp | ht
      · exact Or.inl hlast
      · exact Or.inr (Or.inl (hp.erase hi (Ne.symm hk)))
      · exact Or.inr (Or.inr ht)

theorem inv_finish (h : Inv s) (i : Nat) (published : Bool) : Inv (finish s i published) := by
  unfold finish
  split
  · next hi => exact inv_wroteStatus h hi published
  · exact h

theorem inv_step {e : Event} (h : Inv s) (hc : Calm s e) : Inv (step collate s e) := by
  cases e with
  | sample memPercent settings running => exact inv_sample h hc
  | proceed => exact inv_proceed collate h
  | abort => exact h.rest hc s.counts
  | request k task => exact inv_request h k task
  | run i ok => exact inv_runJob h hc
  | finish i published => exact inv_finish h i published

end Steps

/-- Before any sample: the guard has marked nothing and no job waits. -/
structure Initial (s : State) : Prop where
  rows : ∀ r ∈ s.rows, r.shedByGuard = false
  jobs : s.jobs = []
  sampler : s.sampler = .idle
  held : ∀ k, s.held k = false
  restarts : s.restarts = []

theorem Initial.inv {s : State} (h : Initial s) : Inv s := by
  have hjobs : ∀ j, j ∉ s.jobs := by simp [h.jobs]
  refine ⟨fun r _ hheld => ?_, fun j hj => absurd hj (hjobs j), fun j hj => absurd hj (hjobs j),
    fun j hj => absurd hj (hjobs j), fun j hj => absurd hj (hjobs j), ?_, fun r hr hshed => ?_, ?_⟩
  · exact Bool.noConfusion ((h.held _).symm.trans hheld)
  · rw [h.sampler]
    trivial
  · exact Bool.noConfusion ((h.rows r hr).symm.trans hshed)
  · simp [h.restarts]

def oneWorker : State where
  rows := [⟨.application, "w", "worker", .low, false, false, .running⟩]
  jobs := []
  sampler := .idle
  counts := .initial
  held := fun _ => false
  lastStop := fun _ => none
  restarts := []

/-- A sample of a server on which the worker takes 500 bytes. -/
def sampled (memPercent : ℚ) : Event := .sample memPercent ⟨true, 90, 75⟩ [⟨"yeah-app-w", some 500⟩]

/-- Two samples of a full server and what the guard writes on them. -/
def shedWorker : List Event := [sampled 95, .proceed, sampled 95, .proceed, .proceed, .proceed]

end Yeah.Guard.Shed
