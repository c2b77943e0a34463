import Yeah.Runs
import Mathlib.Order.Basic
import Mathlib.Order.Nat

namespace Yeah.Platform

inductive Kind
  | platformUpdate
  | systemUpdate
  deriving DecidableEq

inductive Status
  | queued
  | running
  | success
  | failed
  deriving DecidableEq

structure Operation where
  kind : Kind
  status : Status
  deriving DecidableEq

def Operation.active (o : Operation) : Bool := o.status = .queued ∨ o.status = .running

/-- Where the work on an operation stands: a request that has yet to queue the job, a waiting
job, or a worker with a job in hand, by what it has written to the row. -/
inductive Token
  | adding
  | waiting
  /-- The job was taken and the row is not read yet. -/
  | taken
  /-- `runSystemUpdate`, before and after the row is set to running. -/
  | updating
  | upgrading
  /-- `launchPlatformUpdate`, before and after the row is set to running, and in its failure path. -/
  | launching
  | launched
  | failing
  | polling
  | leaving
  deriving DecidableEq

namespace Token

def inHand : Token → Bool
  | adding | waiting => false
  | _ => true

/-- The stages at which the row may be set to success (`true`) or failed, and what follows. -/
def finished : Token → Bool → Option Token
  | upgrading, _ => some upgrading
  | launching, false | launched, false | failing, false => some failing
  | polling, _ => some leaving
  | _, _ => none

/-- The stages that queue the next poll. -/
def requeues : Token → Bool
  | launched | polling => true
  | _ => false

end Token

/-- The rows, in the order of their insertion, the requests that found no running operation, and
the work on each operation. -/
structure State where
  operations : List Operation
  requests : List Kind
  tokens : List (Nat × Token)
  deriving DecidableEq

namespace State

def empty : State := ⟨[], [], []⟩

variable (s : State)

def setStatus (i : Nat) (status : Status) : State :=
  { s with operations := s.operations.modify i fun o => { o with status := status } }

def move (i : Nat) (t t' : Token) : State := { s with tokens := (i, t') :: s.tokens.erase (i, t) }

def add (i : Nat) (t : Token) : State := { s with tokens := (i, t) :: s.tokens }

def drop (i : Nat) (t : Token) : State := { s with tokens := s.tokens.erase (i, t) }

end State

inductive Event
  /-- The select of `startPlatformOperation`. -/
  | request (kind : Kind)
  | insert (kind : Kind)
  | queue (i : Nat)
  | take (i : Nat)
  /-- The select of `platformOperation`. -/
  | read (i : Nat)
  /-- The write of the status running. -/
  | start (i : Nat) (t : Token)
  | finish (i : Nat) (t : Token) (success : Bool)
  | poll (i : Nat) (t : Token)
  /-- The processor returns or throws. -/
  | leave (i : Nat) (t : Token)
  /-- The worker dies and the job is given out again. -/
  | die (i : Nat) (t : Token)

/-- What `platformOperation` does with the row it has read. -/
def dispatch (o : Operation) : Token :=
  match o.kind, o.status with
  | .systemUpdate, _ => .updating
  | .platformUpdate, .queued => .launching
  | .platformUpdate, .running => .polling
  | .platformUpdate, _ => .leaving

/-- The stage after the write of the status running. -/
def started : Token → Option Token
  | .updating => some .upgrading
  | .launching => some .launched
  | _ => none

def outcome (success : Bool) : Status := if success then .success else .failed

def step (s : State) : Event → State
  | .request kind =>
      if s.operations.any (·.status = .running) then s else { s with requests := kind :: s.requests }
  | .insert kind =>
      if kind ∈ s.requests then
        { operations := s.operations ++ [⟨kind, .queued⟩]
          requests := s.requests.erase kind
          tokens := (s.operations.length, .adding) :: s.tokens }
      else s
  | .queue i => if (i, .adding) ∈ s.tokens then s.move i .adding .waiting else s
  | .take i => if (i, .waiting) ∈ s.tokens then s.move i .waiting .taken else s
  | .read i =>
      match s.operations[i]? with
      | none => s
      | some o => if (i, .taken) ∈ s.tokens then s.move i .taken (dispatch o) else s
  | .start i t =>
      match started t with
      | none => s
      | some t' => if (i, t) ∈ s.tokens then (s.setStatus i .running).move i t t' else s
  | .finish i t success =>
      match t.finished success with
      | none => s
      | some t' =>
          if (i, t) ∈ s.tokens then (s.setStatus i (outcome success)).move i t t' else s
  | .poll i t => if (i, t) ∈ s.tokens ∧ t.requeues then (s.move i t .leaving).add i .waiting else s
  | .leave i t => if (i, t) ∈ s.tokens ∧ t.inHand then s.drop i t else s
  | .die i t => if (i, t) ∈ s.tokens ∧ t.inHand then s.move i t .waiting else s

def AtMostOne (s : State) : Prop :=
  ∀ (i j : Nat) (a b : Operation), s.operations[i]? = some a → s.operations[j]? = some b → a.active →
    b.active → i = j

/-- An operation is inserted while none is queued or running, and a system update that has ended
is not taken up again. -/
def Careful (s : State) : Event → Prop
  | .insert _ => ∀ o ∈ s.operations, o.active = false
  | .read i => ∀ o : Operation, s.operations[i]? = some o → o.kind = .systemUpdate → o.active
  | _ => True

/-- What a stage knows about the row it works on. -/
def Fits (o : Operation) : Token → Prop
  | .updating => o.kind = .systemUpdate ∧ o.active
  | .upgrading => o.kind = .systemUpdate
  | .launching => o.kind = .platformUpdate ∧ o.status = .queued
  | .launched | .failing | .polling => o.kind = .platformUpdate ∧ o.status ≠ .queued
  | _ => True

/-- How many requests, jobs and workers there are for an operation. -/
def State.work (s : State) (i : Nat) : Nat := (s.tokens.map Prod.fst).count i

structure Inv (s : State) : Prop where
  one : AtMostOne s
  exist : ∀ e ∈ s.tokens, e.1 < s.operations.length
  single : ∀ (i : Nat) (o : Operation), s.operations[i]? = some o → o.kind = .systemUpdate ∨
    o.status = .queued → s.work i ≤ 1
  fits : ∀ e ∈ s.tokens, ∀ o, s.operations[e.1]? = some o → Fits o e.2

namespace State

variable {s : State} {i j : Nat} {t t' : Token}

@[simp] theorem setStatus_tokens (status : Status) : (s.setStatus i status).tokens = s.tokens := rfl
@[simp] theorem move_operations : (s.move i t t').operations = s.operations := rfl
@[simp] theorem add_operations : (s.add i t).operations = s.operations := rfl
@[simp] theorem drop_operations : (s.drop i t).operations = s.operations := rfl

theorem work_move (h : (i, t) ∈ s.tokens) : (s.move i t t').work j = s.work j := by
  have hp := (List.perm_cons_erase h).map Prod.fst
  exact (hp.count_eq j).symm

theorem work_drop : (s.drop i t).work j ≤ s.work j := (List.erase_sublist.map Prod.fst).count_le j

theorem work_add_of_ne (h : j ≠ i) : (s.add i t).work j = s.work j := List.count_cons_of_ne (Ne.symm h)

theorem mem_erase_of_work (h : (i, t) ∈ s.tokens) (hw : s.work i ≤ 1) {e : Nat × Token}
    (he : e ∈ s.tokens.erase (i, t)) : e.1 ≠ i := by
  rintro rfl
  have hp := ((List.perm_cons_erase h).map Prod.fst).count_eq e.1
  rw [List.map_cons, List.count_cons_self] at hp
  have hc : 0 < ((s.tokens.erase (e.1, t)).map Prod.fst).count e.1 :=
    List.count_pos_iff.mpr (List.mem_map.mpr ⟨e, he, rfl⟩)
  rw [work, hp] at hw
  omega

theorem getElem?_setStatus {status : Status} {o : Operation}
    (h : (s.setStatus i status).operations[j]? = some o) :
    ∃ o', s.operations[j]? = some o' ∧ o.kind = o'.kind ∧ (j = i → o.status = status) ∧
      (j ≠ i → o = o') := by
  rw [setStatus, List.getElem?_modify, Option.map_eq_map, Option.map_eq_some_iff] at h
  obtain ⟨o', ho', he⟩ := h
  refine ⟨o', ho', ?_⟩
  by_cases hj : i = j
  · subst hj
    simp only [if_true] at he
    subst he
    simp
  · simp only [hj, if_false] at he
    subst he
    simp [Ne.symm hj]

end State

theorem atMostOne_of_le {s s' : State} (h : AtMostOne s)
    (hle : ∀ (i : Nat) (o : Operation), s'.operations[i]? = some o → o.active →
      ∃ o', s.operations[i]? = some o' ∧ o'.active) :
    AtMostOne s' := by
  intro i j a b ha hb haa hba
  obtain ⟨a', ha', haa'⟩ := hle i a ha haa
  obtain ⟨b', hb', hba'⟩ := hle j b hb hba
  exact h i j a' b' ha' hb' haa' hba'

namespace Inv

variable {s : State} {i : Nat} {t t' : Token}

theorem move (h : Inv s) (ht : (i, t) ∈ s.tokens) (hf : ∀ o, s.operations[i]? = some o → Fits o t') :
    Inv (s.move i t t') where
  one := h.one
  exist := by
    intro e he
    rcases List.mem_cons.mp he with rfl | he
    · exact h.exist (i, t) ht
    · exact h.exist e (List.mem_of_mem_erase he)
  single := by
    intro j o ho hk
    rw [State.work_move ht]
    exact h.single j o ho hk
  fits := by
    intro e he o ho
    rcases List.mem_cons.mp he with rfl | he
    · exact hf o ho
    · exact h.fits e (List.mem_of_mem_erase he) o ho

theorem drop (h : Inv s) : Inv (s.drop i t) where
  one := h.one
  exist := fun e he => h.exist e (List.mem_of_mem_erase he)
  single := fun j o ho hk => Nat.le_trans State.work_drop (h.single j o ho hk)
  fits := fun e he => h.fits e (List.mem_of_mem_erase he)

theorem add_waiting (h : Inv s) (hi : i < s.operations.length)
    (hr : ∀ o, s.operations[i]? = some o → o.kind = .platformUpdate ∧ o.status ≠ .queued) :
    Inv (s.add i .waiting) where
  one := h.one
  exist := by
    intro e he
    rcases List.mem_cons.mp he with rfl | he
    · exact hi
    · exact h.exist e he
  single := by
    intro j o ho hk
    by_cases hj : j = i
    · subst hj
      obtain ⟨hp, hq⟩ := hr o ho
      rcases hk with hk | hk
      · rw [hp] at hk
        cases hk
      · exact absurd hk hq
    · rw [State.work_add_of_ne hj]
      exact h.single j o ho hk
  fits := by
    intro e he o ho
    rcases List.mem_cons.mp he with rfl | he
    · trivial
    · exact h.fits e he o ho

theorem insert (h : Inv s) {kind : Kind} (hc : ∀ o ∈ s.operations, o.active = false) :
    Inv { operations := s.operations ++ [⟨kind, .queued⟩]
          requests := s.requests.erase kind
          tokens := (s.operations.length, .adding) :: s.tokens } where
  one := by
    have hlast : ∀ i o, (s.operations ++ [⟨kind, .queued⟩])[i]? = some o → o.active →
      i = s.operations.length := by
      intro i o ho hoa
      rcases Nat.lt_or_ge i s.operations.length with hi | hi
      · rw [List.getElem?_append_left hi] at ho
        rw [hc o (List.mem_of_getElem? ho)] at hoa
        cases hoa
      · have hlt := (List.getElem?_eq_some_iff.mp ho).1
        simp only [List.length_append, List.length_singleton] at hlt
        omega
    intro i j a b ha hb haa hba
    rw [hlast i a ha haa, hlast j b hb hba]
  exist := by
    intro e he
    simp only [List.length_append, List.length_singleton]
    rcases List.mem_cons.mp he with rfl | he
    · exact Nat.lt_succ_self _
    · exact Nat.lt_succ_of_lt (h.exist e he)
  single := by
    intro i o ho hk
    have hnew : s.work s.operations.length = 0 := by
      rw [State.work, List.count_eq_zero, List.mem_map]
      rintro ⟨e, he, hi⟩
      exact absurd (h.exist e he) (by omega)
    by_cases hi : i = s.operations.length
    · subst hi
      have : (s.add s.operations.length .adding).work s.operations.length =
          s.work s.operations.length + 1 :=
        List.count_cons_self
      exact this.trans_le (by omega)
    · have hw : (s.add s.operations.length .adding).work i = s.work i := State.work_add_of_ne hi
      refine hw.trans_le (h.single i o ?_ hk)
      have hlt := (List.getElem?_eq_some_iff.mp ho).1
      simp only [List.length_append, List.length_singleton] at hlt
      rwa [List.getElem?_append_left (by omega)] at ho
  fits := by
    intro e he o ho
    rcases List.mem_cons.mp he with rfl | he
    · trivial
    · rw [List.getElem?_append_left (h.exist e he)] at ho
      exact h.fits e he o ho

/-- A write of the status, by a worker that is alone on the operation or on a launched one. -/
theorem write (h : Inv s) {status : Status} (hq : status ≠ .queued) (ht : (i, t) ∈ s.tokens)
    (ha : ∀ o, s.operations[i]? = some o → ({ o with status := status } : Operation).active → o.active)
    (hw : ∀ o, s.operations[i]? = some o → s.work i ≤ 1 ∨ o.kind = .platformUpdate ∧ o.status ≠ .queued)
    (hf : ∀ o, s.operations[i]? = some o → Fits { o with status := status } t') :
    Inv ((s.setStatus i status).move i t t') where
  one := by
    refine atMostOne_of_le h.one fun j o ho hoa => ?_
    obtain ⟨o', ho', hk, hs, hn⟩ := State.getElem?_setStatus ho
    refine ⟨o', ho', ?_⟩
    by_cases hj : j = i
    · subst hj
      refine ha o' ho' ?_
      rwa [Operation.active, ← hs rfl]
    · rwa [← hn hj]
  exist := by
    intro e he
    have hl : (s.setStatus i status).operations.length = s.operations.length := List.length_modify _ _ _
    rw [State.move_operations, hl]
    rcases List.mem_cons.mp he with rfl | he
    · exact h.exist (i, t) ht
    · exact h.exist e (List.mem_of_mem_erase he)
  single := by
    intro j o ho hk
    obtain ⟨o', ho', hkind, hs, hn⟩ := State.getElem?_setStatus ho
    have hm : ((s.setStatus i status).move i t t').work j = s.work j :=
      State.work_move (s := s.setStatus i status) ht
    rw [hm]
    refine h.single j o' ho' ?_
    by_cases hj : j = i
    · rw [hs hj] at hk
      rw [← hkind]
      exact Or.inl (hk.resolve_right hq)
    · rwa [← hn hj]
  fits := by
    intro e he o ho
    obtain ⟨o', ho', hk, hs, hn⟩ := State.getElem?_setStatus ho
    have ho : o = if e.1 = i then { o' with status := status } else o' := by
      split_ifs with hj
      · cases o with
        | mk kind st =>
            simp only at hk hs
            rw [hk, hs hj]
      · exact hn hj
    rcases List.mem_cons.mp he with rfl | he
    · rw [ho, if_pos rfl]
      exact hf o' ho'
    · by_cases hj : e.1 = i
      · have hfit := h.fits e (List.mem_of_mem_erase he) o' ho'
        rw [ho, if_pos hj]
        subst hj
        rcases hw o' ho' with hw | ⟨hp, hnq⟩
        · exact absurd rfl (State.mem_erase_of_work ht hw he)
        · cases he2 : e.2 <;> simp_all [Fits]
      · rw [ho, if_neg hj]
        exact h.fits e (List.mem_of_mem_erase he) o' ho'

theorem start (h : Inv s) (ht : (i, t) ∈ s.tokens) (ht' : started t = some t') :
    Inv ((s.setStatus i .running).move i t t') := by
  have hfit : ∀ o, s.operations[i]? = some o →
      o.active ∧ (o.kind = .systemUpdate ∨ o.status = .queued) ∧
        Fits { o with status := .running } t' := by
    intro o ho
    have hf := h.fits _ ht o ho
    cases t <;> simp only [started, reduceCtorEq, Option.some.injEq] at ht' <;> subst ht'
    case updating => exact ⟨hf.2, Or.inl hf.1, hf.1⟩
    case launching => exact ⟨by simp [Operation.active, hf.2], Or.inr hf.2, hf.1, by simp⟩
  exact h.write (by decide) ht (fun o ho _ => (hfit o ho).1)
    (fun o ho => Or.inl (h.single i o ho (hfit o ho).2.1))
    fun o ho => (hfit o ho).2.2

theorem finish (h : Inv s) {success : Bool} (ht : (i, t) ∈ s.tokens) (ht' : t.finished success = some t') :
    Inv ((s.setStatus i (outcome success)).move i t t') := by
  have hq : outcome success ≠ .queued := by cases success <;> decide
  have hfit : ∀ o, s.operations[i]? = some o →
      ((o.kind = .systemUpdate ∨ o.status = .queued) ∨ o.kind = .platformUpdate ∧ o.status ≠ .queued) ∧
        Fits { o with status := outcome success } t' := by
    intro o ho
    have hf := h.fits _ ht o ho
    cases t <;> cases success <;> simp only [Token.finished, reduceCtorEq, Option.some.injEq] at ht' <;> subst ht'
    case upgrading.false | upgrading.true => exact ⟨Or.inl (Or.inl hf), hf⟩
    case launching.false => exact ⟨Or.inl (Or.inr hf.2), hf.1, hq⟩
    case launched.false | failing.false => exact ⟨Or.inr hf, hf.1, hq⟩
    case polling.false | polling.true => exact ⟨Or.inr hf, trivial⟩
  refine h.write hq ht (fun o _ ha => ?_) (fun o ho => (hfit o ho).1.imp_left (h.single i o ho))
    fun o ho => (hfit o ho).2
  cases success <;> simp [Operation.active, outcome] at ha

theorem poll (h : Inv s) (ht : (i, t) ∈ s.tokens) (hr : t.requeues) :
    Inv ((s.move i t .leaving).add i .waiting) := by
  have hm : Inv (s.move i t .leaving) := h.move ht fun _ _ => trivial
  refine hm.add_waiting (h.exist (i, t) ht) fun o ho => ?_
  have hf := h.fits _ ht o ho
  cases t <;> first | exact hf | cases hr

end Inv

theorem Inv.step {s : State} (h : Inv s) {e : Event} (hc : Careful s e) : Inv (step s e) := by
  cases e with
  | request kind =>
      rw [Platform.step]
      split_ifs
      · exact h
      · exact ⟨h.one, h.exist, h.single, h.fits⟩
  | insert kind =>
      rw [Platform.step]
      split_ifs
      · exact h.insert hc
      · exact h
  | queue i =>
      rw [Platform.step]
      split_ifs with ht
      · exact h.move ht fun _ _ => trivial
      · exact h
  | take i =>
      rw [Platform.step]
      split_ifs with ht
      · exact h.move ht fun _ _ => trivial
      · exact h
  | read i =>
      rw [Platform.step]
      split
      · exact h
      · rename_i o ho
        split_ifs with ht
        · refine h.move ht fun o' ho' => ?_
          obtain rfl : o = o' := by simpa [ho] using ho'
          have ha := hc o ho
          cases hk : o.kind <;> cases hs : o.status <;> simp_all [dispatch, Fits]
        · exact h
  | start i t =>
      rw [Platform.step]
      split
      · exact h
      · rename_i t' ht'
        split_ifs with ht
        · exact h.start ht ht'
        · exact h
  | finish i t success =>
      rw [Platform.step]
      split
      · exact h
      · rename_i t' ht'
        split_ifs with ht
        · exact h.finish ht ht'
        · exact h
  | poll i t =>
      rw [Platform.step]
      split_ifs with ht
      · exact h.poll ht.1 ht.2
      · exact h
  | leave i t =>
      rw [Platform.step]
      split_ifs with ht
      · exact h.drop
      · exact h
  | die i t =>
      rw [Platform.step]
      split_ifs with ht
      · exact h.move ht.1 fun _ _ => trivial
      · exact h

theorem inv_empty : Inv .empty where
  one i j a b ha := by simp [State.empty] at ha
  exist e he := by cases he
  single i o ho := by simp [State.empty] at ho
  fits e he := by cases he

/-- A run that inserts only while nothing is in progress never has two operations in progress. -/
theorem run_atMostOne {events : List Event} (h : Runs.Along step Careful .empty events) :
    AtMostOne (Runs.run step .empty events) := by
  have hI : Inv (Runs.run step .empty events) :=
    Runs.along_invariant (I := Inv) (fun _ _ hI hc => Inv.step hI hc) inv_empty h
  exact hI.one

/-- One system update from its request to its end, then a platform update. -/
theorem run_atMostOne_oneAfterAnother :
    AtMostOne (Runs.run step .empty [.request .systemUpdate, .insert .systemUpdate, .queue 0, .take 0, .read 0,
      .start 0 .updating, .finish 0 .upgrading true, .leave 0 .upgrading, .request .platformUpdate,
      .insert .platformUpdate]) :=
  run_atMostOne (by simp [Runs.Along, Careful, step, State.empty, State.move, State.setStatus, State.drop, dispatch,
    started, Token.finished, Token.inHand, outcome, Operation.active])

/-- The select does not see a queued operation. -/
theorem two_operations_queued :
    ¬ AtMostOne (Runs.run step .empty [.request .systemUpdate, .insert .systemUpdate, .request .platformUpdate,
      .insert .platformUpdate]) := fun h => absurd (h 0 1 _ _ rfl rfl rfl rfl) (by decide)

end Yeah.Platform
