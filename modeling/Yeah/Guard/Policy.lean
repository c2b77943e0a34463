import Yeah.Runs
import Yeah.Sorting
import Mathlib.Data.Rat.Defs
import Mathlib.Algebra.Order.Ring.Rat
import Mathlib.Tactic.Linarith

namespace Yeah.Guard

inductive Priority
  | critical
  | normal
  | low
  deriving DecidableEq

def MIN_GAP : ℚ := 5

def SHED_AFTER_SAMPLES : Nat := 2

def RESTORE_AFTER_SAMPLES : Nat := 3

structure Settings where
  enabled : Bool
  threshold : ℚ
  recover : ℚ

def isInteger (q : ℚ) : Bool := q.den = 1

/-- The message for limits that are not accepted. -/
def validateMemoryGuardLimits (threshold recover : ℚ) : Option String :=
  if isInteger threshold = false ∨ threshold < 70 ∨ 99 < threshold then
    some "the stop threshold must be a whole number between 70 and 99"
  else if isInteger recover = false ∨ recover < 40 then
    some "the recover level must be a whole number of at least 40"
  else if threshold - MIN_GAP < recover then
    some "the recover level must be at least 5 points below the stop threshold"
  else none

inductive Kind
  | application
  | service
  deriving DecidableEq

inductive Status
  | running
  | stopped
  | other
  deriving DecidableEq

structure Candidate where
  kind : Kind
  id : String
  name : String
  priority : Priority
  memBytes : Option ℚ
  shedByGuard : Bool
  status : Status
  deriving DecidableEq

def tier : Priority → Nat
  | .low => 0
  | .normal => 1
  | .critical => 2

-- `localeCompare` of two names.
variable (collate : String → String → Ordering)

/-- Lowest priority, then the biggest memory user. -/
def shedOrder : Candidate → Candidate → Ordering :=
  Sorting.orElse (Sorting.comparing compare fun c => tier c.priority)
    (Sorting.orElse (Sorting.reversed (Sorting.comparing compare fun c => c.memBytes.getD (-1))) (Sorting.comparing collate (·.name)))

/-- The most important first. -/
def restoreOrder : Candidate → Candidate → Ordering :=
  Sorting.orElse (Sorting.reversed (Sorting.comparing compare fun c => tier c.priority)) (Sorting.comparing collate (·.name))

namespace Candidate

variable (c : Candidate)

def sheddable : Bool := c.status = .running ∧ c.priority ≠ .critical ∧ c.shedByGuard = false

def restorable : Bool := c.shedByGuard = true ∧ c.status = .stopped

end Candidate

def pickToShed (candidates : List Candidate) : Option Candidate :=
  (Sorting.sort (shedOrder collate) (candidates.filter (·.sheddable))).head?

def pickToRestore (candidates : List Candidate) : Option Candidate :=
  (Sorting.sort (restoreOrder collate) (candidates.filter (·.restorable))).head?

structure GuardState where
  high : Nat
  low : Nat
  deriving DecidableEq

def GuardState.initial : GuardState := ⟨0, 0⟩

inductive Action
  | stop (target : Candidate)
  | start (target : Candidate)
  | none
  deriving DecidableEq

/-- One tick of the policy. -/
def guardStep (state : GuardState) (memPercent : ℚ) (settings : Settings) (candidates : List Candidate) :
    GuardState × Action :=
  if settings.enabled = false then (.initial, .none)
  else if settings.threshold ≤ memPercent then
    let high := state.high + 1
    if SHED_AFTER_SAMPLES ≤ high then
      match pickToShed collate candidates with
      | some target => (.initial, .stop target)
      | Option.none => (⟨high, 0⟩, .none)
    else (⟨high, 0⟩, .none)
  else if memPercent ≤ settings.recover then
    let low := state.low + 1
    if RESTORE_AFTER_SAMPLES ≤ low then
      match pickToRestore collate candidates with
      | some target => (.initial, .start target)
      | Option.none => (⟨0, low⟩, .none)
    else (⟨0, low⟩, .none)
  else (.initial, .none)

/-- What one tick is given, with limits that were accepted. -/
structure Sample where
  memPercent : ℚ
  settings : Settings
  candidates : List Candidate
  accepted : validateMemoryGuardLimits settings.threshold settings.recover = Option.none

namespace Sample

variable (s : Sample)

def Over : Prop := s.settings.enabled = true ∧ s.settings.threshold ≤ s.memPercent

def Under : Prop := s.settings.enabled = true ∧ s.memPercent ≤ s.settings.recover

def Between : Prop := s.settings.recover < s.memPercent ∧ s.memPercent < s.settings.threshold

end Sample

/-- A sample with the action taken on it and the counts after it. -/
structure Tick where
  sample : Sample
  action : Action
  state : GuardState

/-- The counts after some ticks. -/
def counts (h : List Tick) : GuardState := (h.getLast?.map (·.state)).getD .initial

def tick (h : List Tick) (s : Sample) : List Tick :=
  let r := guardStep collate (counts h) s.memPercent s.settings s.candidates
  h ++ [⟨s, r.2, r.1⟩]

def ticks (samples : List Sample) : List Tick := Runs.run (tick collate) [] samples

/-- At least `n` samples in a row that satisfy `φ`, the last of them `s`, with no action before `s`. -/
def Streak (n : Nat) (φ : Sample → Prop) (before : List Tick) (s : Sample) : Prop :=
  φ s ∧ ∃ earlier streak, before = earlier ++ streak ∧ n ≤ streak.length + 1 ∧ ∀ t ∈ streak, φ t.sample ∧
    t.action = .none

/-- What the policy promises of one tick, after the ticks `before` it. -/
structure Lawful (before : List Tick) (t : Tick) : Prop where
  shed : ∀ target, t.action = .stop target →
    (target ∈ t.sample.candidates ∧ target.priority ≠ .critical ∧ target.status = .running ∧ target.shedByGuard = false) ∧
      (∀ c ∈ t.sample.candidates, c.sheddable → (shedOrder collate target c).isLE) ∧
      Streak SHED_AFTER_SAMPLES Sample.Over before t.sample
  restore : ∀ target, t.action = .start target →
    (target ∈ t.sample.candidates ∧ target.shedByGuard = true ∧ target.status = .stopped) ∧
      (∀ c ∈ t.sample.candidates, c.restorable → (restoreOrder collate target c).isLE) ∧
      Streak RESTORE_AFTER_SAMPLES Sample.Under before t.sample
  between : t.sample.Between → t.action = .none ∧ t.state = .initial

variable {collate}

theorem validateMemoryGuardLimits_gap {threshold recover : ℚ}
    (h : validateMemoryGuardLimits threshold recover = none) :
    recover < threshold := by
  rw [validateMemoryGuardLimits] at h
  split_ifs at h with h₁ h₂ h₃
  rw [MIN_GAP] at h₃
  linarith

theorem Sample.not_over_of_under {s : Sample} (h : s.Under) : ¬ s.Over := by
  intro ho
  have hg := validateMemoryGuardLimits_gap s.accepted
  exact absurd (ho.2.trans h.2) (not_le.mpr hg)

theorem Sample.Between.not_over {s : Sample} (h : s.Between) : ¬ s.Over :=
  fun ho => absurd ho.2 (not_le.mpr h.2)

theorem Sample.Between.not_under {s : Sample} (h : s.Between) : ¬ s.Under :=
  fun hu => absurd hu.2 (not_le.mpr h.1)

instance [Std.TransCmp collate] : Std.TransCmp (shedOrder collate) := by
  unfold shedOrder
  infer_instance

instance [Std.TransCmp collate] : Std.TransCmp (restoreOrder collate) := by
  unfold restoreOrder
  infer_instance

theorem pick_spec {cmp : Candidate → Candidate → Ordering} [Std.TransCmp cmp] {φ : Candidate → Bool}
    {candidates : List Candidate} {c : Candidate}
    (h : (Sorting.sort cmp (candidates.filter φ)).head? = some c) :
    c ∈ candidates ∧ φ c ∧ ∀ d ∈ candidates, φ d → (cmp c d).isLE := by
  obtain ⟨hm, hle⟩ := Sorting.sort_head h
  obtain ⟨hm, hc⟩ := List.mem_filter.mp hm
  exact ⟨hm, hc, fun d hd hs => hle d (List.mem_filter.mpr ⟨hd, hs⟩)⟩

/-- Everything one tick can do. -/
theorem guardStep_cases (state : GuardState) (s : Sample) {r : GuardState × Action}
    (hr : r = guardStep collate state s.memPercent s.settings s.candidates) :
    (s.Over ∧ ((∃ target, SHED_AFTER_SAMPLES ≤ state.high + 1 ∧ pickToShed collate s.candidates = some target ∧
        r = (.initial, .stop target)) ∨ r = (⟨state.high + 1, 0⟩, .none))) ∨
      (s.Under ∧ ((∃ target, RESTORE_AFTER_SAMPLES ≤ state.low + 1 ∧ pickToRestore collate s.candidates = some target ∧
        r = (.initial, .start target)) ∨ r = (⟨0, state.low + 1⟩, .none))) ∨
      (¬ s.Over ∧ ¬ s.Under ∧ r = (.initial, .none)) := by
  subst hr
  rw [guardStep, Sample.Over, Sample.Under]
  by_cases he : s.settings.enabled = false
  · simp [he]
  rw [if_neg he]
  rw [Bool.not_eq_false] at he
  by_cases ht : s.settings.threshold ≤ s.memPercent
  · refine Or.inl ⟨⟨he, ht⟩, ?_⟩
    rw [if_pos ht]
    dsimp only
    split_ifs with hn
    · cases hp : pickToShed collate s.candidates with
      | none => exact Or.inr rfl
      | some target => exact Or.inl ⟨target, hn, rfl, rfl⟩
    · exact Or.inr rfl
  rw [if_neg ht]
  by_cases hu : s.memPercent ≤ s.settings.recover
  · refine Or.inr (Or.inl ⟨⟨he, hu⟩, ?_⟩)
    rw [if_pos hu]
    dsimp only
    split_ifs with hn
    · cases hp : pickToRestore collate s.candidates with
      | none => exact Or.inr rfl
      | some target => exact Or.inl ⟨target, hn, rfl, rfl⟩
    · exact Or.inr rfl
  · rw [if_neg hu]
    exact Or.inr (Or.inr ⟨fun h => ht h.2, fun h => hu h.2, rfl⟩)

/-- The last `n` ticks satisfy `φ` and took no action. -/
def Row (n : Nat) (φ : Sample → Prop) (h : List Tick) : Prop :=
  ∃ earlier streak, h = earlier ++ streak ∧ streak.length = n ∧ ∀ t ∈ streak, φ t.sample ∧
    t.action = .none

theorem Row.zero (φ : Sample → Prop) (h : List Tick) : Row 0 φ h := ⟨h, [], by simp⟩

theorem Row.snoc {n : Nat} {φ : Sample → Prop} {h : List Tick} (hr : Row n φ h) {t : Tick} (ht : φ t.sample)
    (ha : t.action = .none) : Row (n + 1) φ (h ++ [t]) := by
  obtain ⟨earlier, streak, rfl, hn, hs⟩ := hr
  refine ⟨earlier, streak ++ [t], by simp, by simp [hn], ?_⟩
  rw [List.forall_mem_append, List.forall_mem_singleton]
  exact ⟨hs, ht, ha⟩

theorem Row.streak {m n : Nat} {φ : Sample → Prop} {h : List Tick} (hr : Row n φ h) (hm : m ≤ n + 1)
    {s : Sample}
    (hs : φ s) : Streak m φ h s := by
  obtain ⟨earlier, streak, he, hn, hst⟩ := hr
  exact ⟨hs, earlier, streak, he, by omega, hst⟩

/-- The counts are the lengths of the rows that end here. -/
def Counted (h : List Tick) : Prop :=
  Row (counts h).high Sample.Over h ∧ Row (counts h).low Sample.Under h

theorem counts_snoc (h : List Tick) (t : Tick) : counts (h ++ [t]) = t.state := by simp [counts]

theorem tick_spec [Std.TransCmp collate] {h : List Tick} (hc : Counted h) (s : Sample) :
    ∃ t, tick collate h s = h ++ [t] ∧ Counted (h ++ [t]) ∧ Lawful collate h t := by
  refine ⟨_, rfl, ?_⟩
  rw [Counted, counts_snoc]
  rcases @guardStep_cases collate (counts h) s _ rfl with ⟨ho, hr⟩ | ⟨hu, hr⟩ | ⟨ho, hu, hr⟩
  · have hb : ¬ s.Between := fun hb => hb.not_over ho
    rcases hr with ⟨target, hn, hp, hr⟩ | hr
    · obtain ⟨hm, hs, hle⟩ := pick_spec hp
      rw [hr]
      refine ⟨⟨Row.zero _ _, Row.zero _ _⟩, ?_, by simp, fun h => absurd h hb⟩
      rintro _ ⟨⟩
      simp only [Candidate.sheddable, decide_eq_true_eq] at hs
      exact ⟨⟨hm, hs.2.1, hs.1, hs.2.2⟩, hle, hc.1.streak hn ho⟩
    · rw [hr]
      exact ⟨⟨hc.1.snoc ho rfl, Row.zero _ _⟩, by simp, by simp, fun h => absurd h hb⟩
  · have hb : ¬ s.Between := fun hb => hb.not_under hu
    rcases hr with ⟨target, hn, hp, hr⟩ | hr
    · obtain ⟨hm, hs, hle⟩ := pick_spec hp
      rw [hr]
      refine ⟨⟨Row.zero _ _, Row.zero _ _⟩, by simp, ?_, fun h => absurd h hb⟩
      rintro _ ⟨⟩
      simp only [Candidate.restorable, decide_eq_true_eq] at hs
      exact ⟨⟨hm, hs⟩, hle, hc.2.streak hn hu⟩
    · rw [hr]
      exact ⟨⟨Row.zero _ _, hc.2.snoc hu rfl⟩, by simp, by simp, fun h => absurd h hb⟩
  · rw [hr]
    exact ⟨⟨Row.zero _ _, Row.zero _ _⟩, by simp, by simp, fun _ => ⟨rfl, rfl⟩⟩

/-- Every tick of every run keeps to the policy. -/
theorem ticks_lawful [Std.TransCmp collate] (samples : List Sample) {before after : List Tick} {t : Tick}
    (h : ticks collate samples = before ++ t :: after) : Lawful collate before t := by
  have hI : Counted (ticks collate samples) ∧
      ∀ before t after, ticks collate samples = before ++ t :: after → Lawful collate before t := by
    refine Runs.along_invariant (I := fun h => Counted h ∧ ∀ before t after, h = before ++ t :: after → Lawful collate before t)
      (φ := fun _ _ => True) ?_ ⟨⟨Row.zero Sample.Over [], Row.zero Sample.Under []⟩, by simp⟩ (Runs.along_true _ _)
    rintro h s ⟨hc, hl⟩ -
    obtain ⟨t, ht, hc', hl'⟩ := @tick_spec collate _ _ hc s
    rw [ht]
    refine ⟨hc', fun before u after he => ?_⟩
    rcases Runs.snoc_eq_append_cons he with ⟨-, rfl, rfl⟩ | ⟨v, -, rfl⟩
    · exact hl'
    · exact hl before u v rfl
  exact hI.2 _ _ _ h

def worker : Candidate := ⟨.application, "w", "worker", .low, some 500, false, .running⟩

def nearlyFull : Sample := ⟨95, ⟨true, 90, 75⟩, [worker], by decide +kernel⟩

/-- The second sample over the limit sheds the worker. -/
theorem ticks_lawful_nearlyFull :
    ∃ before t, ticks compare [nearlyFull, nearlyFull] = before ++ [t] ∧ t.action = .stop worker ∧
      Lawful compare before t := by
  refine ⟨_, _, rfl, ?_, ticks_lawful [nearlyFull, nearlyFull] rfl⟩
  have h : (90 : ℚ) ≤ 95 := by norm_num
  simp [counts, tick, guardStep, nearlyFull, h, SHED_AFTER_SAMPLES, pickToShed, Candidate.sheddable, worker, Sorting.sort,
    GuardState.initial]

end Yeah.Guard
