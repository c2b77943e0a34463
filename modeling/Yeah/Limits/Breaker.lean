import Yeah.Keyed
import Mathlib.Algebra.Group.Nat.Defs

namespace Yeah.Limits

structure BreakerOptions where
  threshold : Nat
  baseCooldownMs : Nat
  maxCooldownMs : Nat
  threshold_pos : 0 < threshold

/-- What is kept of a key. -/
structure BreakerState where
  failures : Nat
  openUntil : Nat

inductive Transition
  | opened
  | closed
  deriving DecidableEq

/-- The calls of one key, with the clock where it is read. -/
inductive BreakerCall
  | shouldAttempt (now : Nat)
  | recordSuccess
  | recordFailure (now : Nat)
  | reset

inductive BreakerAnswer
  | attempt (allowed : Bool)
  | transition (t : Option Transition)
  | nothing

namespace Breaker

variable (options : BreakerOptions)

def shouldAttempt (state : Option BreakerState) (now : Nat) : Bool := state.all fun s => s.openUntil ≤ now

def recordSuccess (state : Option BreakerState) : Option BreakerState × Option Transition :=
  (none, state.bind fun s => if options.threshold ≤ s.failures then some .closed else none)

/-- A power of two is exact in a JavaScript number, or infinite and then over the cap. -/
def cooldown (doublings : Nat) : Nat := min (options.baseCooldownMs * 2 ^ doublings) options.maxCooldownMs

/-- `opened` on the failure that trips the circuit (first time only). -/
def recordFailure (state : Option BreakerState) (now : Nat) : Option BreakerState × Option Transition :=
  let s := state.getD ⟨0, 0⟩
  let wasOpen := options.threshold ≤ s.failures
  let failures := s.failures + 1
  let openUntil :=
    if options.threshold ≤ failures then now + cooldown options (failures - options.threshold) else s.openUntil
  (some ⟨failures, openUntil⟩, if ¬ wasOpen ∧ options.threshold ≤ failures then some .opened else none)

def act (state : Option BreakerState) : BreakerCall → Option BreakerState × BreakerAnswer
  | .shouldAttempt now => (state, .attempt (shouldAttempt state now))
  | .recordSuccess => ((recordSuccess options state).1, .transition (recordSuccess options state).2)
  | .recordFailure now => ((recordFailure options state now).1, .transition (recordFailure options state now).2)
  | .reset => (none, .nothing)

end Breaker

section Runs

open Breaker

variable {κ : Type} [DecidableEq κ] (options : BreakerOptions)

/-- A call, with its key. -/
abbrev KeyedCall (κ : Type) := κ × BreakerCall

def breakerAfter (calls : List (KeyedCall κ)) : κ → Option BreakerState :=
  Keyed.final (fun s e => act options s e.2) Prod.fst (fun _ => none) calls

def breakerAnswers (calls : List (KeyedCall κ)) : List (KeyedCall κ × BreakerAnswer) :=
  Keyed.run (fun s e => act options s e.2) Prod.fst (fun _ => none) calls

/-- The times of the failures of the key since its last success or reset. -/
def recordedFailures : List Nat → BreakerCall → List Nat
  | times, .shouldAttempt _ => times
  | _, .recordSuccess => []
  | times, .recordFailure now => times ++ [now]
  | _, .reset => []

def failuresOf (key : κ) (calls : List (KeyedCall κ)) : List Nat :=
  ((calls.filter fun c => c.1 = key).map Prod.snd).foldl recordedFailures []

/-- What happens to the circuit of a key: a transition that is reported, or a reset. -/
inductive Mark
  | transition (t : Transition)
  | reset

def markOf : KeyedCall κ × BreakerAnswer → Option Mark
  | ((_, .reset), _) => some .reset
  | (_, .transition (some t)) => some (.transition t)
  | _ => none

/-- `opened` and `closed` in turn, `opened` first, and again after a reset. -/
def Alternates : Bool → List Mark → Prop
  | _, [] => True
  | isOpen, .transition .opened :: marks => isOpen = false ∧ Alternates true marks
  | isOpen, .transition .closed :: marks => isOpen = true ∧ Alternates false marks
  | _, .reset :: marks => Alternates false marks

/-- The state that the times of the failures make. -/
def stateOf (times : List Nat) : Option BreakerState :=
  times.getLast?.map fun last =>
    ⟨times.length, if options.threshold ≤ times.length then last + cooldown options (times.length - options.threshold) else 0⟩

variable {options}

theorem act_stateOf (times : List Nat) (call : BreakerCall) :
    (act options (stateOf options times) call).1 = stateOf options (recordedFailures times call) := by
  cases call with
  | shouldAttempt now => rfl
  | recordSuccess => rfl
  | reset => rfl
  | recordFailure now =>
      have hnew : stateOf options (times ++ [now]) =
          some ⟨times.length + 1, if options.threshold ≤ times.length + 1 then now + cooldown options (times.length + 1 - options.threshold) else 0⟩ := by
        simp [stateOf]
      rw [recordedFailures, hnew]
      rcases List.eq_nil_or_concat times with rfl | ⟨init, last, rfl⟩
      · rfl
      · have hold : ¬ options.threshold ≤ (init ++ [last]).length + 1 →
          ¬ options.threshold ≤ (init ++ [last]).length := by omega
        simp only [act, recordFailure, stateOf, List.concat_eq_append, List.getLast?_concat,
          Option.map_some, Option.getD_some]
        split_ifs with hopen hwas
        · rfl
        · exact absurd hwas (hold hopen)
        · rfl

theorem breakerAfter_apply (calls : List (KeyedCall κ)) (key : κ) :
    breakerAfter options calls key = stateOf options (failuresOf key calls) := by
  rw [breakerAfter, Keyed.final_apply, failuresOf, Keyed.finalOne]
  have hnone : (none : Option BreakerState) = stateOf options [] := rfl
  rw [hnone]
  generalize ([] : List Nat) = times
  induction calls.filter fun c => c.1 = key generalizing times with
  | nil => rfl
  | cons c cs ih => rw [List.foldl_cons, List.map_cons, List.foldl_cons, act_stateOf, ih]

theorem shouldAttempt_stateOf (times : List Nat) (now : Nat) :
    shouldAttempt (stateOf options times) now = false ↔
      options.threshold ≤ times.length ∧
        ∃ last ∈ times.getLast?, now < last + cooldown options (times.length - options.threshold) := by
  rcases List.eq_nil_or_concat times with rfl | ⟨init, last, rfl⟩
  · have hpos := options.threshold_pos
    simp [shouldAttempt, stateOf]
  · by_cases hopen : options.threshold ≤ (init ++ [last]).length
    · simp_all [shouldAttempt, stateOf]
    · simp only [shouldAttempt, stateOf, List.concat_eq_append, List.getLast?_concat, Option.map_some,
        Option.all_some, if_neg hopen]
      rw [List.length_append, List.length_singleton] at hopen
      simp [hopen]

omit [DecidableEq κ] in
/-- Between a transition to open and one to closed the failures have reached the threshold. -/
theorem alternates_runOne (state : Option BreakerState) (calls : List (KeyedCall κ)) :
    Alternates (state.any fun s => options.threshold ≤ s.failures)
      ((Keyed.runOne (fun s (e : KeyedCall κ) => act options s e.2) state calls).filterMap markOf) := by
  induction calls generalizing state with
  | nil => trivial
  | cons c calls ih =>
      obtain ⟨key, call⟩ := c
      rw [Keyed.runOne, List.filterMap_cons]
      cases call with
      | shouldAttempt now => exact ih state
      | reset => exact ih none
      | recordSuccess =>
          cases state with
          | none => exact ih none
          | some s =>
              by_cases hopen : options.threshold ≤ s.failures
              · have hmark : (act options (some s) .recordSuccess).2 = .transition (some .closed) := by
                  simp [act, recordSuccess, hopen]
                rw [hmark]
                exact ⟨by simpa using hopen, ih none⟩
              · have hmark : (act options (some s) .recordSuccess).2 = .transition none := by
                  simp [act, recordSuccess, hopen]
                have hclosed : (some s).any (fun s => options.threshold ≤ s.failures) = false := by
                  simpa using hopen
                rw [hmark, hclosed]
                exact ih none
      | recordFailure now =>
          have hwas : state.any (fun s => options.threshold ≤ s.failures) =
              decide (options.threshold ≤ (state.getD ⟨0, 0⟩).failures) := by
            have hpos : options.threshold ≠ 0 := Nat.pos_iff_ne_zero.1 options.threshold_pos
            cases state <;> simp [hpos]
          have hnext := ih (act options state (.recordFailure now)).1
          have hopen : (act options state (.recordFailure now)).1.any (fun s => options.threshold ≤ s.failures) =
              decide (options.threshold ≤ (state.getD ⟨0, 0⟩).failures + 1) := by
                simp [act, recordFailure]
          rw [hopen] at hnext
          rw [hwas]
          by_cases h : options.threshold ≤ (state.getD ⟨0, 0⟩).failures
          · have hmark : (act options state (.recordFailure now)).2 = .transition none := by
              simp [act, recordFailure, h]
            rw [hmark, decide_eq_true h]
            rwa [decide_eq_true (Nat.le_succ_of_le h)] at hnext
          · by_cases h' : options.threshold ≤ (state.getD ⟨0, 0⟩).failures + 1
            · have hmark : (act options state (.recordFailure now)).2 = .transition (some .opened) := by
                simp [act, recordFailure, h, h']
              rw [hmark]
              rw [decide_eq_true h'] at hnext
              exact ⟨decide_eq_false h, hnext⟩
            · have hmark : (act options state (.recordFailure now)).2 = .transition none := by
                simp [act, recordFailure, h, h']
              rw [hmark, decide_eq_false h]
              rwa [decide_eq_false h'] at hnext

/-- Attempts are refused by the number of failures since the last success or reset and by the time of the last of them,
transitions come in turn, and keys are apart. -/
theorem breaker_states (options : BreakerOptions) (calls : List (KeyedCall κ)) (key : κ) :
    (∀ now after, ∃ allowed answers,
      breakerAnswers options (calls ++ (key, .shouldAttempt now) :: after) =
          breakerAnswers options calls ++ ((key, .shouldAttempt now), .attempt allowed) :: answers ∧
        (allowed = false ↔
          options.threshold ≤ (failuresOf key calls).length ∧
            ∃ last ∈ (failuresOf key calls).getLast?,
              now < last + min (options.baseCooldownMs * 2 ^ ((failuresOf key calls).length - options.threshold)) options.maxCooldownMs)) ∧
      Alternates false (((breakerAnswers options calls).filter fun p => p.1.1 = key).filterMap markOf) ∧
      (breakerAnswers options calls).filter (fun p => p.1.1 = key) = breakerAnswers options (calls.filter fun c => c.1 = key) := by
  refine ⟨fun now after => ?_, ?_, ?_⟩
  · refine ⟨shouldAttempt (breakerAfter options calls key) now, _, Keyed.runOne_append _ calls _, ?_⟩
    rw [breakerAfter_apply]
    exact shouldAttempt_stateOf _ now
  · rw [breakerAnswers, Keyed.run_filter]
    exact alternates_runOne none _
  · exact Keyed.run_filter_eq _ calls key

end Runs

end Yeah.Limits
