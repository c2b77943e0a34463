import Mathlib.Data.List.Basic
import Mathlib.Logic.Function.Basic

namespace Yeah.Keyed

variable {κ σ ε α : Type}

/-- What a machine answers, event by event. -/
def runOne (act : σ → ε → σ × α) : σ → List ε → List (ε × α)
  | _, [] => []
  | s, e :: es => (e, (act s e).2) :: runOne act (act s e).1 es

def finalOne (act : σ → ε → σ × α) (s : σ) (es : List ε) : σ := es.foldl (fun s e => (act s e).1) s

variable [DecidableEq κ] (act : σ → ε → σ × α) (key : ε → κ)

/-- One machine for each key; an event moves the machine of its key. -/
def step (m : κ → σ) (e : ε) : (κ → σ) × α :=
  (Function.update m (key e) (act (m (key e)) e).1, (act (m (key e)) e).2)

def run : (κ → σ) → List ε → List (ε × α) := runOne (step act key)

def final : (κ → σ) → List ε → (κ → σ) := finalOne (step act key)

variable {act key}

theorem runOne_append (s : σ) (xs ys : List ε) :
    runOne act s (xs ++ ys) = runOne act s xs ++ runOne act (finalOne act s xs) ys := by
  induction xs generalizing s with
  | nil => rfl
  | cons e xs ih =>
      rw [List.cons_append, runOne, runOne, ih]
      rfl

theorem step_same (m : κ → σ) (e : ε) : (step act key m e).1 (key e) = (act (m (key e)) e).1 :=
  Function.update_self _ _ _

theorem step_other {e : ε} {k : κ} (h : key e ≠ k) (m : κ → σ) : (step act key m e).1 k = m k :=
  Function.update_of_ne (Ne.symm h) _ _

theorem final_apply (m : κ → σ) (es : List ε) (k : κ) :
    final act key m es k = finalOne act (m k) (es.filter fun e => key e = k) := by
  induction es generalizing m with
  | nil => rfl
  | cons e es ih =>
      have hrest : final act key m (e :: es) k = final act key (step act key m e).1 es k := rfl
      rw [hrest, ih]
      by_cases hk : key e = k
      · subst hk
        rw [List.filter_cons_of_pos (by simp), step_same]
        rfl
      · rw [List.filter_cons_of_neg (by simpa using hk), step_other hk]

/-- The answers for a key are those of a machine that has this key only. -/
theorem run_filter (m : κ → σ) (es : List ε) (k : κ) :
    (run act key m es).filter (fun p => key p.1 = k) = runOne act (m k) (es.filter fun e => key e = k) := by
  induction es generalizing m with
  | nil => rfl
  | cons e es ih =>
      have hrest : run act key m (e :: es) = (e, (step act key m e).2) :: run act key (step act key m e).1 es :=
        rfl
      rw [hrest]
      by_cases hk : key e = k
      · subst hk
        rw [List.filter_cons_of_pos (by simp), List.filter_cons_of_pos (by simp), ih, step_same]
        rfl
      · rw [List.filter_cons_of_neg (by simpa using hk), List.filter_cons_of_neg (by simpa using hk), ih,
          step_other hk]

theorem mem_runOne {s : σ} {es : List ε} {p : ε × α} (h : p ∈ runOne act s es) : p.1 ∈ es := by
  induction es generalizing s with
  | nil => cases h
  | cons e es ih =>
      rcases List.mem_cons.1 h with rfl | h
      · exact List.mem_cons_self
      · exact List.mem_cons_of_mem _ (ih h)

theorem run_filter_eq (m : κ → σ) (es : List ε) (k : κ) :
    (run act key m es).filter (fun p => key p.1 = k) = run act key m (es.filter fun e => key e = k) := by
  have hself : (run act key m (es.filter fun e => key e = k)).filter (fun p => key p.1 = k) =
      run act key m (es.filter fun e => key e = k) :=
    List.filter_eq_self.2 fun p hp => (List.mem_filter.1 (mem_runOne hp)).2
  rw [← hself, run_filter, run_filter, List.filter_filter]
  simp only [Bool.and_self]

end Yeah.Keyed
