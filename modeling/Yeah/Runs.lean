import Mathlib.Data.List.Basic

namespace Yeah.Runs

variable {σ α : Type}

def run (step : σ → α → σ) (s : σ) (as : List α) : σ := as.foldl step s

/-- Every action of the run is taken in a state that allows it. -/
def Along (step : σ → α → σ) (φ : σ → α → Prop) : σ → List α → Prop
  | _, [] => True
  | s, a :: as => φ s a ∧ Along step φ (step s a) as

variable {step : σ → α → σ} {φ ψ : σ → α → Prop} {I : σ → Prop}

theorem along_true (s : σ) (as : List α) : Along step (fun _ _ => True) s as := by
  induction as generalizing s with
  | nil => trivial
  | cons a as ih => exact ⟨trivial, ih _⟩

theorem along_last {s : σ} {as : List α} {a : α} (h : Along step φ s (as ++ [a])) :
    φ (run step s as) a := by
  induction as generalizing s with
  | nil => exact h.1
  | cons b as ih => exact ih h.2

/-- The induction behind every invariant: one step, from any state that satisfies it. -/
theorem along_invariant (hstep : ∀ s a, I s → φ s a → I (step s a)) {s : σ} (hs : I s)
    {as : List α} (h : Along step φ s as) : I (run step s as) := by
  induction as generalizing s with
  | nil => exact hs
  | cons a as ih => exact ih (hstep s a hs h.1) h.2

theorem along_imp (hstep : ∀ s a, I s → φ s a → I (step s a)) (hψ : ∀ s a, I s → φ s a → ψ s a)
    {s : σ} (hs : I s) {as : List α} (h : Along step φ s as) : Along step ψ s as := by
  induction as generalizing s with
  | nil => trivial
  | cons a as ih => exact ⟨hψ s a hs h.1, ih (hstep s a hs h.1) h.2⟩

theorem along_congr (hstep : ∀ s a, I s → φ s a → I (step s a)) (h : ∀ s a, I s → (φ s a ↔ ψ s a))
    {s : σ} (hs : I s) (as : List α) : Along step φ s as ↔ Along step ψ s as := by
  induction as generalizing s with
  | nil => rfl
  | cons a as ih =>
      refine (and_congr_right fun ha => ih (hstep s a hs ha)).trans (and_congr_left fun _ => h s a hs)

/-- Where a step keeps `G` exactly if it is allowed, the runs that stay in `G` are those whose steps are all allowed. -/
theorem prefix_iff_along {G : σ → Prop} (hI : ∀ s a, I s → G s → I (step s a))
    (hG : ∀ s a, I s → G s → (G (step s a) ↔ φ s a)) {s : σ} (hs : I s) (hg : G s) (as : List α) :
    (∀ u, u <+: as → G (run step s u)) ↔ Along step φ s as := by
  induction as generalizing s with
  | nil =>
      refine ⟨fun _ => trivial, fun _ u hu => ?_⟩
      rw [List.prefix_nil.1 hu]
      exact hg
  | cons a as ih =>
      constructor
      · intro h
        have hga : G (step s a) := h [a] ⟨as, rfl⟩
        exact ⟨(hG s a hs hg).1 hga, (ih (hI s a hs hg) hga).1 fun u hu => h (a :: u) (List.cons_prefix_cons.2 ⟨rfl, hu⟩)⟩
      · rintro ⟨ha, h⟩ u hu
        cases u with
        | nil => exact hg
        | cons b u =>
            obtain ⟨rfl, hu'⟩ := List.cons_prefix_cons.1 hu
            exact (ih (hI s b hs hg) ((hG s b hs hg).2 ha)).2 h u hu'

theorem not_run {G : σ → Prop} (hstep : ∀ s a, ¬ G s → ¬ G (step s a)) {s : σ} (hs : ¬ G s)
    (as : List α) : ¬ G (run step s as) := by
  induction as generalizing s with
  | nil => exact hs
  | cons a as ih => exact ih (hstep s a hs)

/-- Where a forbidden action loses `G` for good, a run that ends in `G` took none. -/
theorem along_of_run {G : σ → Prop} (hstep : ∀ s a, ¬ G s → ¬ G (step s a))
    (hφ : ∀ s a, ¬ φ s a → ¬ G (step s a)) {s : σ} {as : List α} (h : G (run step s as)) :
    Along step φ s as := by
  induction as generalizing s with
  | nil => trivial
  | cons a as ih =>
      refine ⟨?_, ih h⟩
      by_contra hn
      exact not_run hstep (hφ s a hn) as h

theorem snoc_eq_append_cons {l u v : List α} {a b : α} (h : l ++ [a] = u ++ b :: v) :
    (v = [] ∧ l = u ∧ a = b) ∨ ∃ v', v = v' ++ [a] ∧ l = u ++ b :: v' := by
  rcases List.eq_nil_or_concat v with rfl | ⟨v', c, rfl⟩
  · obtain ⟨rfl, he⟩ := List.append_inj' h rfl
    exact Or.inl ⟨rfl, rfl, by simpa using he⟩
  · have h' : l ++ [a] = (u ++ b :: v') ++ [c] := by simpa using h
    obtain ⟨rfl, he⟩ := List.append_inj' h' rfl
    obtain rfl : a = c := by simpa using he
    exact Or.inr ⟨v', by simp, rfl⟩

/-- Every entry of a record is allowed by the entries before it. -/
def Guarded (G : List α → α → Prop) (l : List α) : Prop := ∀ u a v, l = u ++ a :: v → G u a

variable {G : List α → α → Prop} {l : List α}

theorem guarded_nil : Guarded G [] := by simp [Guarded]

theorem Guarded.snoc {a : α} (h : Guarded G l) (ha : G l a) : Guarded G (l ++ [a]) := by
  intro u b v he
  rcases snoc_eq_append_cons he with ⟨-, rfl, rfl⟩ | ⟨v', -, rfl⟩
  · exact ha
  · exact h u b v' rfl

theorem Guarded.append {t : List α} (h : Guarded G l) (ht : ∀ a ∈ t, ∀ u, G u a) :
    Guarded G (l ++ t) := by
  induction t generalizing l with
  | nil => simpa using h
  | cons a t ih =>
      rw [List.append_cons]
      exact ih (h.snoc (ht a List.mem_cons_self l)) fun b hb => ht b (List.mem_cons_of_mem _ hb)

end Yeah.Runs
