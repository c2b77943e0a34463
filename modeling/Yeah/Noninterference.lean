import Yeah.Keyed

namespace Yeah.Noninterference

open Keyed

variable {σ υ ι ρ ρ' ε : Type}

/-- A step on behalf of `i`: its answer and what `i` sees of its result depend on nothing but what `i` sees, and
nobody else sees a difference. -/
structure Confined (view : ι → σ → υ) (I : σ → Prop) (i : ι) (f : σ → σ × ρ) : Prop where
  keeps : ∀ s, I s → I (f s).1
  answers : ∀ s t, I s → I t → view i s = view i t → (f s).2 = (f t).2
  moves : ∀ s t, I s → I t → view i s = view i t → view i (f s).1 = view i (f t).1
  others : ∀ s j, I s → j ≠ i → view j (f s).1 = view j s

/-- One step and then another, which may depend on the answer of the first. -/
def andThen (f : σ → σ × ρ) (g : ρ → σ → σ × ρ') (s : σ) : σ × ρ' := g (f s).2 (f s).1

def mapAnswer (g : ρ → ρ') (f : σ → σ × ρ) (s : σ) : σ × ρ' := ((f s).1, g (f s).2)

section Rules

variable {view : ι → σ → υ} {I : σ → Prop} {i : ι} {f : σ → σ × ρ} {g : ρ → σ → σ × ρ'}

theorem Confined.pure (a : ρ) : Confined view I i fun s => (s, a) where
  keeps _ hs := hs
  answers _ _ _ _ _ := rfl
  moves _ _ _ _ h := h
  others _ _ _ _ := rfl

/-- An answer that is read off what `i` sees. -/
theorem Confined.read {q : σ → ρ} (hq : ∀ s t, I s → I t → view i s = view i t → q s = q t) :
    Confined view I i fun s => (s, q s) where
  keeps _ hs := hs
  answers := hq
  moves _ _ _ _ h := h
  others _ _ _ _ := rfl

theorem Confined.andThen (hf : Confined view I i f) (hg : ∀ s, I s → Confined view I i (g (f s).2)) :
    Confined view I i (Noninterference.andThen f g) where
  keeps s hs := (hg s hs).keeps _ (hf.keeps s hs)
  answers s t hs ht h := by
    rw [Noninterference.andThen, Noninterference.andThen, ← hf.answers s t hs ht h]
    exact (hg s hs).answers _ _ (hf.keeps s hs) (hf.keeps t ht) (hf.moves s t hs ht h)
  moves s t hs ht h := by
    rw [Noninterference.andThen, Noninterference.andThen, ← hf.answers s t hs ht h]
    exact (hg s hs).moves _ _ (hf.keeps s hs) (hf.keeps t ht) (hf.moves s t hs ht h)
  others s j hs hj := ((hg s hs).others _ j (hf.keeps s hs) hj).trans (hf.others s j hs hj)

theorem Confined.mapAnswer (hf : Confined view I i f) (g : ρ → ρ') :
    Confined view I i (Noninterference.mapAnswer g f) where
  keeps := hf.keeps
  answers s t hs ht h := congrArg g (hf.answers s t hs ht h)
  moves := hf.moves
  others := hf.others

/-- Where what `i` sees is a state itself, a step may be compared with the one from there. -/
theorem Confined.of_view {view : ι → σ → σ} (keeps : ∀ s, I s → I (f s).1) (answers : ∀ s, I s → (f s).2 = (f (view i s)).2)
    (moves : ∀ s, I s → view i (f s).1 = view i (f (view i s)).1)
    (others : ∀ s j, I s → j ≠ i → view j (f s).1 = view j s) : Confined view I i f where
  keeps := keeps
  answers s t hs ht h := by rw [answers s hs, answers t ht, h]
  moves s t hs ht h := by rw [moves s hs, moves t ht, h]
  others := others

end Rules

/-! ### Runs -/

section Runs

variable {view : ι → σ → υ} {I : σ → Prop} {act : σ → ε → σ × ρ} {agent : ε → ι} {i : ι}

/-- Steps that leave a view as it is may be left out of a run, where the others depend on this view only. -/
theorem run_visible {υ : Type} {view : σ → υ} {p : ε → Bool} (keeps : ∀ s e, I s → I (act s e).1)
    (hidden : ∀ s e, I s → p e = false → view (act s e).1 = view s)
    (answers : ∀ s t e, I s → I t → p e = true → view s = view t → (act s e).2 = (act t e).2)
    (moves : ∀ s t e, I s → I t → p e = true → view s = view t → view (act s e).1 = view (act t e).1)
    (es : List ε) {s t : σ} (hs : I s) (ht : I t) (hview : view s = view t) :
    ((runOne act s es).filter fun q => p q.1) = runOne act t (es.filter p) ∧
      view (finalOne act s es) = view (finalOne act t (es.filter p)) := by
  induction es generalizing s t with
  | nil => exact ⟨rfl, hview⟩
  | cons e es ih =>
      rw [runOne]
      cases hp : p e with
      | true =>
          have hrest := ih (keeps s e hs) (keeps t e ht) (moves s t e hs ht hp hview)
          rw [List.filter_cons_of_pos hp, List.filter_cons_of_pos (by simpa using hp), runOne, hrest.1,
            answers s t e hs ht hp hview]
          exact ⟨rfl, hrest.2⟩
      | false =>
          rw [List.filter_cons_of_neg (by simp [hp]), List.filter_cons_of_neg (by simp [hp])]
          exact ih (keeps s e hs) ht ((hidden s e hs hp).trans hview)

variable [DecidableEq ι]

/-- What `i` is shown is what it would be shown if nobody else took a step. -/
theorem run_alone (h : ∀ e, Confined view I (agent e) (act · e)) (es : List ε) {s t : σ} (hs : I s) (ht : I t)
    (hview : view i s = view i t) :
    ((runOne act s es).filter fun p => agent p.1 = i) = runOne act t (es.filter fun e => agent e = i) ∧
      view i (finalOne act s es) = view i (finalOne act t (es.filter fun e => agent e = i)) := by
  have hself {e : ε} (he : decide (agent e = i) = true) : Confined view I i (act · e) := of_decide_eq_true he ▸ h e
  exact run_visible (fun s e hs => (h e).keeps s hs) (fun s e hs he => (h e).others s i hs (Ne.symm (of_decide_eq_false he)))
    (fun s t e hs ht he => (hself he).answers s t hs ht) (fun s t e hs ht he => (hself he).moves s t hs ht) es hs ht hview

/-- Two runs in which `i` starts from the same view and takes the same steps show it the same answers and end in the
same view, whatever the others did in between. -/
theorem runs_agree (h : ∀ e, Confined view I (agent e) (act · e)) {es es' : List ε} {s t : σ} (hs : I s) (ht : I t)
    (hview : view i s = view i t) (hes : (es.filter fun e => agent e = i) = es'.filter fun e => agent e = i) :
    ((runOne act s es).filter fun p => agent p.1 = i) = ((runOne act t es').filter fun p => agent p.1 = i) ∧
      view i (finalOne act s es) = view i (finalOne act t es') := by
  have hfirst := run_alone h es hs ht hview
  have hsecond := run_alone h es' ht ht (rfl : view i t = view i t)
  rw [hes] at hfirst
  exact ⟨hfirst.1.trans hsecond.1.symm, hfirst.2.trans hsecond.2.symm⟩

end Runs

end Yeah.Noninterference
