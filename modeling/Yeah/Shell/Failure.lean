import Yeah.Shell.Command

namespace Yeah.Shell

variable {Q F D W : Type}

/-- Every program that the command can run, whatever the variables hold, satisfies `φ`. -/
def Cmd.All (φ : Q → Prop) (a : Cmd Q F D) : Prop := ∀ p ∈ a.programs, ∀ v, φ (p v)

namespace Machine

variable (M : Machine Q F D W)

def Ran (φ : Q → Prop) (r : Result Q D W) : Prop := ∀ e ∈ r.log, φ e.1

theorem ran_after {φ : Q → Prop} {r : Result Q D W} {k : State D W → Result Q D W}
    (hr : Ran φ r) (hk : ∀ s, Ran φ (k s)) : Ran φ (M.after r k) := by
  intro e he
  rcases List.mem_append.mp he with h | h
  · exact hr e h
  · exact hk _ e h

theorem loop_ran {φ : Q → Prop} (body : D → State D W → Result Q D W)
    (hb : ∀ d s, Ran φ (body d s)) (ds : List D) (s : State D W) : Ran φ (M.loop body ds s) := by
  induction ds generalizing s with
  | nil => intro e he; cases he
  | cons d ds ih =>
      by_cases hx : (body d s).exited
      · simpa [loop, hx] using hb d s
      · simpa [loop, hx] using M.ran_after (hb d s) ih

theorem eval_ran {φ : Q → Prop} (a : Cmd Q F D) (ha : a.All φ) (i : D) (s : State D W) :
    Ran φ (M.eval a i s) := by
  induction a generalizing i s with
  | run p =>
      intro e he
      obtain rfl := List.mem_singleton.mp he
      exact ha p (List.mem_singleton.mpr rfl) s.vars
  | nop | set | status | exit => intro e he; cases he
  | assign x a ih => exact ih ha i s
  | seq a b iha ihb | and a b iha ihb | or a b iha ihb =>
      obtain ⟨h₁, h₂⟩ := List.forall_mem_append.mp ha
      simp only [eval]
      split
      · exact iha h₁ i s
      · exact M.ran_after (iha h₁ i s) (ihb h₂ i)
  | pipe a b iha ihb =>
      obtain ⟨h₁, h₂⟩ := List.forall_mem_append.mp ha
      intro e he
      rcases List.mem_append.mp he with h | h
      · exact iha h₁ i s e h
      · exact ihb h₂ _ _ e h
  | ite c a b ihc iha ihb =>
      obtain ⟨h, h'⟩ := List.forall_mem_append.mp ha
      obtain ⟨h₁, h₂⟩ := List.forall_mem_append.mp h'
      simp only [eval]
      split
      · exact ihc h i s
      · refine M.ran_after (ihc h i s) fun s' => ?_
        split
        · exact iha h₁ i s'
        · exact ihb h₂ i s'
  | sub a ih => exact ih ha i s
  | within p a ih =>
      obtain ⟨h₁, h₂⟩ := List.forall_mem_cons.mp ha
      have hp : Ran φ (M.call (p s.vars) i s) := by
        intro e he
        obtain rfl := List.mem_singleton.mp he
        exact h₁ s.vars
      simp only [eval]
      split
      · exact hp
      · intro e he
        rcases List.mem_append.mp he with h | h
        · exact hp e h
        · exact ih h₂ _ _ e h
  | out a f ih => exact ih ha i s
  | inp a f ih =>
      simp only [eval]
      split
      · intro e he; cases he
      · exact ih ha _ s
  | each x f a ih => exact M.loop_ran _ (fun d s => ih ha i _) _ _

variable (T : Q → Prop)

def Failed (r : Result Q D W) : Prop := ∃ e ∈ r.log, T e.1 ∧ e.2 ≠ 0

/-- A failure of a program in `T` is seen in the status of the command. -/
def Reports (a : Cmd Q F D) : Prop :=
  ∀ i s, Failed T (M.eval a i s) → (M.eval a i s).state.status ≠ 0

/-- A failure of a program in `T` leaves the shell with a status other than 0. -/
def Aborts (a : Cmd Q F D) : Prop :=
  ∀ i s, Failed T (M.eval a i s) → (M.eval a i s).exited = true ∧ (M.eval a i s).state.status ≠ 0

def Silent (a : Cmd Q F D) : Prop := a.All (fun q => ¬ T q)

variable {M T}

theorem Silent.not_failed {a : Cmd Q F D} (h : Silent T a) (i : D) (s : State D W) :
    ¬ Failed T (M.eval a i s) := fun ⟨e, he, ht, _⟩ => M.eval_ran a h i s e he ht

theorem Silent.reports {a : Cmd Q F D} (h : Silent T a) : Reports M T a :=
  fun i s hf => absurd hf (h.not_failed i s)

theorem Silent.aborts {a : Cmd Q F D} (h : Silent T a) : Aborts M T a :=
  fun i s hf => absurd hf (h.not_failed i s)

theorem Aborts.reports {a : Cmd Q F D} (h : Aborts M T a) : Reports M T a := fun i s hf => (h i s hf).2

theorem failed_after {r : Result Q D W} {k : State D W → Result Q D W}
    (h : Failed T (M.after r k)) : Failed T r ∨ Failed T (k r.state) := by
  obtain ⟨e, he, ht⟩ := h
  exact (List.mem_append.mp he).imp (fun h => ⟨e, h, ht⟩) (fun h => ⟨e, h, ht⟩)

theorem reports_run (p : Vars D → Q) : Reports M T (.run p : Cmd Q F D) := by
  rintro i s ⟨e, he, -, hn⟩
  obtain rfl := List.mem_singleton.mp he
  exact hn

theorem Reports.and {a b : Cmd Q F D} (ha : Reports M T a) (hb : Reports M T b) :
    Reports M T (.and a b) := by
  intro i s hf
  simp only [eval] at hf ⊢
  split_ifs at hf ⊢ with h
  · exact ha i s hf
  · rw [not_or, not_not] at h
    rcases failed_after hf with hf | hf
    · exact absurd h.2 (ha i s hf)
    · exact hb i _ hf

theorem Aborts.seq {a b : Cmd Q F D} (ha : Aborts M T a) (hb : Aborts M T b) :
    Aborts M T (.seq a b) := by
  intro i s hf
  simp only [eval] at hf ⊢
  split_ifs at hf ⊢ with h
  · exact ha i s hf
  · rcases failed_after hf with hf | hf
    · exact absurd (ha i s hf).1 h
    · exact hb i _ hf

theorem Reports.or_exit {a : Cmd Q F D} {n : Nat} (ha : Reports M T a) (hn : n ≠ 0) :
    Aborts M T (.or a (.exit fun _ => n)) := by
  intro i s hf
  simp only [eval] at hf ⊢
  split_ifs at hf ⊢ with h
  · rcases h with h | h
    · exact ⟨h, ha i s hf⟩
    · exact absurd h (ha i s hf)
  · exact ⟨rfl, hn⟩

theorem Reports.ite {c a b : Cmd Q F D} (hc : Silent T c) (ha : Reports M T a) (hb : Reports M T b) :
    Reports M T (.ite c a b) := by
  intro i s hf
  simp only [eval] at hf ⊢
  split_ifs at hf ⊢ with h
  · exact absurd hf (hc.not_failed i s)
  · rcases failed_after hf with hf | hf
    · exact absurd hf (hc.not_failed i s)
    · simp only [after]
      split_ifs at hf ⊢ with h'
      · exact ha i _ hf
      · exact hb i _ hf

theorem Reports.out {a : Cmd Q F D} (ha : Reports M T a) (f : Vars D → F) : Reports M T (.out a f) :=
  fun i s hf => ha i s hf

theorem Reports.inp {a : Cmd Q F D} (ha : Reports M T a) (f : Vars D → F) : Reports M T (.inp a f) := by
  intro i s hf
  simp only [eval] at hf ⊢
  split at hf
  · obtain ⟨e, he, -⟩ := hf
    cases he
  · exact ha _ s hf

theorem loop_aborts {body : D → State D W → Result Q D W}
    (hb : ∀ d s, Failed T (body d s) → (body d s).exited = true ∧ (body d s).state.status ≠ 0)
    (ds : List D) (s : State D W) (hf : Failed T (M.loop body ds s)) :
    (M.loop body ds s).exited = true ∧ (M.loop body ds s).state.status ≠ 0 := by
  induction ds generalizing s with
  | nil => obtain ⟨e, he, -⟩ := hf; cases he
  | cons d ds ih =>
      simp only [loop] at hf ⊢
      split_ifs at hf ⊢ with h
      · exact hb d s hf
      · rcases failed_after hf with hf | hf
        · exact absurd (hb d s hf).1 h
        · exact ih _ hf

theorem Aborts.each {a : Cmd Q F D} (ha : Aborts M T a) (x : String) (f : Vars D → F) :
    Aborts M T (.each x f a) := fun i _ hf => loop_aborts (fun d s => ha i (s.set x d)) _ _ hf

end Machine

end Yeah.Shell
