import Yeah.Runs

namespace Yeah.Resumption

/-- An asynchronous program on a shared state. At each `await` it changes the state in one go, and goes on with what it
saw there; other programs run between its awaits. -/
inductive Prog (σ ρ : Type)
  | answer (r : ρ)
  | await (move : σ → σ) (next : σ → Prog σ ρ)

variable {σ ρ α : Type}

/-- What the programs may rely on: `later` is what any of them does to the state over time, `ok a` what one move for
the actor `a` may do. -/
structure Rules (later : σ → σ → Prop) (inv : σ → Prop) (ok : α → σ → σ → Prop) : Prop where
  trans : ∀ s t u, later s t → later t u → later s u
  goes : ∀ a s t, ok a s t → later s t
  keeps : ∀ a s t, inv s → ok a s t → inv t

/-- Whatever the others do meanwhile, every move of the program is one that its actor may make. -/
def Safe (later : σ → σ → Prop) (inv : σ → Prop) (ok : σ → σ → Prop) : Prog σ ρ → σ → Prop
  | .answer _, _ => True
  | .await move next, s => ∀ t, later s t → inv t → ok t (move t) ∧ Safe later inv ok (next t) (move t)

/-- The programs under way, each with its actor. -/
structure System (σ ρ α : Type) where
  state : σ
  programs : List (α × Prog σ ρ)

inductive Move (σ ρ α : Type)
  | start (actor : α) (program : Prog σ ρ)
  | go (i : Nat)

def System.step (y : System σ ρ α) : Move σ ρ α → System σ ρ α
  | .start actor program => { y with programs := y.programs ++ [(actor, program)] }
  | .go i =>
      match y.programs[i]? with
      | some (actor, .await move next) => ⟨move y.state, y.programs.set i (actor, next y.state)⟩
      | _ => y

variable {later : σ → σ → Prop} {inv : σ → Prop} {ok : α → σ → σ → Prop}

theorem Safe.persists {s t : σ} (h : Rules later inv ok) {a : α} {p : Prog σ ρ} (hp : Safe later inv (ok a) p s) (hst : later s t) :
    Safe later inv (ok a) p t := by
  cases p with
  | answer r => trivial
  | await move next => exact fun u hu hi => hp u (h.trans s t u hst hu) hi

/-- The invariant of the system: that of the state, and every program under way is safe from here. -/
def Sound (later : σ → σ → Prop) (inv : σ → Prop) (ok : α → σ → σ → Prop) (y : System σ ρ α) : Prop :=
  inv y.state ∧ ∀ e ∈ y.programs, Safe later inv (ok e.1) e.2 y.state

/-- A move that starts a program starts one that is safe whenever the invariant holds. -/
def Starts (later : σ → σ → Prop) (inv : σ → Prop) (ok : α → σ → σ → Prop) : Move σ ρ α → Prop
  | .start actor program => ∀ s, inv s → Safe later inv (ok actor) program s
  | .go _ => True

/-- A move of the system leaves the state, or is a move that the actor of one of the programs may make. -/
theorem made (hrefl : ∀ s, later s s) {y : System σ ρ α} (hy : Sound later inv ok y) (m : Move σ ρ α) :
    (y.step m).state = y.state ∨ ∃ e ∈ y.programs, ok e.1 y.state (y.step m).state := by
  cases m with
  | start => exact Or.inl rfl
  | go i =>
      rw [System.step]
      split
      next actor move next he =>
        have hmem := List.mem_of_getElem? he
        exact Or.inr ⟨_, hmem, (hy.2 _ hmem _ (hrefl _) hy.1).1⟩
      next => exact Or.inl rfl

/-- The actors are those of the programs that were started. -/
theorem actors_step {y : System σ ρ α} {m : Move σ ρ α} {e : α × Prog σ ρ} (he : e ∈ (y.step m).programs) :
    (∃ e' ∈ y.programs, e'.1 = e.1) ∨ m = .start e.1 e.2 := by
  cases m with
  | start actor program =>
      rcases List.mem_append.1 he with he | he
      · exact Or.inl ⟨e, he, rfl⟩
      · obtain rfl := List.mem_singleton.1 he
        exact Or.inr rfl
  | go i =>
      rw [System.step] at he
      split at he
      next actor move next hi =>
        rcases List.mem_or_eq_of_mem_set he with he | rfl
        · exact Or.inl ⟨e, he, rfl⟩
        · exact Or.inl ⟨_, List.mem_of_getElem? hi, rfl⟩
      next => exact Or.inl ⟨e, he, rfl⟩

theorem sound_step (h : Rules later inv ok) (hrefl : ∀ s, later s s) {y : System σ ρ α} (hy : Sound later inv ok y)
    {m : Move σ ρ α} (hm : Starts later inv ok m) : Sound later inv ok (y.step m) := by
  cases m with
  | start actor program =>
      refine ⟨hy.1, fun e he => ?_⟩
      rcases List.mem_append.1 he with he | he
      · exact hy.2 e he
      · obtain rfl := List.mem_singleton.1 he
        exact hm _ hy.1
  | go i =>
      rw [System.step]
      split
      next actor move next he =>
        obtain ⟨hok, hnext⟩ := hy.2 _ (List.mem_of_getElem? he) _ (hrefl _) hy.1
        refine ⟨h.keeps _ _ _ hy.1 hok, fun e hmem => ?_⟩
        rcases List.mem_or_eq_of_mem_set hmem with hmem | rfl
        · exact (hy.2 e hmem).persists h (h.goes _ _ _ hok)
        · exact hnext
      next => exact hy

/-- Whatever the programs and the order of their moves, the invariant holds and every program is safe to go on. -/
theorem sound_run (h : Rules later inv ok) (hrefl : ∀ s, later s s) {y : System σ ρ α} (hy : Sound later inv ok y)
    {ms : List (Move σ ρ α)} (hms : ∀ m ∈ ms, Starts later inv ok m) : Sound later inv ok (Runs.run System.step y ms) := by
  induction ms generalizing y with
  | nil => exact hy
  | cons m ms ih =>
      have hstep := sound_step h hrefl hy (hms m List.mem_cons_self)
      exact ih hstep fun m' hm' => hms m' (List.mem_cons_of_mem _ hm')

/-- What every move of certain actors does to the state, a run with no other actors does to it. -/
theorem related_run (h : Rules later inv ok) (hrefl : ∀ s, later s s) {R : σ → σ → Prop} (hR : ∀ s, R s s)
    (htrans : ∀ s t u, R s t → R t u → R s u) {A : α → Prop} (hA : ∀ a s t, A a → inv s → ok a s t → R s t)
    {y : System σ ρ α} (hy : Sound later inv ok y) (hactors : ∀ e ∈ y.programs, A e.1) {ms : List (Move σ ρ α)}
    (hms : ∀ m ∈ ms, Starts later inv ok m) (hstarted : ∀ a p, .start a p ∈ ms → A a) :
    R y.state (Runs.run System.step y ms).state := by
  induction ms generalizing y with
  | nil => exact hR _
  | cons m ms ih =>
      have hstep := sound_step h hrefl hy (hms m List.mem_cons_self)
      have hactors' : ∀ e ∈ (y.step m).programs, A e.1 := by
        intro e he
        rcases actors_step he with ⟨e', he', heq⟩ | rfl
        · exact heq ▸ hactors e' he'
        · exact hstarted _ _ List.mem_cons_self
      have hfirst : R y.state (y.step m).state := by
        rcases made hrefl hy m with hsame | ⟨e, he, hok⟩
        · exact hsame ▸ hR _
        · exact hA e.1 _ _ (hactors e he) hy.1 hok
      refine htrans _ _ _ hfirst (ih hstep hactors' (fun m' hm' => hms m' (List.mem_cons_of_mem _ hm')) fun a p hp => ?_)
      exact hstarted a p (List.mem_cons_of_mem _ hp)

end Yeah.Resumption
