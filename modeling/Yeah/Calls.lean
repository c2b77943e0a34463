import Mathlib.Data.List.Basic

namespace Yeah.Calls

variable {C : Type} {R : C → Type} {α β : Type}

/-- A call with its reply, or an exception that the program raised itself. -/
inductive Event (R : C → Type)
  | called (c : C) (reply : Except String (R c))
  | raised (message : String)

/-- Whatever replies to the calls; it may depend on all that happened before. -/
abbrev Env (R : C → Type) := List (Event R) → (c : C) → Except String (R c)

/-- A program that awaits one call after the other, on a growing record of events. -/
def Prog (R : C → Type) (α : Type) := Env R → List (Event R) → Except String α × List (Event R)

namespace Prog

def bind (p : Prog R α) (k : α → Prog R β) : Prog R β := fun env h =>
  match p env h with
  | (.ok a, h) => k a env h
  | (.error m, h) => (.error m, h)

instance : Monad (Prog R) where
  pure a := fun _ h => (.ok a, h)
  bind := bind

def call (c : C) : Prog R (R c) := fun env h => (env h c, h ++ [.called c (env h c)])

def raise (m : String) : Prog R α := fun _ h => (.error m, h ++ [.raised m])

def past : Prog R (List (Event R)) := fun _ h => (.ok h, h)

/-- `try … catch` -/
def attempt (p : Prog R α) (handler : String → Prog R α) : Prog R α := fun env h =>
  match p env h with
  | (.ok a, h) => (.ok a, h)
  | (.error m, h) => handler m env h

/-- `try … finally` -/
def ensure (p : Prog R α) (f : Prog R Unit) : Prog R α := fun env h =>
  let r := p env h
  match f env r.2 with
  | (.ok _, h) => (r.1, h)
  | (.error m, h) => (.error m, h)

/-- `.catch(() => undefined)` -/
def swallow (p : Prog R Unit) : Prog R Unit := attempt p fun _ => pure ()

def when (c : Bool) (p : Prog R Unit) : Prog R Unit := if c then p else pure ()

def each (f : α → Prog R Unit) : List α → Prog R Unit
  | [] => pure ()
  | a :: as => f a >>= fun _ => each f as

@[simp]
theorem pure_run (a : α) (env : Env R) (h : List (Event R)) : (pure a : Prog R α) env h = (.ok a, h) :=
  rfl

theorem pure_then (a : α) (k : α → Prog R β) : (pure a : Prog R α) >>= k = k a := rfl

theorem then_then {γ : Type} (p : Prog R α) (k : α → Prog R β) (l : β → Prog R γ) :
    p >>= k >>= l = p >>= fun a => k a >>= l := by
  funext env h
  change bind (bind p k) l env h = bind p (fun a => bind (k a) l) env h
  unfold bind
  rcases p env h with ⟨_ | _, _⟩ <;> rfl

theorem call_then {c : C} {k : R c → Prog R β} {env : Env R} {h : List (Event R)} {a : R c}
    (hc : env h c = .ok a) :
    (call c >>= k) env h = k a env (h ++ [.called c (.ok a)]) := by
  change bind (call c) k env h = _
  simp [bind, call, hc]

theorem call_then_error {c : C} {k : R c → Prog R β} {env : Env R} {h : List (Event R)} {m : String}
    (hc : env h c = .error m) : (call c >>= k) env h = (.error m, h ++ [.called c (.error m)]) := by
  change bind (call c) k env h = _
  simp [bind, call, hc]

def Returns (p : Prog R α) (Q : α → Prop) : Prop := ∀ env h a, (p env h).1 = .ok a → Q a

theorem returns_pure {a : α} {Q : α → Prop} (h : Q a) : Returns (pure a : Prog R α) Q := by
  intro env l b hb
  cases hb
  exact h

theorem returns_bind {p : Prog R α} {k : α → Prog R β} {Q : β → Prop} (hk : ∀ a, Returns (k a) Q) :
    Returns (p >>= k) Q := by
  intro env h b hb
  change (bind p k env h).1 = _ at hb
  unfold bind at hb
  split at hb
  · next a l ha => exact hk a env l b hb
  · cases hb

/-- What the program adds to the record, and how it ends. -/
def Does (p : Prog R α) (Φ : Except String α → List (Event R) → Prop) : Prop :=
  ∀ env h, ∃ t, (p env h).2 = h ++ t ∧ Φ (p env h).1 t

variable {p : Prog R α} {k : α → Prog R β} {Φ Ψ : Except String α → List (Event R) → Prop}

theorem Does.imp (hp : Does p Φ) (h : ∀ r t, Φ r t → Ψ r t) : Does p Ψ := fun env l =>
  (hp env l).imp fun t ht => ⟨ht.1, h _ t ht.2⟩

theorem Does.and (hp : Does p Φ) (hq : Does p Ψ) : Does p fun r t => Φ r t ∧ Ψ r t := by
  intro env l
  obtain ⟨t, ht, h⟩ := hp env l
  obtain ⟨t', ht', h'⟩ := hq env l
  obtain rfl : t = t' := List.append_cancel_left (ht.symm.trans ht')
  exact ⟨t, ht, h, h'⟩

theorem does_pure (a : α) (h : Φ (.ok a) []) : Does (pure a) Φ := fun _ _ => ⟨[], by simp, h⟩

theorem does_call (c : C) {Φ : Except String (R c) → List (Event R) → Prop} (h : ∀ r, Φ r [.called c r]) :
    Does (call c) Φ := fun env l => ⟨_, rfl, h (env l c)⟩

theorem does_raise (m : String) (h : Φ (.error m) [.raised m]) : Does (raise m) Φ :=
  fun _ _ => ⟨_, rfl, h⟩

theorem does_bind {Ψ : α → Except String β → List (Event R) → Prop} (hp : Does p Φ)
    (hk : ∀ a, Does (k a) (Ψ a)) :
    Does (p >>= k) fun r t => (∃ m, r = .error m ∧ Φ (.error m) t) ∨ ∃ a t₁ t₂, t = t₁ ++ t₂ ∧
      Φ (.ok a) t₁ ∧ Ψ a r t₂ := by
  intro env h
  obtain ⟨t₁, ht₁, h₁⟩ := hp env h
  change ∃ t, (bind p k env h).2 = h ++ t ∧ _
  rcases hr : p env h with ⟨r, h'⟩
  rw [hr] at ht₁ h₁
  cases r with
  | error m =>
      refine ⟨t₁, ?_, Or.inl ⟨m, ?_, h₁⟩⟩
      · simpa [bind, hr] using ht₁
      · change (bind p k env h).1 = _
        simp [bind, hr]
  | ok a =>
      obtain ⟨t₂, ht₂, h₂⟩ := hk a env h'
      have hrun : bind p k env h = k a env h' := by simp [bind, hr]
      refine ⟨t₁ ++ t₂, ?_, Or.inr ⟨a, t₁, t₂, rfl, h₁, ?_⟩⟩
      · rw [hrun, ht₂]
        simp only at ht₁
        rw [ht₁, List.append_assoc]
      · change Ψ a (bind p k env h).1 t₂
        rwa [hrun]

theorem does_attempt {handler : String → Prog R α} {Ψ : String → Except String α → List (Event R) → Prop}
    (hp : Does p Φ) (hh : ∀ m, Does (handler m) (Ψ m)) :
    Does (attempt p handler) fun r t => (∃ a, r = .ok a ∧ Φ (.ok a) t) ∨
      ∃ m t₁ t₂, t = t₁ ++ t₂ ∧ Φ (.error m) t₁ ∧ Ψ m r t₂ := by
  intro env h
  obtain ⟨t₁, ht₁, h₁⟩ := hp env h
  rcases hr : p env h with ⟨r, h'⟩
  rw [hr] at ht₁ h₁
  cases r with
  | ok a =>
      refine ⟨t₁, ?_, Or.inl ⟨a, ?_, h₁⟩⟩
      · simpa [attempt, hr] using ht₁
      · simp [attempt, hr]
  | error m =>
      obtain ⟨t₂, ht₂, h₂⟩ := hh m env h'
      have hrun : attempt p handler env h = handler m env h' := by simp [attempt, hr]
      refine ⟨t₁ ++ t₂, ?_, Or.inr ⟨m, t₁, t₂, rfl, h₁, ?_⟩⟩
      · rw [hrun, ht₂]
        simp only at ht₁
        rw [ht₁, List.append_assoc]
      · rwa [hrun]

theorem does_ensure {f : Prog R Unit} {Ψ : Except String Unit → List (Event R) → Prop} (hp : Does p Φ)
    (hf : Does f Ψ) :
    Does (ensure p f) fun r t => ∃ r' u t₁ t₂, t = t₁ ++ t₂ ∧ Φ r' t₁ ∧ Ψ u t₂ ∧
      (u = .ok () → r = r') := by
  intro env h
  obtain ⟨t₁, ht₁, h₁⟩ := hp env h
  obtain ⟨t₂, ht₂, h₂⟩ := hf env (p env h).2
  rcases hr : f env (p env h).2 with ⟨u, h'⟩
  rw [hr] at ht₂ h₂
  refine ⟨t₁ ++ t₂, ?_, (p env h).1, u, t₁, t₂, rfl, h₁, h₂, ?_⟩
  · simp only at ht₂
    rw [← List.append_assoc, ← ht₁, ← ht₂]
    cases u <;> simp [ensure, hr]
  · rintro rfl
    simp [ensure, hr]

def Only (φ : Event R → Prop) (p : Prog R α) : Prop := Does p fun _ t => ∀ e ∈ t, φ e

/-- Every event is one of `φ`, and the program ends normally exactly if none of them is a failure. -/
def Steps (F φ : Event R → Prop) (p : Prog R α) : Prop :=
  Does p fun r t => (∀ e ∈ t, φ e) ∧ ((∃ a, r = .ok a) ↔ ∀ e ∈ t, ¬ F e)

variable {F φ ψ : Event R → Prop}

theorem Only.imp (hp : Only φ p) (h : ∀ e, φ e → ψ e) : Only ψ p :=
  Does.imp hp fun _ _ ht e he => h e (ht e he)

theorem Steps.imp (hp : Steps F φ p) (h : ∀ e, φ e → ψ e) : Steps F ψ p :=
  Does.imp hp fun _ _ ht => ⟨fun e he => h e (ht.1 e he), ht.2⟩

theorem Steps.only (hp : Steps F φ p) : Only φ p := Does.imp hp fun _ _ ht => ht.1

theorem Steps.congr {F' : Event R → Prop} (hp : Steps F φ p) (h : ∀ e, φ e → (F e ↔ F' e)) :
    Steps F' φ p := by
  refine Does.imp hp fun r t ht => ⟨ht.1, ht.2.trans ?_⟩
  exact forall₂_congr fun e he => not_congr (h e (ht.1 e he))

theorem only_pure (a : α) : Only φ (pure a : Prog R α) := does_pure a nofun

theorem only_call {c : C} (h : ∀ r, φ (.called c r)) : Only φ (call c : Prog R (R c)) :=
  does_call c fun r _ he => List.mem_singleton.1 he ▸ h r

theorem only_past : Only φ (past : Prog R (List (Event R))) := by
  intro env h
  exact ⟨[], (List.append_nil h).symm, by simp⟩

theorem only_bind (hp : Only φ p) (hk : ∀ a, Only φ (k a)) : Only φ (p >>= k) := by
  refine Does.imp (does_bind hp hk) fun r t ht => ?_
  rcases ht with ⟨m, -, ht⟩ | ⟨a, t₁, t₂, rfl, h₁, h₂⟩
  · exact ht
  · exact fun e he => (List.mem_append.1 he).elim (h₁ e) (h₂ e)

theorem only_when {c : Bool} {p : Prog R Unit} (hp : Only φ p) : Only φ (when c p) := by
  unfold when
  split
  · exact hp
  · exact only_pure ()

theorem only_attempt {handler : String → Prog R α} (hp : Only φ p) (hh : ∀ m, Only φ (handler m)) :
    Only φ (attempt p handler) := by
  refine Does.imp (does_attempt hp hh) fun r t ht => ?_
  rcases ht with ⟨a, -, ht⟩ | ⟨m, t₁, t₂, rfl, h₁, h₂⟩
  · exact ht
  · exact fun e he => (List.mem_append.1 he).elim (h₁ e) (h₂ e)

theorem only_swallow {p : Prog R Unit} (hp : Only φ p) : Only φ (swallow p) :=
  only_attempt hp fun _ => only_pure ()

theorem only_ensure {f : Prog R Unit} (hp : Only φ p) (hf : Only φ f) : Only φ (ensure p f) := by
  refine Does.imp (does_ensure hp hf) ?_
  rintro r t ⟨r', u, t₁, t₂, rfl, h₁, h₂, -⟩ e he
  exact (List.mem_append.1 he).elim (h₁ e) (h₂ e)

theorem steps_pure (a : α) : Steps F φ (pure a : Prog R α) :=
  does_pure a ⟨nofun, fun _ => nofun, fun _ => ⟨a, rfl⟩⟩

theorem steps_raise {m : String} (hF : F (.raised m)) (hφ : φ (.raised m)) :
    Steps F φ (raise m : Prog R α) := by
  refine does_raise m ⟨fun _ he => List.mem_singleton.1 he ▸ hφ, nofun, fun h => ?_⟩
  exact absurd hF (h _ List.mem_cons_self)

theorem steps_call {c : C} (hφ : ∀ r, φ (.called c r)) (hok : ∀ a, ¬ F (.called c (.ok a)))
    (herror : ∀ m, F (.called c (.error m))) : Steps F φ (call c : Prog R (R c)) := by
  refine does_call c fun r => ⟨fun e he => List.mem_singleton.1 he ▸ hφ r, ?_⟩
  cases r with
  | ok a => simpa using hok a
  | error m => simpa using herror m

theorem steps_bind (hp : Steps F φ p) (hk : ∀ a, Steps F φ (k a)) : Steps F φ (p >>= k) := by
  refine Does.imp (does_bind hp hk) fun r t ht => ?_
  rcases ht with ⟨m, rfl, hφ, ht⟩ | ⟨a, t₁, t₂, rfl, ⟨hφ₁, h₁⟩, hφ₂, h₂⟩
  · refine ⟨hφ, nofun, fun hn => ?_⟩
    obtain ⟨a, ha⟩ := ht.2 hn
    cases ha
  · have hn := h₁.1 ⟨a, rfl⟩
    refine ⟨fun e he => (List.mem_append.1 he).elim (hφ₁ e) (hφ₂ e), fun hr e he => ?_, fun hn => ?_⟩
    · exact (List.mem_append.1 he).elim (hn e) (h₂.1 hr e)
    · exact h₂.2 fun e he => hn e (List.mem_append_right _ he)

theorem steps_ite {c : Prop} [Decidable c] {p q : Prog R α} (hp : c → Steps F φ p)
    (hq : ¬ c → Steps F φ q) :
    Steps F φ (if c then p else q) := by
  split
  · next h => exact hp h
  · next h => exact hq h

theorem steps_when {c : Bool} {p : Prog R Unit} (hp : c = true → Steps F φ p) : Steps F φ (when c p) :=
  steps_ite hp fun _ => steps_pure ()

theorem steps_each {f : α → Prog R Unit} {as : List α} (hf : ∀ a ∈ as, Steps F φ (f a)) :
    Steps F φ (each f as) := by
  induction as with
  | nil => exact steps_pure ()
  | cons a as ih => exact steps_bind (hf a List.mem_cons_self) fun _ => ih fun b hb => hf b (List.mem_cons_of_mem _ hb)

theorem steps_swallow {p : Prog R Unit} (hp : Only (fun e => φ e ∧ ¬ F e) p) : Steps F φ (swallow p) := by
  have hpure : ∀ _ : String, Does (pure () : Prog R Unit) fun r t => r = .ok () ∧ t = [] :=
    fun _ => does_pure () ⟨rfl, rfl⟩
  refine Does.imp (does_attempt hp hpure) fun r t ht => ?_
  rcases ht with ⟨a, rfl, ht⟩ | ⟨m, t₁, t₂, rfl, h₁, rfl, rfl⟩
  · exact ⟨fun e he => (ht e he).1, fun _ e he => (ht e he).2, fun _ => ⟨a, rfl⟩⟩
  · rw [List.append_nil]
    exact ⟨fun e he => (h₁ e he).1, fun _ e he => (h₁ e he).2, fun _ => ⟨(), rfl⟩⟩

/-- From a record with `P` the program ends normally with `Q`, or in an exception with `E`. -/
def Triple (P : List (Event R) → Prop) (p : Prog R α) (Q : α → List (Event R) → Prop)
    (E : List (Event R) → Prop) : Prop :=
  ∀ env h, P h → match (p env h).1 with
    | .ok a => Q a (p env h).2
    | .error _ => E (p env h).2

variable {P : List (Event R) → Prop} {Q : α → List (Event R) → Prop} {E : List (Event R) → Prop}

theorem triple_bind {S : β → List (Event R) → Prop} (hp : Triple P p Q E)
    (hk : ∀ a, Triple (Q a) (k a) S E) :
    Triple P (p >>= k) S E := by
  intro env h hP
  have h₁ := hp env h hP
  rcases hr : p env h with ⟨r, h'⟩
  rw [hr] at h₁
  cases r with
  | ok a =>
      have hrun : (p >>= k) env h = k a env h' := by simp [Bind.bind, bind, hr]
      rw [hrun]
      exact hk a env h' h₁
  | error m =>
      have hrun : (p >>= k) env h = (.error m, h') := by simp [Bind.bind, bind, hr]
      rw [hrun]
      exact h₁

theorem triple_pure {a : α} (h : ∀ l, P l → Q a l) : Triple P (pure a) Q E := fun _ l hP => h l hP

theorem triple_call {c : C} {Q : R c → List (Event R) → Prop}
    (hok : ∀ l a, P l → Q a (l ++ [.called c (.ok a)]))
    (herror : ∀ l m, P l → E (l ++ [.called c (.error m)])) : Triple P (call c) Q E := by
  intro env l hP
  cases hr : env l c with
  | ok a => simpa [call, hr] using hok l a hP
  | error m => simpa [call, hr] using herror l m hP

theorem triple_raise {m : String} (h : ∀ l, P l → E (l ++ [.raised m])) :
    Triple P (raise m : Prog R α) Q E :=
  fun _ l hP => h l hP

/-- What is known of a part as a whole. -/
theorem triple_of_steps {Q : List (Event R) → Prop} (hp : Steps F φ p)
    (hok : ∀ l t, P l → (∀ e ∈ t, φ e ∧ ¬ F e) → Q (l ++ t))
    (herror : ∀ l t, P l → (∀ e ∈ t, φ e) → E (l ++ t)) :
    Triple P p (fun _ => Q) E := by
  intro env l hP
  obtain ⟨t, ht, hφ, hF⟩ := hp env l
  rw [ht]
  cases hr : (p env l).1 with
  | ok a => exact hok l t hP fun e he => ⟨hφ e he, hF.1 ⟨a, hr⟩ e he⟩
  | error m => exact herror l t hP hφ

theorem Triple.returns {Q' : α → Prop} (hp : Triple P p Q E) (hr : Returns p Q') :
    Triple P p (fun a l => Q' a ∧ Q a l) E := by
  intro env l hP
  have h := hp env l hP
  split at h
  · next a ha => exact ⟨hr env l a ha, h⟩
  · exact h

theorem triple_of_only (hp : Only φ p) (h : ∀ l t, P l → (∀ e ∈ t, φ e) → E (l ++ t)) :
    Triple P p (fun _ => E) E := by
  intro env l hP
  obtain ⟨t, ht, hφ⟩ := hp env l
  rw [ht]
  split
  · exact h l t hP hφ
  · exact h l t hP hφ

theorem triple_attempt {handler : String → Prog R α} {E' : List (Event R) → Prop} (hp : Triple P p Q E)
    (hh : ∀ m, Triple E (handler m) Q E') : Triple P (attempt p handler) Q E' := by
  intro env l hP
  have h₁ := hp env l hP
  rcases hr : p env l with ⟨r, h'⟩
  rw [hr] at h₁
  cases r with
  | ok a =>
      have hrun : attempt p handler env l = (.ok a, h') := by simp [attempt, hr]
      rw [hrun]
      exact h₁
  | error m =>
      have hrun : attempt p handler env l = handler m env h' := by simp [attempt, hr]
      rw [hrun]
      exact hh m env h' h₁

/-- The `finally` runs after either end. -/
theorem triple_ensure {f : Prog R Unit} (hp : Triple P p (fun _ => E) E) (hf : Triple E f (fun _ => E) E) :
    Triple P (ensure p f) (fun _ => E) E := by
  intro env l hP
  have h₁ : E (p env l).2 := by
    have h := hp env l hP
    split at h <;> exact h
  have h₂ : E (f env (p env l).2).2 := by
    have h := hf env _ h₁
    split at h <;> exact h
  have hrun : (ensure p f env l).2 = (f env (p env l).2).2 := by
    unfold ensure
    dsimp only
    split
    · next h => rw [h]
    · next h => rw [h]
  split <;> exact hrun ▸ h₂

theorem Triple.imp {P' : List (Event R) → Prop} {Q' : α → List (Event R) → Prop}
    {E' : List (Event R) → Prop}
    (hp : Triple P p Q E) (hP : ∀ l, P' l → P l) (hQ : ∀ a l, Q a l → Q' a l) (hE : ∀ l, E l → E' l) :
    Triple P' p Q' E' := by
  intro env l h
  have h' := hp env l (hP l h)
  split at h'
  · exact hQ _ _ h'
  · exact hE _ h'

end Prog

end Yeah.Calls
