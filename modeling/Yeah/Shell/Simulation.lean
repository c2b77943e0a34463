import Yeah.Shell.Failure

namespace Yeah.Shell

variable {Q F D W V : Type}

def State.map (view : W → V) (s : State D W) : State D V := ⟨s.vars, view s.world, s.status⟩

def Result.map (view : W → V) (r : Result Q D W) : Result Q D V :=
  ⟨r.state.map view, r.out, r.log, r.exited⟩

@[simp] theorem State.map_vars (view : W → V) (s : State D W) : (s.map view).vars = s.vars := rfl
@[simp] theorem State.map_status (view : W → V) (s : State D W) : (s.map view).status = s.status := rfl
@[simp] theorem State.map_world (view : W → V) (s : State D W) : (s.map view).world = view s.world := rfl
@[simp] theorem Result.map_state (view : W → V) (r : Result Q D W) :
    (r.map view).state = r.state.map view := rfl
@[simp] theorem Result.map_out (view : W → V) (r : Result Q D W) : (r.map view).out = r.out := rfl
@[simp] theorem Result.map_log (view : W → V) (r : Result Q D W) : (r.map view).log = r.log := rfl
@[simp] theorem Result.map_exited (view : W → V) (r : Result Q D W) : (r.map view).exited = r.exited :=
  rfl

namespace Machine

/-- On the programs in `φ` and on files, `N` does with the view of a world what `M` does with the world. -/
structure Simulates (M : Machine Q F D W) (N : Machine Q F D V) (φ : Q → Prop) (view : W → V) : Prop where
  empty : N.empty = M.empty
  append : N.append = M.append
  number : N.number = M.number
  exec : ∀ q, φ q → ∀ d w, N.exec q d (view w) = (view (M.exec q d w).1, (M.exec q d w).2)
  read : ∀ w f, N.read (view w) f = M.read w f
  write : ∀ w f d, N.write (view w) f d = view (M.write w f d)
  glob : ∀ w f, N.glob (view w) f = M.glob w f

variable {M : Machine Q F D W} {N : Machine Q F D V} {φ : Q → Prop} {view : W → V}

namespace Simulates

theorem quiet (h : Simulates M N φ view) (s : State D W) :
    N.quiet (s.map view) = (M.quiet s).map view := by
  simp [Machine.quiet, Result.map, h.empty]

theorem call (h : Simulates M N φ view) {q : Q} (hq : φ q) (d : D) (s : State D W) :
    N.call q d (s.map view) = (M.call q d s).map view := by
  simp [Machine.call, Result.map, State.map, State.withWorld, State.withStatus, h.exec q hq]

theorem after (h : Simulates M N φ view) (r : Result Q D W) {k : State D W → Result Q D W}
    {l : State D V → Result Q D V} (hk : ∀ s, l (s.map view) = (k s).map view) :
    N.after (r.map view) l = (M.after r k).map view := by
  simp only [Machine.after, Result.map, h.append] at *
  rw [hk r.state]

theorem loop (h : Simulates M N φ view) {body : D → State D W → Result Q D W}
    {body' : D → State D V → Result Q D V}
    (hb : ∀ d s, body' d (s.map view) = (body d s).map view) (ds : List D) (s : State D W) :
    N.loop body' ds (s.map view) = (M.loop body ds s).map view := by
  induction ds generalizing s with
  | nil => exact h.quiet s
  | cons d ds ih =>
      have he : (body' d (s.map view)).exited = (body d s).exited := by rw [hb]; rfl
      simp only [Machine.loop, he]
      split
      · exact hb d s
      · rw [hb]
        exact h.after _ ih

/-- A view that commutes with the programs commutes with every command made of them. -/
theorem eval (h : Simulates M N φ view) {a : Cmd Q F D} (ha : a.All φ) (i : D) (s : State D W) :
    N.eval a i (s.map view) = (M.eval a i s).map view := by
  induction a generalizing i s with
  | run p => exact h.call (ha p (List.mem_singleton.mpr rfl) s.vars) i s
  | nop => exact h.quiet (s.withStatus 0)
  | set x d => exact h.quiet ((s.set x (d s.vars)).withStatus 0)
  | assign x a ih =>
      simp only [Machine.eval, ih ha, h.empty]
      rfl
  | status x =>
      simp only [Machine.eval, h.number]
      exact h.quiet ((s.set x (M.number s.status)).withStatus 0)
  | exit n =>
      simp only [Machine.eval, h.empty]
      rfl
  | seq a b iha ihb =>
      obtain ⟨h₁, h₂⟩ := List.forall_mem_append.mp ha
      simp only [Machine.eval, iha h₁, Result.map_exited]
      split
      · rfl
      · exact h.after _ (ihb h₂ i)
  | and a b iha ihb | or a b iha ihb =>
      obtain ⟨h₁, h₂⟩ := List.forall_mem_append.mp ha
      simp only [Machine.eval, iha h₁, Result.map_exited, Result.map_state, State.map_status]
      split
      · rfl
      · exact h.after _ (ihb h₂ i)
  | pipe a b iha ihb =>
      obtain ⟨h₁, h₂⟩ := List.forall_mem_append.mp ha
      have hb := ihb h₂ (M.eval a i s).out ((M.eval a i s).state.withVars s.vars)
      simp only [Machine.eval, iha h₁, Result.map_out, Result.map_state]
      rw [show ((M.eval a i s).state.map view).withVars (s.map view).vars =
        ((M.eval a i s).state.withVars s.vars).map view from rfl, hb]
      rfl
  | ite c a b ihc iha ihb =>
      obtain ⟨h₁, h'⟩ := List.forall_mem_append.mp ha
      obtain ⟨h₂, h₃⟩ := List.forall_mem_append.mp h'
      simp only [Machine.eval, ihc h₁, Result.map_exited]
      split
      · rfl
      · refine h.after _ fun s' => ?_
        rw [State.map_status]
        split
        · exact iha h₂ i s'
        · exact ihb h₃ i s'
  | sub a ih =>
      simp only [Machine.eval, ih ha]
      rfl
  | within p a ih =>
      obtain ⟨h₁, h₂⟩ := List.forall_mem_cons.mp ha
      have hc := h.call (h₁ s.vars) i s
      have hb := ih h₂ i ((M.call (p s.vars) i s).state.withVars fun _ => M.empty)
      simp only [Machine.eval, State.map_vars, hc, Result.map_state, State.map_status, h.empty]
      split
      · rfl
      · rw [show ((M.call (p s.vars) i s).state.map view).withVars (fun _ => M.empty) =
          ((M.call (p s.vars) i s).state.withVars fun _ => M.empty).map view from rfl, hb]
        rfl
  | out a f ih =>
      simp only [Machine.eval, ih ha, h.empty, Result.map_state, State.map_world, State.map_vars, h.write]
      rfl
  | inp a f ih =>
      simp only [Machine.eval, State.map_world, State.map_vars, h.read]
      split
      · exact h.quiet (s.withStatus 1)
      · exact ih ha _ s
  | each x f a ih =>
      simp only [Machine.eval, State.map_world, State.map_vars, h.glob]
      exact h.loop (fun d s' => ih ha i (s'.set x d)) _ (s.withStatus 0)

theorem start (h : Simulates M N φ view) {a : Cmd Q F D} (ha : a.All φ) (w : W) :
    N.start a (view w) = (M.start a w).map view := by
  rw [Machine.start, h.empty, Machine.fresh, h.empty]
  exact h.eval ha M.empty (M.fresh w)

end Simulates

end Machine

end Yeah.Shell
