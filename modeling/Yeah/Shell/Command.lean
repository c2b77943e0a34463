import Mathlib.Logic.Function.Basic
import Mathlib.Data.List.Basic

namespace Yeah.Shell

abbrev Vars (D : Type) := String → D

/-- Commands of a POSIX shell over programs `Q`, files `F` and data `D`. A word is a
function of the shell's variables, so expansion needs no syntax of its own. -/
inductive Cmd (Q F D : Type)
  | run (p : Vars D → Q)
  | nop
  | set (x : String) (d : Vars D → D)
  | assign (x : String) (a : Cmd Q F D)
  | status (x : String)
  | exit (n : Vars D → Nat)
  | seq (a b : Cmd Q F D)
  | and (a b : Cmd Q F D)
  | or (a b : Cmd Q F D)
  | pipe (a b : Cmd Q F D)
  | ite (c a b : Cmd Q F D)
  | sub (a : Cmd Q F D)
  | within (p : Vars D → Q) (a : Cmd Q F D)
  | out (a : Cmd Q F D) (f : Vars D → F)
  | inp (a : Cmd Q F D) (f : Vars D → F)
  | each (x : String) (f : Vars D → F) (a : Cmd Q F D)

namespace Cmd

variable {Q F D : Type}

def sequence : List (Cmd Q F D) → Cmd Q F D
  | [] => nop
  | [a] => a
  | a :: b :: as => seq a (sequence (b :: as))

/-- The programs in the text of a command, each with its words still to be expanded. -/
@[simp] def programs : Cmd Q F D → List (Vars D → Q)
  | run p => [p]
  | nop | set _ _ | status _ | exit _ => []
  | assign _ a | sub a | out a _ | inp a _ | each _ _ a => a.programs
  | seq a b | and a b | or a b | pipe a b => a.programs ++ b.programs
  | ite c a b => c.programs ++ (a.programs ++ b.programs)
  | within p a => p :: a.programs

end Cmd

/-- What the programs and the file system do. `exec` gets a program and its
standard input and gives the new world, the standard output and the exit status. -/
structure Machine (Q F D W : Type) where
  empty : D
  append : D → D → D
  number : Nat → D
  exec : Q → D → W → W × D × Nat
  read : W → F → Option D
  write : W → F → D → W
  glob : W → F → List D

structure State (D W : Type) where
  vars : Vars D
  world : W
  status : Nat

/-- The outcome of a command: the programs it ran with their exit statuses, what
it printed, and whether it left the shell by `exit`. -/
structure Result (Q D W : Type) where
  state : State D W
  out : D
  log : List (Q × Nat)
  exited : Bool

variable {Q F D W : Type}

namespace State

def set (s : State D W) (x : String) (d : D) : State D W :=
  { s with vars := Function.update s.vars x d }

def withStatus (s : State D W) (n : Nat) : State D W := { s with status := n }

def withVars (s : State D W) (v : Vars D) : State D W := { s with vars := v }

def withWorld (s : State D W) (w : W) : State D W := { s with world := w }

@[simp] theorem set_world (s : State D W) (x : String) (d : D) : (s.set x d).world = s.world := rfl
@[simp] theorem set_status (s : State D W) (x : String) (d : D) : (s.set x d).status = s.status := rfl
@[simp] theorem set_vars (s : State D W) (x : String) (d : D) :
    (s.set x d).vars = Function.update s.vars x d := rfl
@[simp] theorem withStatus_world (s : State D W) (n : Nat) : (s.withStatus n).world = s.world := rfl
@[simp] theorem withStatus_status (s : State D W) (n : Nat) : (s.withStatus n).status = n := rfl
@[simp] theorem withStatus_vars (s : State D W) (n : Nat) : (s.withStatus n).vars = s.vars := rfl
@[simp] theorem withVars_world (s : State D W) (v : Vars D) : (s.withVars v).world = s.world := rfl
@[simp] theorem withVars_status (s : State D W) (v : Vars D) : (s.withVars v).status = s.status := rfl
@[simp] theorem withVars_vars (s : State D W) (v : Vars D) : (s.withVars v).vars = v := rfl
@[simp] theorem withWorld_world (s : State D W) (w : W) : (s.withWorld w).world = w := rfl
@[simp] theorem withWorld_status (s : State D W) (w : W) : (s.withWorld w).status = s.status := rfl
@[simp] theorem withWorld_vars (s : State D W) (w : W) : (s.withWorld w).vars = s.vars := rfl

end State

namespace Machine

variable (M : Machine Q F D W)

def quiet (s : State D W) : Result Q D W := ⟨s, M.empty, [], false⟩

/-- Go on with `k` after `r`, keeping what `r` printed and ran. -/
def after (r : Result Q D W) (k : State D W → Result Q D W) : Result Q D W :=
  let t := k r.state
  ⟨t.state, M.append r.out t.out, r.log ++ t.log, t.exited⟩

def call (q : Q) (input : D) (s : State D W) : Result Q D W :=
  let r := M.exec q input s.world
  ⟨(s.withWorld r.1).withStatus r.2.2, r.2.1, [(q, r.2.2)], false⟩

/-- A `for` loop over the words `ds`; an `exit` in the body leaves the loop too. -/
def loop (body : D → State D W → Result Q D W) : List D → State D W → Result Q D W
  | [], s => M.quiet s
  | d :: ds, s => if (body d s).exited then body d s else M.after (body d s) (loop body ds)

/-- The POSIX shell without `pipefail`: a pipeline has the status of its last
command, its sides and `( )` run in copies of the shell, and a redirection
from a file that is not there fails with status 1 before the command runs. -/
def eval : Cmd Q F D → D → State D W → Result Q D W
  | .run p, i, s => M.call (p s.vars) i s
  | .nop, _, s => M.quiet (s.withStatus 0)
  | .set x d, _, s => M.quiet ((s.set x (d s.vars)).withStatus 0)
  | .assign x a, i, s =>
      let r := eval a i s
      ⟨r.state.withVars (Function.update s.vars x r.out), M.empty, r.log, false⟩
  | .status x, _, s => M.quiet ((s.set x (M.number s.status)).withStatus 0)
  | .exit n, _, s => ⟨s.withStatus (n s.vars), M.empty, [], true⟩
  | .seq a b, i, s =>
      let r := eval a i s
      if r.exited then r else M.after r (eval b i)
  | .and a b, i, s =>
      let r := eval a i s
      if r.exited ∨ r.state.status ≠ 0 then r else M.after r (eval b i)
  | .or a b, i, s =>
      let r := eval a i s
      if r.exited ∨ r.state.status = 0 then r else M.after r (eval b i)
  | .pipe a b, i, s =>
      let r := eval a i s
      let t := eval b r.out (r.state.withVars s.vars)
      ⟨t.state.withVars s.vars, t.out, r.log ++ t.log, false⟩
  | .ite c a b, i, s =>
      let r := eval c i s
      if r.exited then r else M.after r (fun s' => if s'.status = 0 then eval a i s' else eval b i s')
  | .sub a, i, s =>
      let r := eval a i s
      ⟨r.state.withVars s.vars, r.out, r.log, false⟩
  | .within p a, i, s =>
      let r := M.call (p s.vars) i s
      if r.state.status ≠ 0 then r
      else
        let t := eval a i (r.state.withVars (fun _ => M.empty))
        ⟨t.state.withVars s.vars, t.out, r.log ++ t.log, false⟩
  | .out a f, i, s =>
      let r := eval a i s
      ⟨r.state.withWorld (M.write r.state.world (f s.vars) r.out), M.empty, r.log, r.exited⟩
  | .inp a f, _, s =>
      match M.read s.world (f s.vars) with
      | none => M.quiet (s.withStatus 1)
      | some d => eval a d s
  | .each x f a, i, s =>
      M.loop (fun d s' => eval a i (s'.set x d)) (M.glob s.world (f s.vars)) (s.withStatus 0)

variable {M} in
@[simp] theorem after_state (r : Result Q D W) (k : State D W → Result Q D W) :
    (M.after r k).state = (k r.state).state := rfl

variable {M} in
@[simp] theorem after_log (r : Result Q D W) (k : State D W → Result Q D W) :
    (M.after r k).log = r.log ++ (k r.state).log := rfl

variable {M} in
@[simp] theorem after_exited (r : Result Q D W) (k : State D W → Result Q D W) :
    (M.after r k).exited = (k r.state).exited := rfl

section Eval

attribute [local simp] eval

theorem eval_seq {a : Cmd Q F D} (b : Cmd Q F D) {i : D} {s : State D W}
    (h : (M.eval a i s).exited = false) :
    M.eval (.seq a b) i s = M.after (M.eval a i s) (M.eval b i) := by
  simp [h]

theorem eval_and {a : Cmd Q F D} (b : Cmd Q F D) {i : D} {s : State D W} (h : (M.eval a i s).exited = false)
    (h0 : (M.eval a i s).state.status = 0) :
    M.eval (.and a b) i s = M.after (M.eval a i s) (M.eval b i) := by
  simp [h, h0]

theorem eval_and_failed {a : Cmd Q F D} (b : Cmd Q F D) {i : D} {s : State D W}
    (h : (M.eval a i s).state.status ≠ 0) : M.eval (.and a b) i s = M.eval a i s := by
  simp [h]

theorem eval_inp {a : Cmd Q F D} {f : Vars D → F} {i d : D} {s : State D W}
    (h : M.read s.world (f s.vars) = some d) :
    M.eval (.inp a f) i s = M.eval a d s := by
  simp [h]

theorem eval_inp_none {a : Cmd Q F D} {f : Vars D → F} {i : D} {s : State D W}
    (h : M.read s.world (f s.vars) = none) :
    M.eval (.inp a f) i s = M.quiet (s.withStatus 1) := by
  simp [h]

/-- The shell in which a script starts that `q` launched. -/
def launched (q : Q) (i : D) (s : State D W) : State D W := (M.call q i s).state.withVars fun _ => M.empty

theorem eval_within {p : Vars D → Q} (a : Cmd Q F D) {i : D} {s : State D W}
    (h : (M.call (p s.vars) i s).state.status = 0) :
    (M.eval (.within p a) i s).state.status = (M.eval a i (M.launched (p s.vars) i s)).state.status ∧
      (M.eval (.within p a) i s).state.world = (M.eval a i (M.launched (p s.vars) i s)).state.world ∧
      (M.eval (.within p a) i s).log = (p s.vars, 0) :: (M.eval a i (M.launched (p s.vars) i s)).log := by
  have hl : (M.call (p s.vars) i s).log = [(p s.vars, 0)] := by rw [← h]; rfl
  simp [launched, h, hl]

theorem eval_within_failed {p : Vars D → Q} (a : Cmd Q F D) {i : D} {s : State D W}
    (h : (M.call (p s.vars) i s).state.status ≠ 0) : M.eval (.within p a) i s = M.call (p s.vars) i s := by
  simp [h]

end Eval

def Ends (a : Cmd Q F D) (i : D) (s t : State D W) : Prop :=
  (M.eval a i s).exited = false ∧ (M.eval a i s).state = t

section Ends

variable {M} {a b : Cmd Q F D} {i : D} {s t u : State D W}

theorem ends_run (p : Vars D → Q) (i : D) (s : State D W) :
    M.Ends (.run p) i s (M.call (p s.vars) i s).state := ⟨rfl, rfl⟩

theorem ends_set (x : String) (d : Vars D → D) (i : D) (s : State D W) :
    M.Ends (.set x d) i s ((s.set x (d s.vars)).withStatus 0) := ⟨rfl, rfl⟩

theorem Ends.and (ha : M.Ends a i s t) (ht : t.status = 0) (hb : M.Ends b i t u) :
    M.Ends (.and a b) i s u := by
  obtain ⟨he, rfl⟩ := ha
  unfold Ends
  rw [M.eval_and b he ht]
  exact hb

theorem Ends.and_failed (ha : M.Ends a i s t) (ht : t.status ≠ 0) : M.Ends (.and a b) i s t := by
  obtain ⟨he, rfl⟩ := ha
  unfold Ends
  rw [M.eval_and_failed b ht]
  exact ⟨he, rfl⟩

theorem Ends.or_done (ha : M.Ends a i s t) (ht : t.status = 0) : M.Ends (.or a b) i s t := by
  obtain ⟨he, rfl⟩ := ha
  simp [Ends, eval, he, ht]

theorem Ends.or_else (ha : M.Ends a i s t) (ht : t.status ≠ 0) (hb : M.Ends b i t u) :
    M.Ends (.or a b) i s u := by
  obtain ⟨he, rfl⟩ := ha
  simpa [Ends, eval, he, ht] using hb

theorem Ends.sub (ha : M.Ends a i s t) : M.Ends (.sub a) i s (t.withVars s.vars) := by
  obtain ⟨-, rfl⟩ := ha
  exact ⟨rfl, rfl⟩

end Ends

def fresh (w : W) : State D W := ⟨fun _ => M.empty, w, 0⟩

/-- One command in a shell of its own, with nothing on its standard input. -/
def start (a : Cmd Q F D) (w : W) : Result Q D W := M.eval a M.empty (M.fresh w)

end Machine

end Yeah.Shell
