import Mathlib.Data.List.Basic

namespace Yeah

/-- How asynchronous code ends, with the state it leaves: normally or by an exception. -/
inductive Attempt (σ : Type)
  | done (s : σ)
  | threw (message : String) (s : σ)

namespace Attempt

variable {σ : Type}

def state : Attempt σ → σ
  | done s => s
  | threw _ s => s

def andThen (r : Attempt σ) (k : σ → Attempt σ) : Attempt σ :=
  match r with
  | done s => k s
  | threw m s => threw m s

/-- `try … catch`. -/
def rescue (r : Attempt σ) (h : String → σ → Attempt σ) : Attempt σ :=
  match r with
  | done s => done s
  | threw m s => h m s

/-- `try … finally`. -/
def ensure (r : Attempt σ) (k : σ → Attempt σ) : Attempt σ :=
  match r with
  | done s => k s
  | threw m s => (k s).andThen (threw m)

/-- One awaited call: it throws, or it has its effect. -/
def await (error : Option String) (effect : σ → σ) (s : σ) : Attempt σ :=
  match error with
  | none => done (effect s)
  | some m => threw m s

@[simp] theorem state_done (s : σ) : (done s).state = s := rfl
@[simp] theorem state_threw (m : String) (s : σ) : (threw m s).state = s := rfl
@[simp] theorem done_andThen (s : σ) (k : σ → Attempt σ) : (done s).andThen k = k s := rfl
@[simp] theorem threw_andThen (m : String) (s : σ) (k : σ → Attempt σ) :
    (threw m s).andThen k = threw m s := rfl
@[simp] theorem done_rescue (s : σ) (h : String → σ → Attempt σ) : (done s).rescue h = done s := rfl
@[simp] theorem threw_rescue (m : String) (s : σ) (h : String → σ → Attempt σ) :
    (threw m s).rescue h = h m s := rfl
@[simp] theorem await_none (f : σ → σ) (s : σ) : await none f s = done (f s) := rfl
@[simp] theorem await_some (m : String) (f : σ → σ) (s : σ) : await (some m) f s = threw m s := rfl

def Ends (P R : σ → Prop) : Attempt σ → Prop
  | done s => P s
  | threw _ s => R s

@[simp] theorem ends_done (P R : σ → Prop) (s : σ) : (done s).Ends P R ↔ P s := Iff.rfl
@[simp] theorem ends_threw (P R : σ → Prop) (m : String) (s : σ) : (threw m s).Ends P R ↔ R s := Iff.rfl

variable {P Q R S : σ → Prop} {r : Attempt σ}

theorem Ends.andThen {k : σ → Attempt σ} (hr : r.Ends P R) (hk : ∀ s, P s → (k s).Ends Q R) :
    (r.andThen k).Ends Q R := by
  cases r with
  | done s => exact hk s hr
  | threw m s => exact hr

theorem Ends.andThen_of_threw {k : σ → Attempt σ} (hr : r.Ends (fun _ => False) R) :
    (r.andThen k).Ends P R :=
  hr.andThen fun _ h => h.elim

theorem Ends.rescue {h : String → σ → Attempt σ} (hr : r.Ends P R) (hh : ∀ m s, R s → (h m s).Ends P S) :
    (r.rescue h).Ends P S := by
  cases r with
  | done s => exact hr
  | threw m s => exact hh m s hr

theorem Ends.imp (hr : r.Ends P R) (hP : ∀ s, P s → Q s) (hR : ∀ s, R s → S s) : r.Ends Q S := by
  cases r with
  | done s => exact hP s hr
  | threw m s => exact hR s hr

theorem ends_andThen_iff {k : σ → Attempt σ} :
    (r.andThen k).Ends P R ↔ r.Ends (fun s => (k s).Ends P R) R := by
  cases r <;> rfl

theorem ends_ensure_iff {k : σ → Attempt σ} :
    (r.ensure k).Ends P R ↔ r.Ends (fun s => (k s).Ends P R) fun s => (k s).Ends R R := by
  cases r with
  | done s => rfl
  | threw m s => exact ends_andThen_iff

theorem ends_await_iff {error : Option String} {effect : σ → σ} {s : σ} :
    (await error effect s).Ends P R ↔ if error = none then P (effect s) else R s := by
  cases error <;> simp

theorem Ends.exists_threw (hr : r.Ends (fun _ => False) R) : ∃ m s, r = threw m s ∧ R s := by
  cases r with
  | done s => exact hr.elim
  | threw m s => exact ⟨m, s, rfl, hr⟩

theorem Ends.exists_done (hr : r.Ends P fun _ => False) : ∃ s, r = done s ∧ P s := by
  cases r with
  | done s => exact ⟨s, rfl, hr⟩
  | threw m s => exact hr.elim

theorem ends_same_iff : r.Ends P P ↔ P r.state := by cases r <;> rfl

end Attempt

end Yeah
