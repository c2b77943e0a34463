import Yeah.Databases.Tool

namespace Yeah.Databases

open Shell

/-- What the programs of a server do apart from their exit statuses. -/
structure Host (β W : Type) where
  tmp : String
  effect : Tool → Data β → W → W × Data β
  read : W → Path → Option (Data β)
  write : W → Path → Data β → W
  glob : W → Path → List (Data β)
  read_write : ∀ w p d, read (write w p d) p = some d

variable {β W : Type} (σ : Tool → Nat)

/-- The empty word is no program, and succeeds. -/
def exitStatus (t : Tool) : Nat := if t = .compress "" then 0 else σ t

namespace Host

variable (H : Host β W)

/-- What a program prints: `command -v` the program it finds, `mktemp` its new directory. -/
def output (t : Tool) (d : Data β) : Data β :=
  match t with
  | .commandV program => if σ t = 0 then .word program else .empty
  | .mktemp => .word H.tmp
  | _ => d

/-- The server with every program ending as `σ` says. -/
def machine : Machine Tool Path (Data β) W where
  empty := .empty
  append := Data.append
  number := .number
  exec t d w := ((H.effect t d w).1, H.output σ t (H.effect t d w).2, exitStatus σ t)
  read := H.read
  write := H.write
  glob := H.glob

end Host

variable {σ} {H : Host β W}

@[simp] theorem machine_empty : (H.machine σ).empty = .empty := rfl

@[simp] theorem machine_append : (H.machine σ).append = Data.append := rfl
@[simp] theorem machine_number : (H.machine σ).number = .number := rfl
@[simp] theorem machine_read : (H.machine σ).read = H.read := rfl
@[simp] theorem machine_write : (H.machine σ).write = H.write := rfl
@[simp] theorem machine_exec (t : Tool) (d : Data β) (w : W) :
    (H.machine σ).exec t d w = ((H.effect t d w).1, H.output σ t (H.effect t d w).2, exitStatus σ t) :=
      rfl

theorem exitStatus_of_ne {t : Tool} (h : t ≠ .compress "") : exitStatus σ t = σ t := if_neg h

theorem exitStatus_empty : exitStatus σ (.compress "") = 0 := if_pos rfl

def idle : Host Unit (Path → Option (Data Unit)) where
  tmp := "/tmp/tmp.1"
  effect _ _ w := (w, .empty)
  read w p := w p
  write w p d := Function.update w p (some d)
  glob _ _ := []
  read_write _ _ _ := by simp

end Yeah.Databases
