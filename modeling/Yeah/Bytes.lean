import Yeah.Digits
import Mathlib.Data.List.Basic

namespace Yeah.Bytes

open Digits

/-! ### Numbers of bytes -/

/-- The last `k` bytes of a number, the highest one first. -/
def bigEndian (k n : Nat) : List UInt8 := (digits 256 k n).map UInt8.ofNat

def value (bytes : List UInt8) : Nat := number 256 (bytes.map UInt8.toNat)

section Numbers

variable {k n : Nat} {bytes : List UInt8}

@[simp] theorem length_bigEndian : (bigEndian k n).length = k := by
  rw [bigEndian, List.length_map, length_digits]

theorem toNat_bigEndian : (bigEndian k n).map UInt8.toNat = digits 256 k n := by
  rw [bigEndian, List.map_map]
  conv_rhs => rw [← List.map_id (digits 256 k n)]
  apply List.map_congr_left
  intro d hd
  have hlt : d < 256 := lt_of_mem_digits (by decide) hd
  simpa using hlt

theorem value_bigEndian (h : n < 256 ^ k) : value (bigEndian k n) = n := by
  rw [value, toNat_bigEndian, number_digits h]

theorem value_lt : value bytes < 256 ^ bytes.length := by
  have h : number 256 (bytes.map UInt8.toNat) < 256 ^ (bytes.map UInt8.toNat).length := number_lt fun d hd => by
    obtain ⟨b, -, rfl⟩ := List.mem_map.1 hd
    exact b.toNat_lt
  rwa [List.length_map] at h

end Numbers

/-! ### Readers -/

/-- Takes something from the front of the bytes, and leaves what follows it. -/
abbrev Reader (α : Type) := StateT (List UInt8) Option α

def take (n : Nat) : Reader (List UInt8) := fun bytes =>
  if n ≤ bytes.length then some (bytes.take n, bytes.drop n) else none

/-- A number of `k` bytes. -/
def number (k : Nat) : Reader Nat := do
  let bytes ← take k
  pure (value bytes)

/-- Bytes behind the number of them, which has `k` bytes itself. -/
def prefixed (k : Nat) : Reader (List UInt8) := do
  let n ← number k
  take n

/-- Fails unless the condition holds. -/
def check (b : Bool) : Reader Unit := fun bytes => if b then some ((), bytes) else none

variable {α β : Type}

/-- The reader takes all of the bytes. -/
def all (r : Reader α) (bytes : List UInt8) : Option α :=
  match r bytes with
  | some (a, []) => some a
  | _ => none

/-- Whatever follows the bytes, `a` is read from them and what follows is left. -/
def Reads (r : Reader α) (bytes : List UInt8) (a : α) : Prop := ∀ rest, r (bytes ++ rest) = some (a, rest)

section Rules

variable {r : Reader α} {f : α → Reader β} {a : α} {b : β} {s t : List UInt8} {k n : Nat}

theorem Reads.all (h : Reads r s a) : all r s = some a := by
  have hread := h []
  rw [List.append_nil] at hread
  rw [Bytes.all, hread]

theorem Reads.pure (a : α) : Reads (Pure.pure a) [] a := fun _ => rfl

theorem Reads.bind (hr : Reads r s a) (hf : Reads (f a) t b) : Reads (r >>= f) (s ++ t) b := by
  intro rest
  have hfirst : r (s ++ t ++ rest) = some (a, t ++ rest) := by rw [List.append_assoc, hr]
  calc (r >>= f) (s ++ t ++ rest) = (r (s ++ t ++ rest)).bind fun p => f p.1 p.2 := rfl
    _ = f a (t ++ rest) := by rw [hfirst, Option.bind_some]
    _ = some (b, rest) := hf rest

/-- The last reader of a sequence. -/
theorem Reads.map {g : α → β} (hr : Reads r s a) : Reads (r >>= fun x => Pure.pure (g x)) s (g a) := by
  have h := hr.bind (f := fun x => Pure.pure (g x)) (Reads.pure (g a))
  rwa [List.append_nil] at h

theorem Reads.check {c : Bool} (hc : c = true) {g : Unit → Reader β} (hg : Reads (g ()) t b) :
    Reads (Bytes.check c >>= g) t b := by
  have h : Reads (Bytes.check c) [] () := fun rest => by rw [Bytes.check, if_pos hc, List.nil_append]
  exact h.bind hg

theorem reads_take (hn : s.length = n) : Reads (take n) s s := by
  intro rest
  subst hn
  rw [take, if_pos (by rw [List.length_append]; exact Nat.le_add_right _ _), List.take_left, List.drop_left]

theorem reads_number (h : n < 256 ^ k) : Reads (number k) (bigEndian k n) n := by
  have hread := (reads_take (s := bigEndian k n) (n := k) length_bigEndian).map (g := value)
  rwa [value_bigEndian h] at hread

theorem reads_prefixed (h : s.length < 256 ^ k) : Reads (prefixed k) (bigEndian k s.length ++ s) s :=
  (reads_number h).bind (reads_take rfl)

end Rules

end Yeah.Bytes
