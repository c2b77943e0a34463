import Yeah.Bytes
import Mathlib.Tactic.SplitIfs

namespace Yeah.Asn1

open Bytes

variable {α : Type}

/-! ### Elements -/

/-- A length below 128 is one byte. A longer one stands behind the number of its bytes, of which none is spared. -/
def length : Reader Nat := do
  let first ← number 1
  if first < 128 then pure first
  else do
    let n ← number (first - 128)
    check (128 ≤ n ∧ 256 ^ (first - 129) ≤ n)
    pure n

def element (tag : UInt8) : Reader (List UInt8) := do
  let first ← take 1
  check (first = [tag])
  let n ← length
  take n

/-- The reader takes all that is in the element. -/
def within (tag : UInt8) (r : Reader α) : Reader α := do
  let content ← element tag
  match all r content with
  | some a => pure a
  | none => failure

/-- An element as it stands. -/
def whole (tag : UInt8) : Reader (List UInt8) := fun bytes =>
  match element tag bytes with
  | some (_, rest) => some (bytes.take (bytes.length - rest.length), rest)
  | none => none

/-- The groups of seven bits that numbers consist of; the last group of a number is below 128. -/
def arcs (acc : Nat) : List UInt8 → Option (List Nat)
  | [] => if acc = 0 then some [] else none
  | b :: bs =>
      if b.toNat < 128 then (arcs 0 bs).map ((acc * 128 + b.toNat) :: ·) else arcs (acc * 128 + (b.toNat - 128)) bs

/-- The first byte holds two numbers. -/
def objectIdentifier : List UInt8 → Option (List Nat)
  | [] => none
  | b :: bs => (arcs 0 bs).map fun rest =>
      if b.toNat < 80 then (b.toNat / 40) :: (b.toNat % 40) :: rest else 2 :: (b.toNat - 80) :: rest

section Rules

variable {r : Reader α} {a : α} {tag : UInt8} {size content bytes s : List UInt8} {n : Nat}

theorem reads_length_short (h : n < 128) : Reads length (bigEndian 1 n) n := by
  have hfirst : Reads (number 1) (bigEndian 1 n) n := reads_number (by omega)
  rw [← List.append_nil (bigEndian 1 n), length]
  apply hfirst.bind
  rw [if_pos h]
  exact Reads.pure n

theorem reads_length_long {k : Nat} (hk : k < 127) (h : 128 ≤ n) (hlow : 256 ^ k ≤ n) (hhigh : n < 256 ^ (k + 1)) :
    Reads length (bigEndian 1 (129 + k) ++ bigEndian (k + 1) n) n := by
  have hfirst : Reads (number 1) (bigEndian 1 (129 + k)) (129 + k) := reads_number (by omega)
  have hbytes : Reads (number (129 + k - 128)) (bigEndian (k + 1) n) n := by
    rw [show 129 + k - 128 = k + 1 by omega]
    exact reads_number hhigh
  have hcheck : decide (128 ≤ n ∧ 256 ^ (129 + k - 129) ≤ n) = true := by
    rw [Nat.add_sub_cancel_left]
    exact decide_eq_true ⟨h, hlow⟩
  rw [length]
  apply hfirst.bind
  rw [if_neg (by omega), ← List.append_nil (bigEndian (k + 1) n)]
  apply hbytes.bind
  apply Reads.check hcheck
  exact Reads.pure n

theorem reads_element (hsize : Reads length size content.length) :
    Reads (element tag) (tag :: (size ++ content)) content := by
  have htag : Reads (take 1) [tag] [tag] := reads_take rfl
  rw [← List.singleton_append, element]
  apply htag.bind
  apply Reads.check (decide_eq_true rfl)
  exact hsize.bind (reads_take rfl)

theorem reads_within (he : Reads (element tag) bytes content) (h : all r content = some a) :
    Reads (within tag r) bytes a := by
  rw [← List.append_nil bytes, within]
  apply he.bind
  rw [h]
  exact Reads.pure a

theorem reads_whole (he : Reads (element tag) bytes content) : Reads (whole tag) bytes bytes := by
  intro rest
  have htake : (bytes ++ rest).take ((bytes ++ rest).length - rest.length) = bytes := by
    rw [List.length_append, Nat.add_sub_cancel, List.take_left]
  rw [whole, he rest]
  dsimp only
  rw [htake]

end Rules

end Yeah.Asn1
