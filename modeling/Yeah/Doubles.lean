import Yeah.Digits
import Mathlib.Data.Nat.Log

namespace Yeah.Doubles

open Digits

/-- The weight of the last of the 53 binary places that a double keeps of a whole number. -/
def ulp (n : Nat) : Nat := 2 ^ (Nat.log 2 n - 52)

/-- The double nearest to a whole number in their range; of two, the one with the even last place. -/
def double (n : Nat) : Nat :=
  let q := n / ulp n
  let r := n % ulp n
  (if 2 * r < ulp n ∨ (2 * r = ulp n ∧ q % 2 = 0) then q else q + 1) * ulp n

/-- The whole number that a text of digits writes. -/
def written (t : List Char) : Nat := number 10 (t.map fun c => c.toNat - 48)

/-- `Number` of a text of digits. -/
def ofDigits (t : List Char) : Nat := double (written t)

theorem ulp_of_lt {n : Nat} (h : n < 2 ^ 53) : ulp n = 1 := by
  have hlog : Nat.log 2 n < 53 := by
    rcases Nat.eq_zero_or_pos n with rfl | hpos
    · simp
    · exact (Nat.log_lt_iff_lt_pow Nat.one_lt_two hpos.ne').2 h
  have hzero : Nat.log 2 n - 52 = 0 := by omega
  rw [ulp, hzero, Nat.pow_zero]

theorem double_of_lt {n : Nat} (h : n < 2 ^ 53) : double n = n := by
  rw [double, ulp_of_lt h]
  simp [Nat.mod_one]

example : double (2 ^ 53 + 1) = 2 ^ 53 ∧ double (2 ^ 53 + 3) = 2 ^ 53 + 4 := by decide

end Yeah.Doubles
