import Mathlib.Data.List.Basic

namespace Yeah.Text

/-- A file name that carries the time it was made, as in `dump-1700000000000.sql.gz`. -/
def stamped (stem : String) (timestamp : Nat) (ext : String) : String :=
  stem ++ "-" ++ timestamp.repr ++ ext

theorem dash_notMem_toDigits (n : Nat) : '-' ∉ Nat.toDigits 10 n := fun h => by
  have := Nat.isDigit_of_mem_toDigits (by decide) (by decide) h
  exact absurd this (by decide)

theorem toDigits_injective {m n : Nat} (h : Nat.toDigits 10 m = Nat.toDigits 10 n) : m = n := by
  rw [← Nat.ofDigitChars_ten_toDigits (n := m), h, Nat.ofDigitChars_ten_toDigits]

/-- The digits after the last dash tell the time, whatever stands before it. -/
theorem stamped_inj {a b ext : String} {m n : Nat} (h : stamped a m ext = stamped b n ext) : m = n := by
  have h' := congrArg String.toList h
  simp only [stamped, String.toList_append, Nat.toList_repr] at h'
  have hr := congrArg List.reverse (List.append_cancel_right h')
  have hd : "-".toList = ['-'] := rfl
  simp only [hd, List.reverse_append, List.reverse_cons, List.reverse_nil, List.nil_append,
    List.singleton_append] at hr
  have ht : ∀ (k : Nat) (s : List Char),
      ((Nat.toDigits 10 k).reverse ++ '-' :: s).takeWhile (· ≠ '-') = (Nat.toDigits 10 k).reverse := by
    intro k s
    rw [List.takeWhile_append_of_pos, List.takeWhile_cons_of_neg (by simp), List.append_nil]
    intro c hc
    exact decide_eq_true fun h => dash_notMem_toDigits k (h ▸ List.mem_reverse.mp hc)
  have he := congrArg (List.takeWhile (· ≠ '-')) hr
  rw [ht, ht] at he
  exact toDigits_injective (List.reverse_injective he)

end Yeah.Text
