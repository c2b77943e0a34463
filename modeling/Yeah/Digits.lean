import Mathlib.Data.List.Induction
import Mathlib.Tactic.Ring
import Mathlib.Tactic.SplitIfs

namespace Yeah.Digits

/-- The number with the digits `ds` in base `b`, the first one the highest. -/
def number (b : Nat) (ds : List Nat) : Nat := ds.foldl (fun n d => n * b + d) 0

/-- The last `k` digits in base `b`. -/
def digits (b : Nat) : Nat → Nat → List Nat
  | 0, _ => []
  | k + 1, n => digits b k (n / b) ++ [n % b]

section Base

variable {b k m n d : Nat} {ds : List Nat}

@[simp] theorem number_nil : number b [] = 0 := rfl

theorem number_concat : number b (ds ++ [d]) = number b ds * b + d := by simp [number]

@[simp] theorem length_digits : (digits b k n).length = k := by
  induction k generalizing n with
  | zero => rfl
  | succ k ih => rw [digits, List.length_append, ih, List.length_singleton]

theorem lt_of_mem_digits (hb : 0 < b) (h : d ∈ digits b k n) : d < b := by
  induction k generalizing n with
  | zero => cases h
  | succ k ih =>
      rcases List.mem_append.1 h with h | h
      · exact ih h
      · rw [List.mem_singleton.1 h]
        exact Nat.mod_lt _ hb

theorem div_push (h : d < b) : (n * b + d) / b = n := by
  rw [Nat.mul_comm, Nat.mul_add_div (Nat.zero_lt_of_lt h), Nat.div_eq_of_lt h, Nat.add_zero]

theorem digits_push (h : d < b) : digits b (k + 1) (n * b + d) = digits b k n ++ [d] := by
  rw [digits, div_push h, Nat.mul_add_mod', Nat.mod_eq_of_lt h]

theorem digits_number (h : ∀ d ∈ ds, d < b) : digits b ds.length (number b ds) = ds := by
  induction ds using List.reverseRecOn with
  | nil => rfl
  | append_singleton ds d ih =>
      rw [List.length_append, number_concat, List.length_singleton, digits_push (h d (by simp)),
        ih fun d' hd => h d' (List.mem_append_left _ hd)]

theorem number_lt (h : ∀ d ∈ ds, d < b) : number b ds < b ^ ds.length := by
  induction ds using List.reverseRecOn with
  | nil => exact Nat.one_pos
  | append_singleton ds d ih =>
      have hrest := ih fun d' hd => h d' (List.mem_append_left _ hd)
      have hd : d < b := h d (by simp)
      rw [number_concat, List.length_append, List.length_singleton, Nat.pow_succ]
      calc number b ds * b + d < (number b ds + 1) * b := by rw [Nat.add_mul, Nat.one_mul]; omega
        _ ≤ b ^ ds.length * b := Nat.mul_le_mul_right _ hrest

theorem number_digits (h : n < b ^ k) : number b (digits b k n) = n := by
  induction k generalizing n with
  | zero =>
      rw [Nat.pow_zero] at h
      rw [digits, number_nil]
      omega
  | succ k ih =>
      have hn : n / b < b ^ k := Nat.div_lt_of_lt_mul (by rwa [Nat.mul_comm, ← Nat.pow_succ])
      rw [digits, number_concat, ih hn]
      exact Nat.div_add_mod' n b

theorem digits_append {j : Nat} (hb : 0 < b) (h : d < b ^ k) :
    digits b (j + k) (n * b ^ k + d) = digits b j n ++ digits b k d := by
  induction k generalizing d with
  | zero =>
      rw [Nat.pow_zero] at h ⊢
      obtain rfl : d = 0 := by omega
      rw [Nat.add_zero, Nat.mul_one, Nat.add_zero, digits, List.append_nil]
  | succ k ih =>
      have hdiv : d / b < b ^ k := Nat.div_lt_of_lt_mul (by rwa [Nat.mul_comm, ← Nat.pow_succ])
      have hhead : (n * b ^ (k + 1) + d) / b = n * b ^ k + d / b := by
        rw [Nat.pow_succ, ← Nat.mul_assoc, Nat.mul_comm (n * b ^ k), Nat.mul_add_div hb]
      have hlast : (n * b ^ (k + 1) + d) % b = d % b := by
        rw [Nat.pow_succ, ← Nat.mul_assoc, Nat.mul_add_mod']
      rw [← Nat.add_assoc, digits, digits, hhead, hlast, ih hdiv, List.append_assoc]

theorem map_lt_map {α : Type} [LT α] {f : Nat → α} (hf : ∀ m n, m < n → n < b → f m < f n)
    {l₁ l₂ : List Nat} (h₂ : ∀ d ∈ l₂, d < b)
    (h : l₁ < l₂) : l₁.map f < l₂.map f := by
  induction l₁ generalizing l₂ with
  | nil =>
      cases l₂ with
      | nil => simp at h
      | cons => simp
  | cons m l₁ ih =>
      cases l₂ with
      | nil => simp at h
      | cons n l₂ =>
          rw [List.map_cons, List.map_cons, List.cons_lt_cons_iff]
          rcases List.cons_lt_cons_iff.1 h with hhead | ⟨hhead, htail⟩
          · exact Or.inl (hf m n hhead (h₂ n List.mem_cons_self))
          · exact Or.inr ⟨congrArg f hhead, ih (fun d hd => h₂ d (List.mem_cons_of_mem _ hd)) htail⟩

theorem append_lt_append {α : Type} [LT α] {l₁ l₂ : List α} (hlength : l₁.length = l₂.length) (h : l₁ < l₂)
    (l₃ l₄ : List α) :
    l₁ ++ l₃ < l₂ ++ l₄ := by
  induction l₁ generalizing l₂ with
  | nil =>
      cases l₂ with
      | nil => simp at h
      | cons => simp at hlength
  | cons a l₁ ih =>
      cases l₂ with
      | nil => simp at hlength
      | cons b l₂ =>
          rw [List.cons_append, List.cons_append, List.cons_lt_cons_iff]
          rcases List.cons_lt_cons_iff.1 h with hhead | ⟨hhead, htail⟩
          · exact Or.inl hhead
          · exact Or.inr ⟨hhead, ih (by simpa using hlength) htail⟩

/-- Digits of one length are in the order of the numbers. -/
theorem digits_lt (h : m < n) (hn : n < b ^ k) : digits b k m < digits b k n := by
  induction k generalizing m n with
  | zero =>
      rw [Nat.pow_zero] at hn
      omega
  | succ k ih =>
      have hdiv : n / b < b ^ k := Nat.div_lt_of_lt_mul (by rwa [Nat.mul_comm, ← Nat.pow_succ])
      rw [digits, digits]
      rcases Nat.lt_or_eq_of_le (Nat.div_le_div_right (c := b) (Nat.le_of_lt h)) with hlt | heq
      · exact append_lt_append (by rw [length_digits, length_digits]) (ih hlt hdiv) _ _
      · rw [heq]
        have hm := Nat.div_add_mod m b
        have hn := Nat.div_add_mod n b
        rw [heq] at hm
        exact List.append_left_lt (List.cons_lt_cons_iff.2 (Or.inl (by omega)))

/-- The digits without leading zeros, of which the last one stays. -/
def shortDigits (b k n : Nat) : List Nat :=
  if (digits b k n).dropWhile (· = 0) = [] then [0] else (digits b k n).dropWhile (· = 0)

theorem number_cons_zero : number b (0 :: ds) = number b ds := by
  rw [number, List.foldl_cons, Nat.zero_mul, Nat.zero_add, number]

theorem number_dropWhile_zero : number b (ds.dropWhile (· = 0)) = number b ds := by
  induction ds with
  | nil => rfl
  | cons d ds ih =>
      by_cases hd : d = 0
      · rw [List.dropWhile_cons_of_pos (by simpa using hd), ih, hd, number_cons_zero]
      · rw [List.dropWhile_cons_of_neg (by simpa using hd)]

theorem number_shortDigits (h : n < b ^ k) : number b (shortDigits b k n) = n := by
  have hdrop : number b ((digits b k n).dropWhile (· = 0)) = n := by
    rw [number_dropWhile_zero, number_digits h]
  rw [shortDigits]
  split_ifs with hnil
  · rw [hnil, number_nil] at hdrop
    rw [number_cons_zero, ← hdrop, number_nil]
  · exact hdrop

theorem length_shortDigits (hk : 0 < k) :
    0 < (shortDigits b k n).length ∧ (shortDigits b k n).length ≤ k := by
  have hdrop := (List.dropWhile_sublist (l := digits b k n) (· = 0)).length_le
  rw [length_digits] at hdrop
  rw [shortDigits]
  split_ifs with hnil
  · exact ⟨Nat.one_pos, hk⟩
  · exact ⟨List.length_pos_iff.2 hnil, hdrop⟩

theorem lt_of_mem_shortDigits (hb : 0 < b) (h : d ∈ shortDigits b k n) : d < b := by
  rw [shortDigits] at h
  split_ifs at h
  · rw [List.mem_singleton.1 h]
    exact hb
  · exact lt_of_mem_digits hb ((List.dropWhile_sublist _).subset h)

end Base

section Groups

variable {w n length bits a d : Nat} {groups : List Nat}

/-- Of `length` bits that make up `n` the groups of `w` bits have been taken, and the last `bits` remain. -/
structure Grouped (w n length : Nat) (groups : List Nat) (bits : Nat) : Prop where
  total : length = w * groups.length + bits
  groups : groups = digits (2 ^ w) groups.length (n / 2 ^ bits)

theorem Grouped.nil : Grouped w 0 0 [] 0 := ⟨rfl, rfl⟩

/-- Further bits come in at the end. -/
theorem Grouped.push (h : Grouped w n length groups bits) (hd : d < 2 ^ a) :
    Grouped w (n * 2 ^ a + d) (length + a) groups (bits + a) := by
  refine ⟨by rw [h.total, Nat.add_assoc], ?_⟩
  rw [Nat.add_comm bits a, Nat.pow_add, ← Nat.div_div_eq_div_mul, div_push hd]
  exact h.groups

theorem Grouped.emit (h : Grouped w n length groups (bits + w)) :
    Grouped w n length (groups ++ [n / 2 ^ bits % 2 ^ w]) bits := by
  constructor
  · rw [h.total, List.length_append, List.length_singleton]
    ring
  · rw [List.length_append, List.length_singleton, digits, Nat.div_div_eq_div_mul,
      ← Nat.pow_add, ← h.groups]

end Groups

end Yeah.Digits
