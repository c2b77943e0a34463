import Mathlib.Algebra.GroupWithZero.Nat
import Mathlib.Data.List.Basic
import Mathlib.Data.List.DropRight
import Mathlib.Data.List.TakeWhile

namespace Yeah.Text

/-- The membership tests on lists of texts rest on this instance. -/
instance chars_lawful : LawfulBEq (List Char) := inferInstance

/-- The code units that `\s` and `String.prototype.trim` take for white space. -/
def isSpace (n : Nat) : Bool :=
  (9 ≤ n && n ≤ 13) || n == 32 || n == 0xA0 || n == 0x1680 || (0x2000 ≤ n && n ≤ 0x200A) ||
    n == 0x2028 || n == 0x2029 || n == 0x202F || n == 0x205F || n == 0x3000 || n == 0xFEFF

def strip {α : Type} (p : α → Bool) (s : List α) : List α :=
  ((s.dropWhile p).reverse.dropWhile p).reverse

theorem mem_dropWhile_of_not {α : Type} {p : α → Bool} {a : α} (ha : p a = false) {s : List α} (h : a ∈ s) :
    a ∈ s.dropWhile p := by
  induction s with
  | nil => exact h
  | cons b s ih =>
      rw [List.dropWhile_cons]
      split_ifs with hb
      · rcases List.mem_cons.1 h with rfl | h
        · simp [ha] at hb
        · exact ih h
      · exact h

theorem takeWhile_span {α : Type} {p : α → Bool} {s rest : List α} (hs : ∀ a ∈ s, p a = true)
    (hrest : ∀ a ∈ rest.head?, p a = false) :
    (s ++ rest).takeWhile p = s := by
  rw [List.takeWhile_append_of_pos hs]
  cases rest with
  | nil => simp
  | cons a rest => rw [List.takeWhile_cons_of_neg (by simp [hrest a rfl]), List.append_nil]

theorem dropWhile_span {α : Type} {p : α → Bool} {s rest : List α} (hs : ∀ a ∈ s, p a = true)
    (hrest : ∀ a ∈ rest.head?, p a = false) :
    (s ++ rest).dropWhile p = rest := by
  rw [List.dropWhile_append_of_pos hs]
  cases rest with
  | nil => rfl
  | cons a rest => rw [List.dropWhile_cons_of_neg (by simp [hrest a rfl])]

theorem mem_strip_of_not {α : Type} {p : α → Bool} {a : α} (ha : p a = false) {s : List α} (h : a ∈ s) :
    a ∈ strip p s := by
  rw [strip, List.mem_reverse]
  exact mem_dropWhile_of_not ha (List.mem_reverse.2 (mem_dropWhile_of_not ha h))

theorem mem_of_mem_strip {α : Type} {p : α → Bool} {a : α} {s : List α} (h : a ∈ strip p s) : a ∈ s := by
  rw [strip, List.mem_reverse] at h
  exact (List.dropWhile_sublist p).mem (List.mem_reverse.1 ((List.dropWhile_sublist p).mem h))

theorem strip_ne_nil_iff {α : Type} {p : α → Bool} {s : List α} :
    strip p s ≠ [] ↔ ∃ a ∈ s, p a = false := by
  constructor
  · intro h
    by_contra hall
    have hdrop : s.dropWhile p = [] :=
      List.dropWhile_eq_nil_iff.2 fun a ha => by_contra fun hp => hall ⟨a, ha, by simpa using hp⟩
    exact h (by rw [strip, hdrop]; rfl)
  · rintro ⟨a, hmem, ha⟩
    exact List.ne_nil_of_mem (mem_strip_of_not ha hmem)

theorem strip_of_ends {α : Type} {p : α → Bool} {s : List α} (hhead : ∀ c ∈ s.head?, p c = false)
    (hlast : ∀ c ∈ s.getLast?, p c = false) :
    strip p s = s := by
  have hdrop : ∀ t : List α, (∀ c ∈ t.head?, p c = false) → t.dropWhile p = t := by
    intro t ht
    cases t with
    | nil => rfl
    | cons c t => exact List.dropWhile_cons_of_neg (by simp [ht c rfl])
  rw [strip, hdrop s hhead, hdrop s.reverse, List.reverse_reverse]
  rwa [List.head?_reverse]

theorem strip_concat {α : Type} {p : α → Bool} {a : α} (ha : p a = true) (s : List α) :
    strip p (s ++ [a]) = strip p s := by
  rw [strip, strip, List.dropWhile_append]
  split_ifs with h
  · rw [List.isEmpty_iff.1 h, List.dropWhile_cons_of_pos ha]
    rfl
  · rw [List.reverse_append, List.reverse_singleton, List.singleton_append, List.dropWhile_cons_of_pos ha]

theorem strip_of_none {α : Type} {p : α → Bool} {s : List α} (h : ∀ c ∈ s, p c = false) : strip p s = s :=
  strip_of_ends (fun c hc => h c (List.mem_of_head? hc)) fun c hc => h c (List.mem_of_getLast? hc)

theorem strip_append_left {α : Type} {p : α → Bool} {t : List α} (h : ∀ c ∈ t, p c = true) (s : List α) :
    strip p (t ++ s) = strip p s := by
  rw [strip, strip, List.dropWhile_append_of_pos h]

theorem strip_append_right {α : Type} {p : α → Bool} {t : List α} (h : ∀ c ∈ t, p c = true) (s : List α) :
    strip p (s ++ t) = strip p s := by
  induction t generalizing s with
  | nil => rw [List.append_nil]
  | cons a t ih =>
      have ha : p a = true := h a List.mem_cons_self
      rw [List.append_cons, ih fun c hc => h c (List.mem_cons_of_mem _ hc), strip_concat ha]

theorem dropWhile_head {α : Type} {p : α → Bool} (s : List α) : ∀ c ∈ (s.dropWhile p).head?, p c = false := by
  intro c hc
  obtain ⟨t, ht⟩ := List.head?_eq_some_iff.1 hc
  have hne : s.dropWhile p ≠ [] := by simp [ht]
  have hhead := List.head_dropWhile_not p hne
  simp only [ht, List.head_cons] at hhead
  exact hhead

theorem strip_prefix_dropWhile {α : Type} (p : α → Bool) (s : List α) : strip p s <+: s.dropWhile p :=
  List.rdropWhile_prefix p _

theorem strip_head {α : Type} {p : α → Bool} {s t : List α} (h : t <+: strip p s) : ∀ c ∈ t.head?, p c = false := by
  intro c hc
  obtain ⟨u, rfl⟩ := List.head?_eq_some_iff.1 hc
  obtain ⟨v, hv⟩ := h.trans (strip_prefix_dropWhile p s)
  exact dropWhile_head s c (by rw [← hv]; rfl)

theorem strip_last {α : Type} {p : α → Bool} (s : List α) : ∀ c ∈ (strip p s).getLast?, p c = false := by
  rw [strip, List.getLast?_reverse]
  exact dropWhile_head _

theorem exists_last {α : Type} {p : α → Bool} {s : List α} (h : ∃ a ∈ s, p a = false) :
    ∃ t b, s = t ++ b ∧ t ≠ [] ∧ (∀ c ∈ t.getLast?, p c = false) ∧ ∀ c ∈ b, p c = true := by
  obtain ⟨a, ha, hpa⟩ := h
  refine ⟨s.rdropWhile p, s.rtakeWhile p, List.rdropWhile_append_rtakeWhile.symm, ?_, ?_, ?_⟩
  · have hmem : a ∈ s.rdropWhile p :=
      List.mem_reverse.2 (mem_dropWhile_of_not hpa (List.mem_reverse.2 ha))
    exact List.ne_nil_of_mem hmem
  · rw [List.rdropWhile, List.getLast?_reverse]
    exact dropWhile_head _
  · exact fun c hc => List.mem_rtakeWhile_imp hc

def trim (s : String) : String := String.ofList (strip (fun c => isSpace c.toNat) s.toList)

theorem isSpace_of_range {n : Nat} (h : 33 ≤ n ∧ n ≤ 126) : isSpace n = false := by
  simp only [isSpace, Bool.or_eq_false_iff, Bool.and_eq_false_iff, decide_eq_false_iff_not,
    beq_eq_false_iff_ne]
  omega

theorem trim_of_none {s : String} (h : ∀ c ∈ s.toList, isSpace c.toNat = false) : trim s = s := by
  rw [trim, strip_of_none h, String.ofList_toList]

theorem alphanum_range {c : Char} (h : c.isAlphanum = true) : (65 ≤ c.toNat ∧ c.toNat ≤ 90) ∨
    (97 ≤ c.toNat ∧ c.toNat ≤ 122) ∨ (48 ≤ c.toNat ∧ c.toNat ≤ 57) := by
  have hnat : ∀ a b : UInt32, a ≤ c.val ∧ c.val ≤ b → a.toNat ≤ c.toNat ∧ c.toNat ≤ b.toNat :=
    fun _ _ hab => ⟨UInt32.le_iff_toNat_le.1 hab.1, UInt32.le_iff_toNat_le.1 hab.2⟩
  have hbounds : ∀ a b : UInt32, (decide (a ≤ c.val) && decide (c.val ≤ b)) = true →
      a.toNat ≤ c.toNat ∧ c.toNat ≤ b.toNat := by
    intro a b hab
    rw [Bool.and_eq_true, decide_eq_true_eq, decide_eq_true_eq] at hab
    exact hnat a b hab
  rcases Bool.or_eq_true_iff.1 h with halpha | hdigit
  · rcases Bool.or_eq_true_iff.1 halpha with hupper | hlower
    · exact Or.inl (hnat 65 90 (of_decide_eq_true hupper))
    · exact Or.inr (Or.inl (hbounds 97 122 hlower))
  · exact Or.inr (Or.inr (hbounds 48 57 hdigit))

/-- `length` counts UTF-16 code units. -/
def utf16Length (s : String) : Nat := (s.toList.map fun c => if c.toNat < 0x10000 then 1 else 2).sum

end Yeah.Text
