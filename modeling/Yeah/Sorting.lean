import Mathlib.Data.List.Basic
import Mathlib.Order.Lattice

namespace Yeah.Sorting

variable {α β : Type} {cmp cmp' : α → α → Ordering}

/-- `sort`, which is stable. -/
def sort (cmp : α → α → Ordering) (l : List α) : List α := l.mergeSort fun a b => (cmp a b).isLE

/-- A comparison of the values under `f`. -/
def comparing (cmp : β → β → Ordering) (f : α → β) (a b : α) : Ordering := cmp (f a) (f b)

def reversed (cmp : α → α → Ordering) (a b : α) : Ordering := cmp b a

/-- `cmp a b || cmp' a b` -/
def orElse (cmp cmp' : α → α → Ordering) (a b : α) : Ordering := (cmp a b).then (cmp' a b)

instance [h : Std.TransCmp cmp] [h' : Std.TransCmp cmp'] : Std.TransCmp (orElse cmp cmp') :=
  inferInstanceAs (Std.TransCmp (compareLex cmp cmp'))

instance (f : β → α) [h : Std.TransCmp cmp] : Std.TransCmp (comparing cmp f) where
  eq_swap := h.eq_swap
  isLE_trans := h.isLE_trans

instance [h : Std.TransCmp cmp] : Std.TransCmp (reversed cmp) where
  eq_swap := h.eq_swap
  isLE_trans h₁ h₂ := h.isLE_trans h₂ h₁

@[simp] theorem mem_sort {a : α} {l : List α} : a ∈ sort cmp l ↔ a ∈ l := List.mem_mergeSort

theorem sort_pairwise [h : Std.TransCmp cmp] (l : List α) :
    (sort cmp l).Pairwise fun a b => (cmp a b).isLE := by
  apply List.pairwise_mergeSort
  · intro a b c h₁ h₂
    exact h.isLE_trans h₁ h₂
  · intro a b
    rw [h.eq_swap]
    cases cmp b a <;> rfl

theorem sort_head [Std.TransCmp cmp] {a : α} {l : List α} (h : (sort cmp l).head? = some a) :
    a ∈ l ∧ ∀ b ∈ l, (cmp a b).isLE := by
  obtain ⟨t, ht⟩ := List.head?_eq_some_iff.mp h
  have hp : (sort cmp l).Pairwise fun a b => (cmp a b).isLE := sort_pairwise l
  rw [ht, List.pairwise_cons] at hp
  refine ⟨mem_sort.mp (ht ▸ List.mem_cons_self), fun b hb => ?_⟩
  rcases List.mem_cons.mp (ht ▸ mem_sort.mpr hb) with rfl | hb
  · simp [Std.ReflCmp.compare_self]
  · exact hp.1 b hb

theorem nodup_eraseDups [BEq α] [LawfulBEq α] (l : List α) : l.eraseDups.Nodup := by
  induction h : l.length using Nat.strongRecOn generalizing l with
  | ind n ih =>
      cases l with
      | nil => exact List.nodup_nil
      | cons a l =>
          have hlength := List.length_filter_le (fun b => !b == a) l
          rw [List.eraseDups_cons, List.nodup_cons, List.mem_eraseDups]
          refine ⟨fun hm => ?_, ih _ (by rw [← h, List.length_cons]; omega) _ rfl⟩
          simpa using (List.mem_filter.1 hm).2

section Stable

variable [LinearOrder β] {key : α → β} {l s s' : List α}

/-- `sort((a, b) => key(a) - key(b))` -/
def sortOn (key : α → β) (l : List α) : List α := l.mergeSort fun a b => key a ≤ key b

/-- In the order of the keys, and where keys are equal in the order of `l`. -/
structure StableSort (key : α → β) (l s : List α) : Prop where
  perm : s.Perm l
  sorted : s.Pairwise fun a b => key a ≤ key b
  stable : ∀ k, (s.filter fun a => key a = k) = l.filter fun a => key a = k

theorem stableSort_sortOn (key : α → β) (l : List α) : StableSort key l (sortOn key l) := by
  have htrans : ∀ a b c, decide (key a ≤ key b) → decide (key b ≤ key c) → decide (key a ≤ key c) := by
    simp only [decide_eq_true_eq]
    exact fun a b c => le_trans
  have htotal : ∀ a b, decide (key a ≤ key b) || decide (key b ≤ key a) := by
    simp only [Bool.or_eq_true, decide_eq_true_eq]
    exact fun a b => le_total _ _
  have hperm : (sortOn key l).Perm l := List.mergeSort_perm _ _
  refine ⟨hperm, ?_, fun k => ?_⟩
  · simpa [sortOn] using List.pairwise_mergeSort htrans htotal l
  · have hequal : (l.filter fun a => key a = k).Pairwise fun a b => decide (key a ≤ key b) := by
      refine List.pairwise_of_forall_mem_list fun a ha b hb => ?_
      have ha' : key a = k := by simpa using (List.mem_filter.1 ha).2
      have hb' : key b = k := by simpa using (List.mem_filter.1 hb).2
      simp [ha', hb']
    have hsub : (l.filter fun a => key a = k).Sublist (sortOn key l) :=
      List.sublist_mergeSort htrans htotal hequal List.filter_sublist
    have hfilter := hsub.filter fun a => key a = k
    rw [List.filter_filter] at hfilter
    simp only [Bool.and_self] at hfilter
    exact (hfilter.eq_of_length (hperm.filter _).length_eq.symm).symm

theorem StableSort.unique (h : StableSort key l s) (h' : StableSort key l s') : s = s' := by
  have hkeys : ∀ k, (s.filter fun a => key a = k) = s'.filter fun a => key a = k :=
    fun k => (h.stable k).trans (h'.stable k).symm
  have hs := h.sorted
  have hs' := h'.sorted
  clear h h'
  induction s generalizing s' with
  | nil =>
      cases s' with
      | nil => rfl
      | cons b s' => simpa using hkeys (key b)
  | cons a s ih =>
      cases s' with
      | nil => simpa using hkeys (key a)
      | cons b s' =>
          rw [List.pairwise_cons] at hs hs'
          have hab : key a = key b := by
            refine le_antisymm ?_ ?_
            · have hb : b ∈ (a :: s).filter fun c => key c = key b := by simp [hkeys]
              rcases List.mem_cons.1 (List.mem_filter.1 hb).1 with rfl | hb
              · exact le_refl _
              · exact hs.1 b hb
            · have ha : a ∈ (b :: s').filter fun c => key c = key a := by simp [← hkeys]
              rcases List.mem_cons.1 (List.mem_filter.1 ha).1 with rfl | ha
              · exact le_refl _
              · exact hs'.1 a ha
          have hhead := hkeys (key a)
          rw [List.filter_cons_of_pos (by simp), List.filter_cons_of_pos (by simp [hab])] at hhead
          obtain ⟨rfl, -⟩ := List.cons_eq_cons.1 hhead
          refine congrArg (a :: ·) (ih (fun k => ?_) hs.2 hs'.2)
          have hk := hkeys k
          by_cases hak : key a = k
          · rw [List.filter_cons_of_pos (by simpa using hak),
              List.filter_cons_of_pos (by simpa using hak)] at hk
            exact (List.cons_eq_cons.1 hk).2
          · rwa [List.filter_cons_of_neg (by simpa using hak), List.filter_cons_of_neg (by simpa using hak)] at hk

end Stable

end Yeah.Sorting
