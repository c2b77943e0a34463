import Mathlib.Data.List.Basic
import Mathlib.Data.List.Nodup

namespace Yeah.Tables

variable {α : Type} {l : List α} {i j : Nat} {f : α → α} {a b : α}

theorem lookup {β : Type} {P : β → Prop} {g : α → β} {d : β} (h0 : P d)
    (h : ∀ a, l[i]? = some a → P (g a)) :
    P ((l[i]?.map g).getD d) := by
  cases ha : l[i]? with
  | none => exact h0
  | some a => exact h a ha

theorem of_modify (h : (l.modify i f)[j]? = some b) :
    ∃ a, l[j]? = some a ∧ b = if i = j then f a else a := by
  rw [List.getElem?_modify] at h
  obtain ⟨a, ha, rfl⟩ := Option.map_eq_some_iff.1 h
  exact ⟨a, ha, rfl⟩

theorem modify_eq (h : l[j]? = some a) : (l.modify i f)[j]? = some (if i = j then f a else a) := by
  rw [List.getElem?_modify, h]
  rfl

theorem mem_modify (h : b ∈ l.modify i f) : b ∈ l ∨ ∃ a, l[i]? = some a ∧ b = f a := by
  obtain ⟨j, hj⟩ := List.mem_iff_getElem?.1 h
  obtain ⟨a, ha, rfl⟩ := of_modify hj
  split
  · next e => exact Or.inr ⟨a, by rwa [e], rfl⟩
  · exact Or.inl (List.mem_of_getElem? ha)

theorem of_snoc (h : (l ++ [a])[j]? = some b) : l[j]? = some b ∨ (j = l.length ∧ b = a) := by
  rcases Nat.lt_trichotomy j l.length with hj | rfl | hj
  · exact Or.inl (by rwa [List.getElem?_append_left hj] at h)
  · exact Or.inr ⟨rfl, by simpa using h.symm⟩
  · rw [List.getElem?_eq_none (by simp; omega)] at h
    cases h

theorem snoc_eq (h : l[j]? = some b) : (l ++ [a])[j]? = some b := by
  obtain ⟨hj, -⟩ := List.getElem?_eq_some_iff.1 h
  rwa [List.getElem?_append_left hj]

theorem mem_set_of_mem (ha : l[i]? = some a) (hb : b ∈ l) (c : α) : b = a ∨ b ∈ l.set i c := by
  obtain ⟨j, hj⟩ := List.mem_iff_getElem?.1 hb
  by_cases hij : i = j
  · rw [← hij, ha] at hj
    exact Or.inl (Option.some_inj.1 hj).symm
  · exact Or.inr (List.mem_of_getElem? ((List.getElem?_set_ne hij).trans hj))

theorem mem_set_self (ha : l[i]? = some a) (c : α) : c ∈ l.set i c := by
  obtain ⟨hi, -⟩ := List.getElem?_eq_some_iff.1 ha
  exact List.mem_set hi c

theorem countP_modify (p : α → Bool) (h : l[i]? = some a) :
    (l.modify i f).countP p + (if p a then 1 else 0) = l.countP p + if p (f a) then 1 else 0 := by
  induction l generalizing i with
  | nil => cases h
  | cons x l ih =>
      cases i with
      | zero =>
          obtain rfl : x = a := by simpa using h
          simp only [List.modify_zero_cons, List.countP_cons]
          omega
      | succ i =>
          have := ih (by simpa using h)
          simp only [List.modify_succ_cons, List.countP_cons]
          omega

theorem countP_set (p : α → Bool) (h : l[i]? = some a) (c : α) :
    (l.set i c).countP p + (if p a then 1 else 0) = l.countP p + if p c then 1 else 0 := by
  have hset : l.set i c = l.modify i fun _ => c := by
    obtain ⟨hi, -⟩ := List.getElem?_eq_some_iff.1 h
    rw [List.modify_eq_set_getElem?, h]
    rfl
  rw [hset]
  exact countP_modify p h

theorem find?_key {β : Type} [DecidableEq β] {key : α → β} (h : (l.map key).Nodup) (ha : a ∈ l) :
    l.find? (fun b => key b = key a) = some a := by
  induction l with
  | nil => cases ha
  | cons b l ih =>
      rw [List.map_cons, List.nodup_cons] at h
      rw [List.find?_cons]
      rcases List.mem_cons.1 ha with rfl | ha
      · simp
      · have hb : key b ≠ key a := fun he => h.1 (he ▸ List.mem_map_of_mem ha)
        simpa [hb] using ih h.2 ha

end Yeah.Tables
