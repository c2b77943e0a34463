import Mathlib.Data.List.Infix

namespace Yeah.Text

variable {α : Type} [DecidableEq α]

/-- The pieces between the leftmost, non-overlapping matches of `s`; `k` symbols of the
current match are still to be skipped. -/
def splitFrom (s : List α) : Nat → List α → List α × List (List α)
  | _, [] => ([], [])
  | k + 1, _ :: t => splitFrom s k t
  | 0, c :: t =>
      if s <+: c :: t then
        let r := splitFrom s (s.length - 1) t
        ([], r.1 :: r.2)
      else
        let r := splitFrom s 0 t
        (c :: r.1, r.2)

def split (s t : List α) : List (List α) :=
  let r := splitFrom s 0 t
  r.1 :: r.2

def replaceFrom (s r : List α) : Nat → List α → List α
  | _, [] => []
  | k + 1, _ :: t => replaceFrom s r k t
  | 0, c :: t =>
      if s <+: c :: t then r ++ replaceFrom s r (s.length - 1) t else c :: replaceFrom s r 0 t

def replaceAll (s r t : List α) : List α := replaceFrom s r 0 t

theorem intercalate_splitFrom (s r : List α) (k : Nat) (t : List α) :
    r.intercalate ((splitFrom s k t).1 :: (splitFrom s k t).2) = replaceFrom s r k t := by
  induction t generalizing k with
  | nil => cases k <;> rfl
  | cons c t ih =>
      cases k with
      | succ k => exact ih k
      | zero =>
          by_cases h : s <+: c :: t
          · simp [splitFrom, replaceFrom, h, ← ih (s.length - 1)]
          · have := ih 0
            generalize hr : splitFrom s 0 t = p at this
            obtain ⟨p, ps⟩ := p
            cases ps <;> simp_all [splitFrom, replaceFrom]

theorem intercalate_split (s r t : List α) : r.intercalate (split s t) = replaceAll s r t :=
  intercalate_splitFrom s r 0 t

theorem intercalate_splitOn_sep (sep : List α) (a : α) (l : List α) :
    sep.intercalate (l.splitOn a) = l.flatMap fun c => if c = a then sep else [c] := by
  induction l with
  | nil => rfl
  | cons c l ih =>
      obtain ⟨p, ps, hp⟩ := List.exists_cons_of_ne_nil (List.splitOn_ne_nil a l)
      rw [List.splitOn_cons_eq_if_modifyHead, List.flatMap_cons, ← ih, hp]
      by_cases hc : c = a
      · simp [hc]
      · cases ps <;> simp [hc]

theorem notMem_of_mem_splitOn {a : α} {l s : List α} (h : s ∈ l.splitOn a) : a ∉ s := by
  induction l generalizing s with
  | nil =>
      rw [List.splitOn_nil, List.mem_singleton] at h
      simp [h]
  | cons x l ih =>
      rw [List.splitOn_cons_eq_if_modifyHead] at h
      split_ifs at h with hx
      · rcases List.mem_cons.1 h with rfl | h
        · exact List.not_mem_nil
        · exact ih h
      · cases hl : l.splitOn a with
        | nil => exact absurd hl (List.splitOn_ne_nil a l)
        | cons t rest =>
            rw [hl, List.modifyHead_cons] at h
            rcases List.mem_cons.1 h with rfl | h
            · rintro hm
              rcases List.mem_cons.1 hm with rfl | hm
              · simp at hx
              · exact ih (hl ▸ List.mem_cons_self) hm
            · exact ih (hl ▸ List.mem_cons_of_mem _ h)

theorem splitOn_intercalate_flatMap (a : α) {l : List (List α)} (h : l ≠ []) :
    ([a].intercalate l).splitOn a = l.flatMap (·.splitOn a) := by
  induction l with
  | nil => exact absurd rfl h
  | cons s l ih =>
      cases l with
      | nil => simp
      | cons t l =>
          rw [List.intercalate_cons_cons, List.append_assoc, List.singleton_append, List.splitOn_append_cons_self,
            ih (List.cons_ne_nil t l), List.flatMap_cons (x := s)]

theorem append_cons_inj_left {a : α} {x y u v : List α} (hx : a ∉ x) (hy : a ∉ y)
    (h : x ++ a :: u = y ++ a :: v) :
    x = y ∧ u = v := by
  have hsplit := congrArg (·.splitOn a) h
  rw [List.splitOn_append_cons_self_of_not_mem hx, List.splitOn_append_cons_self_of_not_mem hy,
    List.cons.injEq] at hsplit
  refine ⟨hsplit.1, ?_⟩
  calc
    u = [a].intercalate (u.splitOn a) := (List.intercalate_splitOn a).symm
    _ = [a].intercalate (v.splitOn a) := by rw [hsplit.2]
    _ = v := List.intercalate_splitOn a

theorem replaceFrom_zero_of_not_infix {s r t : List α} (h : ¬ s <:+: t) : replaceFrom s r 0 t = t := by
  induction t with
  | nil => rfl
  | cons c t ih =>
      rw [List.infix_cons_iff, not_or] at h
      rw [replaceFrom, if_neg h.1, ih h.2]

theorem replaceAll_eq_self {s r t : List α} (h : ¬ s <:+: t) : replaceAll s r t = t :=
  replaceFrom_zero_of_not_infix h

section Fresh

variable {s q t : List α} {x : α}

/-- A symbol that does not occur in `q` cuts every occurrence of `q`. -/
theorem prefix_replaceFrom (hx : x ∉ q) (h : q <+: replaceFrom s [x] 0 t) : q <+: t := by
  induction t generalizing q with
  | nil => exact h
  | cons c t ih =>
      rw [replaceFrom] at h
      split_ifs at h
      · rw [List.singleton_append, List.prefix_cons_iff] at h
        rcases h with rfl | ⟨u, rfl, -⟩
        · exact List.nil_prefix
        · exact absurd (List.mem_cons_self ..) hx
      · rw [List.prefix_cons_iff] at h ⊢
        rcases h with rfl | ⟨u, rfl, hu⟩
        · exact Or.inl rfl
        · exact Or.inr ⟨u, rfl, ih (fun hm => hx (List.mem_cons_of_mem _ hm)) hu⟩

theorem infix_replaceFrom (hx : x ∉ q) (k : Nat) (h : q <:+: replaceFrom s [x] k t) : q <:+: t := by
  induction t generalizing k with
  | nil => cases k <;> exact h
  | cons c t ih =>
      cases k with
      | succ k => exact (ih k h).trans (List.infix_cons List.infix_rfl)
      | zero =>
          rw [replaceFrom] at h
          split_ifs at h with hs
          · rw [List.singleton_append, List.infix_cons_iff] at h
            rcases h with h | h
            · rw [List.prefix_cons_iff] at h
              rcases h with rfl | ⟨u, rfl, -⟩
              · exact List.nil_infix
              · exact absurd (List.mem_cons_self ..) hx
            · exact (ih _ h).trans (List.infix_cons List.infix_rfl)
          · rw [List.infix_cons_iff] at h
            rcases h with h | h
            · refine (prefix_replaceFrom (s := s) hx (t := c :: t) ?_).isInfix
              rwa [replaceFrom, if_neg hs]
            · exact (ih 0 h).trans (List.infix_cons List.infix_rfl)

theorem not_infix_replaceFrom (hx : x ∉ s) (hs : s ≠ []) (k : Nat) : ¬ s <:+: replaceFrom s [x] k t := by
  induction t generalizing k with
  | nil => cases k <;> simpa [replaceFrom] using hs
  | cons c t ih =>
      cases k with
      | succ k => exact ih k
      | zero =>
          intro h
          rw [replaceFrom] at h
          split_ifs at h with hp
          · rw [List.singleton_append, List.infix_cons_iff] at h
            rcases h with h | h
            · rw [List.prefix_cons_iff] at h
              rcases h with rfl | ⟨u, rfl, -⟩
              · exact hs rfl
              · exact hx (List.mem_cons_self ..)
            · exact ih _ h
          · rw [List.infix_cons_iff] at h
            rcases h with h | h
            · refine hp (prefix_replaceFrom (s := s) hx (t := c :: t) ?_)
              rwa [replaceFrom, if_neg hp]
            · exact ih 0 h

end Fresh

end Yeah.Text
