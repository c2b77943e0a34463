import Yeah.Text.Replace

namespace Yeah.Text

variable {α : Type} {m s : List α}

/-- The text of a masked text, in which `none` stands for the mark `m`. -/
def render (m : List α) : List (Option α) → List α
  | [] => []
  | none :: t => m ++ render m t
  | some c :: t => c :: render m t

theorem render_append (t u : List (Option α)) : render m (t ++ u) = render m t ++ render m u := by
  induction t with
  | nil => rfl
  | cons o t ih => cases o <;> simp [render, ih]

@[simp] theorem render_some (t : List α) : render m (t.map some) = t := by
  induction t with
  | nil => rfl
  | cons c t ih => simp [render, ih]

theorem render_flatten (ts : List (List (Option α))) :
    render m ts.flatten = (ts.map (render m)).flatten := by
  induction ts with
  | nil => rfl
  | cons t ts ih => simp [render_append, ih]

/-- No occurrence of `s` overlaps a mark: none starts inside it, ends inside it or holds it. -/
structure Apart (m s : List α) : Prop where
  start : ∀ u, u ≠ [] → u <:+ m → ¬ u <+: s ∧ ¬ s <+: u
  finish : ∀ v, v ≠ [] → v <+: m → ¬ v <:+ s
  inside : ¬ m <:+: s

theorem Apart.ne_nil (h : Apart m s) (hm : m ≠ []) : s ≠ [] := by
  rintro rfl
  exact (h.start m hm List.suffix_rfl).2 List.nil_prefix

/-- What follows a symbol of an occurrence: the rest of `s` still avoids every mark. -/
theorem prefix_render_iff (hf : ∀ v, v ≠ [] → v <+: m → ¬ v <:+ s) (hi : ¬ m <:+: s)
    (t : List (Option α)) : s <+: render m t ↔ s.map some <+: t := by
  induction t generalizing s with
  | nil => simp [render]
  | cons o t ih =>
      cases s with
      | nil => simp
      | cons a s =>
          cases o with
          | some c =>
              have hs : s <:+ a :: s := List.suffix_cons a s
              simp only [render, List.map_cons, List.cons_prefix_cons, Option.some.injEq]
              rw [ih (fun v hv hm hs' => hf v hv hm (hs'.trans hs)) (fun h => hi (h.trans hs.isInfix))]
          | none =>
              refine iff_of_false (fun h => ?_) (by simp)
              rcases List.prefix_or_prefix_of_prefix h (List.prefix_append m (render m t)) with h | h
              · exact hf _ (List.cons_ne_nil a s) h List.suffix_rfl
              · exact hi h.isInfix

theorem Apart.prefix_render_iff (h : Apart m s) (t : List (Option α)) :
    s <+: render m t ↔ s.map some <+: t := Text.prefix_render_iff h.finish h.inside t

theorem Apart.not_prefix_mark (h : Apart m s) {u : List α} (hu : u ≠ []) (hm : u <:+ m) (t : List α) :
    ¬ s <+: u ++ t := by
  intro hs
  rcases List.prefix_or_prefix_of_prefix hs (List.prefix_append u t) with h' | h'
  · exact (h.start u hu hm).2 h'
  · exact (h.start u hu hm).1 h'

theorem Apart.infix_mark_append (h : Apart m s) {u : List α} (hm : u <:+ m) (t : List α) :
    s <:+: u ++ t ↔ s <:+: t := by
  induction u with
  | nil => rfl
  | cons a u ih =>
      rw [List.cons_append, List.infix_cons_iff, ih ((List.suffix_cons a u).trans hm)]
      exact or_iff_right (h.not_prefix_mark (List.cons_ne_nil a u) hm t)

theorem Apart.infix_render_iff (h : Apart m s) (hm : m ≠ []) (t : List (Option α)) :
    s <:+: render m t ↔ s.map some <:+: t := by
  induction t with
  | nil => simp [render]
  | cons o t ih =>
      have hs := h.ne_nil hm
      cases o with
      | none =>
          rw [render, h.infix_mark_append List.suffix_rfl, ih, List.infix_cons_iff]
          refine (or_iff_right fun hp => ?_).symm
          cases s with
          | nil => exact hs rfl
          | cons a s => simp at hp
      | some c =>
          rw [List.infix_cons_iff, ← ih, ← h.prefix_render_iff (some c :: t), render, List.infix_cons_iff]

/-- An occurrence of `q` that runs over the end of one of the parts. -/
def Seam (parts : List (List α)) (q : List α) : Prop :=
  ∃ xs ys u v, parts = xs ++ ys ∧ u ≠ [] ∧ v ≠ [] ∧ q = u ++ v ∧ u <:+ xs.flatten ∧ v <+: ys.flatten

theorem infix_flatten_iff {q : List α} (hq : q ≠ []) (parts : List (List α)) :
    q <:+: parts.flatten ↔ (∃ l ∈ parts, q <:+: l) ∨ Seam parts q := by
  constructor
  · intro h
    induction parts with
    | nil => exact absurd (List.infix_nil.mp h) hq
    | cons l parts ih =>
        rw [List.flatten_cons, List.infix_append_iff_ne_nil] at h
        rcases h with h | h | ⟨u, v, hu, hv, rfl, hl, hp⟩
        · exact Or.inl ⟨l, List.mem_cons_self .., h⟩
        · rcases ih h with ⟨l', hl', h⟩ | ⟨xs, ys, u, v, rfl, hu, hv, rfl, hx, hy⟩
          · exact Or.inl ⟨l', List.mem_cons_of_mem l hl', h⟩
          · refine Or.inr ⟨l :: xs, ys, u, v, rfl, hu, hv, rfl, ?_, hy⟩
            exact hx.trans (List.suffix_append l xs.flatten)
        · exact Or.inr ⟨[l], parts, u, v, rfl, hu, hv, rfl, by simpa using hl, hp⟩
  · rintro (⟨l, hl, h⟩ | ⟨xs, ys, u, v, rfl, -, -, rfl, hx, hy⟩)
    · exact h.trans (List.infix_of_mem_flatten hl)
    · rw [List.flatten_append, List.infix_append_iff]
      exact Or.inr (Or.inr ⟨u, v, rfl, hx, hy⟩)

theorem none_not_mem_map (s : List α) : (none : Option α) ∉ s.map some := by simp

variable [DecidableEq α]

theorem Apart.replaceFrom_mark_append (h : Apart m s) (r : List α) {u : List α} (hm : u <:+ m)
    (t : List α) :
    replaceFrom s r 0 (u ++ t) = u ++ replaceFrom s r 0 t := by
  induction u with
  | nil => rfl
  | cons a u ih =>
      have hn := h.not_prefix_mark (List.cons_ne_nil a u) hm t
      rw [List.cons_append] at hn ⊢
      rw [replaceFrom, if_neg hn, ih ((List.suffix_cons a u).trans hm), List.cons_append]

/-- Replacing in the text and in the masked text agree, as no match touches a mark. -/
theorem Apart.replaceFrom_render (h : Apart m s) (hm : m ≠ []) (k : Nat) (t : List (Option α))
    (hk : ∀ o ∈ t.take k, o ≠ none) :
    replaceFrom s m k (render m t) = render m (replaceFrom (s.map some) [none] k t) := by
  induction t generalizing k with
  | nil => cases k <;> rfl
  | cons o t ih =>
      have hs := h.ne_nil hm
      cases k with
      | succ k =>
          rw [List.take_succ_cons, List.forall_mem_cons] at hk
          cases o with
          | none => exact absurd rfl hk.1
          | some c => exact ih k hk.2
      | zero =>
          cases o with
          | none =>
              have hn : ¬ s.map some <+: none :: t := by
                cases s with
                | nil => exact absurd rfl hs
                | cons a s => simp
              rw [render, h.replaceFrom_mark_append m List.suffix_rfl, ih 0 (by simp), replaceFrom,
                if_neg hn, render]
          | some c =>
              have hp := h.prefix_render_iff (some c :: t)
              rw [render] at hp
              rw [render, replaceFrom, replaceFrom, List.length_map]
              by_cases hc : s.map some <+: some c :: t
              · rw [if_pos hc, if_pos (hp.mpr hc), List.singleton_append, render]
                congr 1
                refine ih _ fun o ho => ?_
                cases s with
                | nil => exact absurd rfl hs
                | cons a s =>
                    rw [List.map_cons, List.cons_prefix_cons, List.prefix_iff_eq_take,
                      List.length_map] at hc
                    simp only [List.length_cons, Nat.add_sub_cancel] at ho
                    rw [← hc.2] at ho
                    obtain ⟨b, -, rfl⟩ := List.mem_map.mp ho
                    exact Option.some_ne_none b
              · rw [if_neg hc, if_neg (mt hp.mp hc), render, ih 0 (by simp)]

/-- The masked text that replacing every word of `ss` by a mark leaves. -/
def mask (ss : List (List α)) (t : List α) : List (Option α) :=
  ss.foldl (fun u s => replaceAll (s.map some) [none] u) (t.map some)

theorem render_foldl_mask (hm : m ≠ []) {ss : List (List α)} (h : ∀ s ∈ ss, Apart m s)
    (u : List (Option α)) :
    ss.foldl (fun t s => replaceAll s m t) (render m u) =
      render m (ss.foldl (fun u s => replaceAll (s.map some) [none] u) u) := by
  induction ss generalizing u with
  | nil => rfl
  | cons s ss ih =>
      obtain ⟨hs, hss⟩ := List.forall_mem_cons.mp h
      rw [List.foldl_cons, List.foldl_cons, replaceAll, hs.replaceFrom_render hm 0 u (by simp)]
      exact ih hss _

theorem render_mask (hm : m ≠ []) {ss : List (List α)} (h : ∀ s ∈ ss, Apart m s) (t : List α) :
    ss.foldl (fun t s => replaceAll s m t) t = render m (mask ss t) := by
  have := render_foldl_mask hm h (t.map some)
  rwa [render_some] at this

theorem not_infix_foldl_mask {q : List α} (ss : List (List α)) {u : List (Option α)}
    (h : ¬ q.map some <:+: u) :
    ¬ q.map some <:+: ss.foldl (fun u s => replaceAll (s.map some) [none] u) u := by
  induction ss generalizing u with
  | nil => exact h
  | cons s ss ih => exact ih (fun hq => h (infix_replaceFrom (none_not_mem_map q) 0 hq))

theorem not_infix_mask {ss : List (List α)} (h : s ∈ ss) (hs : s ≠ []) (t : List α) :
    ¬ s.map some <:+: mask ss t := by
  rw [mask]
  generalize t.map some = u
  induction ss generalizing u with
  | nil => cases h
  | cons a ss ih =>
      rcases List.mem_cons.mp h with rfl | h
      · exact not_infix_foldl_mask ss (not_infix_replaceFrom (none_not_mem_map s) (by simpa using hs) 0)
      · exact ih h _

end Yeah.Text
