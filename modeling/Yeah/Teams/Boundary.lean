import Yeah.Teams.Routes

namespace Yeah.Teams

open Relational

/-! ### The invariant -/

/-- What holds of the rows at any time; `linked` is that no row leads to one of another team. -/
structure Sound (db : Db) : Prop where
  intact : Intact schema db.rows
  fresh : ∀ k r, db.find k = some r → k.2 < db.next
  typed : ∀ k r, db.find k = some r → r.table = k.1
  unique : ∀ k j r q, db.find k = some r → db.find j = some q → k.2 = j.2 → k = j
  bounded : ∀ n, db.next ≤ n → db.owner n = none
  owned : ∀ k r, db.find k = some r → ∃ t, db.owner k.2 = some t
  own : ∀ k r, db.find k = some r → r.references = [] → db.owner k.2 = some k.2
  linked : ∀ k r, db.find k = some r → ∀ l ∈ r.links, l.1 ≠ .users → db.owner l.2 = db.owner k.2

/-- The tables that nothing is deleted from. -/
def Lasting (table : Table) : Prop := table = .teams ∨ table = .users ∨ table = .teamMembers

/-- What no step undoes. -/
structure Later (db d : Db) : Prop where
  owner : ∀ n t, db.owner n = some t → d.owner n = some t
  member : ∀ k m, db.find k = some (.teamMember m) → d.find k = some (.teamMember m)
  lasting : ∀ k r, Lasting k.1 → db.find k = some r → ∃ q, d.find k = some q

theorem Later.refl (db : Db) : Later db db := ⟨fun _ _ h => h, fun _ _ h => h, fun _ r _ h => ⟨r, h⟩⟩

theorem Later.trans {a b c : Db} (h : Later a b) (h' : Later b c) : Later a c where
  owner := fun n t hn => h'.owner n t (h.owner n t hn)
  member := fun k m hk => h'.member k m (h.member k m hk)
  lasting := fun k r hl hk => by
    obtain ⟨q, hq⟩ := h.lasting k r hl hk
    exact h'.lasting k q hl hq

/-- Nothing changes but rows that belong to `t`. -/
structure Touches (t : Nat) (db d : Db) : Prop where
  sound : Sound d
  later : Later db d
  confined : ∀ k, d.owner k.2 ≠ some t → d.find k = db.find k

theorem Touches.refl {t : Nat} {db : Db} (h : Sound db) : Touches t db db := ⟨h, Later.refl db, fun _ _ => rfl⟩

theorem Touches.trans {t : Nat} {a b c : Db} (h : Touches t a b) (h' : Touches t b c) : Touches t a c where
  sound := h'.sound
  later := h.later.trans h'.later
  confined := fun k hk => (h'.confined k hk).trans (h.confined k fun hb => hk (h'.later.owner k.2 t hb))

section Rows

theorem references_eq_nil {r : Row} : r.references = [] ↔ r.table = .teams ∨ r.table = .users := by
  cases r <;> simp [Row.references, Row.table, Row.cascade]

/-- What a row refers to first is no user. -/
theorem head_references {r : Row} {e : Key × Bool} {l : List (Key × Bool)} (h : r.references = e :: l) : e.1.1 ≠ .users := by
  cases r <;> simp only [Row.references, Row.cascade, List.singleton_append, List.append_assoc, List.cons.injEq,
    reduceCtorEq] at h <;> obtain ⟨rfl, -⟩ := h <;> exact Table.noConfusion

theorem mem_links {r : Row} {l : Key} : l ∈ r.links ↔ (∃ e ∈ r.references, e.1 = l) ∨ l ∈ r.mentions := by
  rw [Row.links, List.mem_append, List.mem_map]

theorem table_clear (gone : Key → Bool) (r : Row) : (r.clear gone).table = r.table := by cases r <;> rfl

theorem mentions_clear (gone : Key → Bool) (r : Row) : (r.clear gone).mentions = r.mentions := by cases r <;> rfl

theorem links_clear {gone : Key → Bool} {r : Row} {l : Key} (h : l ∈ (r.clear gone).links) : l ∈ r.links := by
  rw [mem_links] at h ⊢
  rcases h with ⟨e, he, hl⟩ | h
  · rw [Row.references_clear] at he
    exact Or.inl ⟨e, (List.mem_filter.1 he).1, hl⟩
  · rw [mentions_clear] at h
    exact Or.inr h

end Rows

section Steps

variable {db d : Db} {t : Nat}

/-- A row that has a team belongs to it. -/
theorem Sound.owner_of_team (h : Sound db) {k : Key} {r : Row} (hk : db.find k = some r) {u : Nat} {b : Bool}
    (hr : ((.teams, u), b) ∈ r.references) : db.owner k.2 = some u := by
  obtain ⟨q, hq⟩ := h.intact.target hk hr
  have htable : q.table = .teams := h.typed _ _ hq
  have hown := h.own _ _ hq (references_eq_nil.2 (Or.inl htable))
  have hlinked := h.linked k r hk (.teams, u) (mem_links.2 (Or.inl ⟨_, hr, rfl⟩)) Table.noConfusion
  exact hlinked.symm.trans hown

theorem touches_insert (h : Sound db) {r : Row} (hi : db.insert r = some d)
    (hlinks : ∀ l ∈ r.links, l.1 ≠ .users → db.owner l.2 = some t) (hroot : r.references = [] → t = db.next) :
    Touches t db d ∧ d.owner db.next = some t := by
  obtain ⟨rows, hrows, rfl⟩ := Option.map_eq_some_iff.1 hi
  have hfind : ∀ k, find rows k = if k = (r.table, db.next) then some r else db.find k := find_insert hrows
  have hhome : db.homeOf r = some t := by
    rw [Db.homeOf]
    split
    next hnil => rw [hroot hnil]
    next e l hcons =>
      have hmem : e.1 ∈ r.links := mem_links.2 (Or.inl ⟨e, hcons ▸ List.mem_cons_self, rfl⟩)
      exact hlinks e.1 hmem (head_references hcons)
  have hold : ∀ n u, db.owner n = some u → Function.update db.owner db.next (db.homeOf r) n = some u := by
    intro n u hn
    have hne : n ≠ db.next := by
      rintro rfl
      rw [h.bounded _ le_rfl] at hn
      cases hn
    rw [Function.update_of_ne hne]
    exact hn
  have hnew : Function.update db.owner db.next (db.homeOf r) db.next = some t := by rw [Function.update_self, hhome]
  refine ⟨⟨⟨h.intact.insert hrows, ?_, ?_, ?_, ?_, ?_, ?_, ?_⟩, ⟨hold, ?_, ?_⟩, ?_⟩, hnew⟩
  · intro k q hq
    rw [Db.find, hfind] at hq
    split at hq
    next hk => exact hk ▸ Nat.lt_succ_self _
    next => exact Nat.lt_succ_of_lt (h.fresh k q hq)
  · intro k q hq
    rw [Db.find, hfind] at hq
    split at hq
    next hk => rw [← Option.some.inj hq, hk]
    next => exact h.typed k q hq
  · intro k j q q' hq hq' heq
    rw [Db.find, hfind] at hq hq'
    split at hq <;> split at hq'
    next hk hj => exact hk.trans hj.symm
    next hk hj =>
      have hlt := h.fresh j q' hq'
      rw [← heq, hk] at hlt
      exact absurd hlt (Nat.lt_irrefl _)
    next hk hj =>
      have hlt := h.fresh k q hq
      rw [heq, hj] at hlt
      exact absurd hlt (Nat.lt_irrefl _)
    next => exact h.unique k j q q' hq hq' heq
  · intro n hn
    have hne : n ≠ db.next := (Nat.lt_of_succ_le hn).ne'
    exact (Function.update_of_ne hne ..).trans (h.bounded n (Nat.le_of_succ_le hn))
  · intro k q hq
    rw [Db.find, hfind] at hq
    split at hq
    next hk => exact ⟨t, hk ▸ hnew⟩
    next =>
      obtain ⟨u, hu⟩ := h.owned k q hq
      exact ⟨u, hold _ _ hu⟩
  · intro k q hq hnil
    rw [Db.find, hfind] at hq
    split at hq
    next hk =>
      obtain rfl := Option.some.inj hq
      rw [hk, ← hroot hnil]
      exact hroot hnil ▸ hnew
    next => exact hold _ _ (h.own k q hq hnil)
  · intro k q hq l hl huser
    rw [Db.find, hfind] at hq
    split at hq
    next hk =>
      obtain rfl := Option.some.inj hq
      rw [hk]
      exact (hold _ _ (hlinks l hl huser)).trans hnew.symm
    next =>
      obtain ⟨u, hu⟩ := h.owned k q hq
      have hlinked := (h.linked k q hq l hl huser).trans hu
      exact (hold _ _ hlinked).trans (hold _ _ hu).symm
  · intro k m hm
    have hne : k ≠ (r.table, db.next) := by
      rintro rfl
      exact Nat.lt_irrefl _ (h.fresh _ _ hm)
    rw [Db.find, hfind, if_neg hne]
    exact hm
  · intro k q _ hq
    rw [Db.find, hfind]
    split
    next => exact ⟨r, rfl⟩
    next => exact ⟨q, hq⟩
  · intro k hk
    have hne : k ≠ (r.table, db.next) := by
      rintro rfl
      exact hk hnew
    exact (hfind k).trans (if_neg hne)

theorem touches_update (h : Sound db) {k : Key} {f : Row → Row} (hu : db.update k f = some d) (ht : db.owner k.2 = some t)
    (hmember : k.1 ≠ .teamMembers) (hf : ∀ r, (f r).table = r.table ∧ ∀ l ∈ (f r).links, l ∈ r.links ∨ db.owner l.2 = some t) :
    Touches t db d := by
  obtain ⟨rows, hrows, rfl⟩ := Option.map_eq_some_iff.1 hu
  have hfind : ∀ j, find rows j = if j = k then (db.find j).map f else db.find j := find_update hrows
  have hback : ∀ j q, find rows j = some q → ∃ r, db.find j = some r ∧ q.table = r.table ∧
      ∀ l ∈ q.links, l ∈ r.links ∨ (db.owner l.2 = some t ∧ db.owner j.2 = some t) := by
    intro j q hq
    rw [hfind] at hq
    split at hq
    next hj =>
      obtain ⟨r, hr, rfl⟩ := Option.map_eq_some_iff.1 hq
      exact ⟨r, hr, (hf r).1, fun l hl => ((hf r).2 l hl).imp_right fun hl' => ⟨hl', hj ▸ ht⟩⟩
    next => exact ⟨q, hq, rfl, fun l hl => Or.inl hl⟩
  refine ⟨⟨h.intact.update hrows, ?_, ?_, ?_, h.bounded, ?_, ?_, ?_⟩, ⟨fun _ _ hn => hn, ?_, ?_⟩, ?_⟩
  · intro j q hq
    obtain ⟨r, hr, -⟩ := hback j q hq
    exact h.fresh j r hr
  · intro j q hq
    obtain ⟨r, hr, htable, -⟩ := hback j q hq
    exact htable.trans (h.typed j r hr)
  · intro i j q q' hq hq' heq
    obtain ⟨r, hr, -⟩ := hback i q hq
    obtain ⟨r', hr', -⟩ := hback j q' hq'
    exact h.unique i j r r' hr hr' heq
  · intro j q hq
    obtain ⟨r, hr, -⟩ := hback j q hq
    exact h.owned j r hr
  · intro j q hq hnil
    obtain ⟨r, hr, htable, -⟩ := hback j q hq
    exact h.own j r hr (references_eq_nil.2 (htable ▸ references_eq_nil.1 hnil))
  · intro j q hq l hl huser
    obtain ⟨r, hr, -, hlinks⟩ := hback j q hq
    rcases hlinks l hl with hl | ⟨hl, hj⟩
    · exact h.linked j r hr l hl huser
    · exact hl.trans hj.symm
  · intro j m hm
    have hne : j ≠ k := by
      rintro rfl
      exact hmember (h.typed _ _ hm).symm
    rw [Db.find, hfind, if_neg hne]
    exact hm
  · intro j r _ hr
    rw [Db.find, hfind]
    split
    next => exact ⟨f r, by rw [hr, Option.map_some]⟩
    next => exact ⟨r, hr⟩
  · intro j hj
    have hne : j ≠ k := by
      rintro rfl
      exact hj ht
    exact (hfind j).trans (if_neg hne)

theorem touches_delete (h : Sound db) {k : Key} (ht : db.owner k.2 = some t) (hk : ¬ Lasting k.1) :
    Touches t db (db.delete k) := by
  have hback : ∀ j q, find (delete schema db.rows k) j = some q → ∃ r gone, db.find j = some r ∧ q = Row.clear gone r := by
    intro j q hq
    obtain ⟨r, gone, hr, hclear, -⟩ := find_delete h.intact hq
    exact ⟨r, gone, hr, hclear⟩
  -- The rows that are lost or changed belong to the same team, and are none of the lasting ones.
  have hclosed : ∀ j r, db.find j = some r → ∀ e ∈ r.references, (db.owner e.1.2 = some t ∧ ¬ Lasting e.1.1) →
      db.owner j.2 = some t ∧ ¬ Lasting j.1 := by
    rintro j r hr e he ⟨howner, hlasting⟩
    have huser : e.1.1 ≠ .users := fun hu => hlasting (Or.inr (Or.inl hu))
    refine ⟨(h.linked j r hr e.1 (mem_links.2 (Or.inl ⟨e, he, rfl⟩)) huser).symm.trans howner, fun hj => ?_⟩
    rw [← h.typed j r hr] at hj
    rcases hj with hj | hj | hj
    · rw [references_eq_nil.2 (Or.inl hj)] at he
      cases he
    · rw [references_eq_nil.2 (Or.inr hj)] at he
      cases he
    · cases r <;> simp only [Row.table, reduceCtorEq] at hj
      simp only [Row.references, Row.cascade, List.mem_append, List.mem_singleton] at he
      rcases he with rfl | rfl
      · exact hlasting (Or.inl rfl)
      · exact hlasting (Or.inr (Or.inl rfl))
  have hstays : ∀ j r, db.find j = some r → ¬ (db.owner j.2 = some t ∧ ¬ Lasting j.1) →
      find (delete schema db.rows k) j = some r := fun j r hr hj =>
    find_delete_of_not (P := fun j => db.owner j.2 = some t ∧ ¬ Lasting j.1) h.intact ⟨ht, hk⟩ hclosed hr hj
  refine ⟨⟨h.intact.delete k, ?_, ?_, ?_, h.bounded, ?_, ?_, ?_⟩, ⟨fun _ _ hn => hn, ?_, ?_⟩, ?_⟩
  · intro j q hq
    obtain ⟨r, gone, hr, -⟩ := hback j q hq
    exact h.fresh j r hr
  · intro j q hq
    obtain ⟨r, gone, hr, rfl⟩ := hback j q hq
    exact (table_clear gone r).trans (h.typed j r hr)
  · intro i j q q' hq hq' heq
    obtain ⟨r, -, hr, -⟩ := hback i q hq
    obtain ⟨r', -, hr', -⟩ := hback j q' hq'
    exact h.unique i j r r' hr hr' heq
  · intro j q hq
    obtain ⟨r, gone, hr, -⟩ := hback j q hq
    exact h.owned j r hr
  · intro j q hq hnil
    obtain ⟨r, gone, hr, rfl⟩ := hback j q hq
    refine h.own j r hr (references_eq_nil.2 ?_)
    rw [← table_clear gone r]
    exact references_eq_nil.1 hnil
  · intro j q hq l hl huser
    obtain ⟨r, gone, hr, rfl⟩ := hback j q hq
    exact h.linked j r hr l (links_clear hl) huser
  · intro j m hm
    refine hstays j _ hm fun hj => hj.2 (Or.inr (Or.inr ?_))
    exact (h.typed j _ hm).symm
  · exact fun j r hlasting hr => ⟨r, hstays j r hr fun hj => hj.2 hlasting⟩
  · intro j hj
    cases hr : db.find j with
    | some r => exact hstays j r hr fun hj' => hj hj'.1
    | none =>
        cases hq : find (delete schema db.rows k) j with
        | none => exact hq
        | some q =>
            obtain ⟨r, -, hr', -⟩ := hback j q hq
            cases hr.symm.trans hr'

theorem touches_deletes {keys : List Key} (h : Sound db) (hkeys : ∀ k ∈ keys, db.owner k.2 = some t ∧ ¬ Lasting k.1) :
    Touches t db (keys.foldl Db.delete db) := by
  induction keys generalizing db with
  | nil => exact Touches.refl h
  | cons k keys ih =>
      obtain ⟨howner, hlasting⟩ := hkeys k List.mem_cons_self
      have hfirst := touches_delete h howner hlasting
      refine hfirst.trans (ih hfirst.sound fun j hj => ?_)
      exact (hkeys j (List.mem_cons_of_mem _ hj)).imp_left fun ho => hfirst.later.owner _ _ ho

theorem touches_deleteWhere (h : Sound db) {p : Row → Bool}
    (hp : ∀ k r, db.find k = some r → p r = true → db.owner k.2 = some t ∧ ¬ Lasting k.1) : Touches t db (db.deleteWhere p) := by
  refine touches_deletes h fun k hk => ?_
  obtain ⟨⟨j, r⟩, he, rfl⟩ := List.mem_map.1 hk
  obtain ⟨hmem, hpr⟩ := List.mem_filter.1 he
  exact hp j r (find_of_mem h.intact.nodup hmem) hpr

theorem touches_insertAll (h : Sound db) {rs : List Row} (hi : db.insertAll rs = some d)
    (hrs : ∀ r ∈ rs, r.references ≠ [] ∧ ∀ l ∈ r.links, l.1 ≠ .users → db.owner l.2 = some t) : Touches t db d := by
  induction rs generalizing db with
  | nil => exact Option.some.inj hi ▸ Touches.refl h
  | cons r rs ih =>
      obtain ⟨e, he, hrest⟩ := Option.bind_eq_some_iff.1 hi
      obtain ⟨hne, hlinks⟩ := hrs r List.mem_cons_self
      have hfirst := (touches_insert h he hlinks fun hnil => absurd hnil hne).1
      refine hfirst.trans (ih hfirst.sound hrest fun q hq => ?_)
      exact (hrs q (List.mem_cons_of_mem _ hq)).imp_right fun hl l hmem huser => hfirst.later.owner _ _ (hl l hmem huser)

end Steps

end Yeah.Teams
