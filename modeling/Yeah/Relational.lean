import Mathlib.Data.List.Nodup

namespace Yeah.Relational

/-- The foreign keys of rows: the keys that a row refers to, each with whether the row is deleted along with the one it
refers to; a column that is not is set to null by `clear`. -/
structure Schema (κ ρ : Type) where
  references : ρ → List (κ × Bool)
  clear : (κ → Bool) → ρ → ρ
  references_clear : ∀ gone r, references (clear gone r) = (references r).filter fun e => e.2 || !gone e.1
  clear_eq : ∀ gone r, (∀ e ∈ references r, gone e.1 = false) → clear gone r = r

variable {κ ρ : Type} [DecidableEq κ]

def find (db : List (κ × ρ)) (k : κ) : Option ρ := (db.find? fun e => e.1 = k).map (·.2)

section Operations

variable (S : Schema κ ρ)

/-- Every row that the row refers to is there. -/
def holds (db : List (κ × ρ)) (r : ρ) : Bool := (S.references r).all fun e => (find db e.1).isSome

def insert (db : List (κ × ρ)) (k : κ) (r : ρ) : Option (List (κ × ρ)) :=
  if find db k = none ∧ holds S db r then some (db ++ [(k, r)]) else none

def update (db : List (κ × ρ)) (k : κ) (f : ρ → ρ) : Option (List (κ × ρ)) :=
  if (find db k).all fun r => holds S db (f r) then some (db.map fun e => if e.1 = k then (e.1, f e.2) else e) else none

def rooted (db : List (κ × ρ)) (r : ρ) : Bool := (S.references r).all fun e => !e.2 || (find db e.1).isSome

/-- Without the rows that lost one they are deleted along with. -/
def strip (db : List (κ × ρ)) : List (κ × ρ) := db.filter fun e => rooted S db e.2

def prune (db : List (κ × ρ)) : List (κ × ρ) :=
  if _h : (strip S db).length < db.length then prune (strip S db) else db
termination_by db.length

def delete (db : List (κ × ρ)) (k : κ) : List (κ × ρ) :=
  let kept := prune S (db.filter fun e => e.1 ≠ k)
  kept.map fun e => (e.1, S.clear (fun k => (find kept k).isNone) e.2)

end Operations

/-! ### Finding -/

variable {db : List (κ × ρ)} {k : κ} {r : ρ}

theorem mem_of_find (h : find db k = some r) : (k, r) ∈ db := by
  obtain ⟨e, he, rfl⟩ := Option.map_eq_some_iff.1 h
  obtain rfl : e.1 = k := by simpa using List.find?_some he
  exact List.mem_of_find?_eq_some he

theorem find_of_mem (hdb : (db.map (·.1)).Nodup) (h : (k, r) ∈ db) : find db k = some r := by
  induction db with
  | nil => cases h
  | cons e db ih =>
      obtain ⟨hfresh, hdb⟩ := List.nodup_cons.1 hdb
      rw [find, List.find?_cons]
      rcases List.mem_cons.1 h with rfl | h
      · simp
      · have hne : e.1 ≠ k := by
          rintro rfl
          exact hfresh (List.mem_map.2 ⟨_, h, rfl⟩)
        simpa [hne, find] using ih hdb h

theorem isSome_find : (find db k).isSome = true ↔ k ∈ db.map (·.1) := by
  constructor
  · intro h
    obtain ⟨r, hr⟩ := Option.isSome_iff_exists.1 h
    exact List.mem_map_of_mem (mem_of_find hr)
  · intro h
    obtain ⟨e, he, rfl⟩ := List.mem_map.1 h
    rw [find, Option.isSome_map, List.find?_isSome]
    exact ⟨e, he, by simp⟩

theorem find_append (d : List (κ × ρ)) : find (db ++ d) k = (find db k).or (find d k) := by
  rw [find, find, find, List.find?_append]
  cases db.find? fun e => decide (e.1 = k) <;> rfl

theorem find_map {f : κ → ρ → ρ} : find (db.map fun e => (e.1, f e.1 e.2)) k = (find db k).map (f k) := by
  induction db with
  | nil => rfl
  | cons e db ih =>
      by_cases he : e.1 = k
      · simp [find, he]
      · simpa [find, List.find?_cons, he] using ih

theorem find_filter_key {p : κ → Bool} : find (db.filter fun e => p e.1) k = if p k then find db k else none := by
  induction db with
  | nil => simp [find]
  | cons e db ih =>
      by_cases he : e.1 = k
      · cases hp : p k with
        | true => simp [find, he, hp]
        | false => simpa [he, hp] using ih
      · by_cases hp : p e.1 = true
        · simpa [find, List.find?_cons, List.filter_cons, he, hp] using ih
        · simpa [find, List.find?_cons, List.filter_cons, he, hp] using ih

/-! ### Integrity -/

variable {S : Schema κ ρ}

/-- No key twice, and no reference to a row that is not there. -/
structure Intact (S : Schema κ ρ) (db : List (κ × ρ)) : Prop where
  nodup : (db.map (·.1)).Nodup
  holds : ∀ k r, find db k = some r → holds S db r = true

theorem Intact.target (h : Intact S db) (hr : find db k = some r) {e : κ × Bool} (he : e ∈ S.references r) :
    ∃ q, find db e.1 = some q :=
  Option.isSome_iff_exists.1 (List.all_eq_true.1 (h.holds k r hr) e he)

theorem holds_mono {d : List (κ × ρ)} (h : ∀ k, (find db k).isSome = true → (find d k).isSome = true)
    (hr : holds S db r = true) : holds S d r = true :=
  List.all_eq_true.2 fun e he => h e.1 (List.all_eq_true.1 hr e he)

variable {d : List (κ × ρ)}

theorem insert_eq_some (h : insert S db k r = some d) :
    find db k = none ∧ holds S db r = true ∧ d = db ++ [(k, r)] := by
  rw [insert] at h
  split at h
  next hc => exact ⟨hc.1, hc.2, (Option.some.inj h).symm⟩
  next => cases h

theorem find_insert (h : insert S db k r = some d) (j : κ) : find d j = if j = k then some r else find db j := by
  obtain ⟨hfresh, -, rfl⟩ := insert_eq_some h
  have hlast : find [(k, r)] j = if j = k then some r else none := by
    by_cases hj : k = j
    · simp [find, hj]
    · simp [find, hj, Ne.symm hj]
  rw [find_append, hlast]
  by_cases hj : j = k
  · rw [if_pos hj, if_pos hj, hj, hfresh]
    rfl
  · rw [if_neg hj, if_neg hj]
    exact Option.or_none

theorem Intact.insert (hdb : Intact S db) (h : insert S db k r = some d) : Intact S d := by
  obtain ⟨hfresh, hholds, hd⟩ := insert_eq_some h
  have hgrows : ∀ j, (find db j).isSome = true → (find d j).isSome = true := by
    intro j hj
    rw [find_insert h]
    split
    next => rfl
    next => exact hj
  refine ⟨?_, fun j q hq => ?_⟩
  · have hnot : k ∉ db.map (·.1) := by
      rw [← isSome_find, hfresh]
      simp
    rw [hd, List.map_append, List.map_singleton]
    exact List.nodup_append'.2 ⟨hdb.nodup, List.nodup_singleton k, List.disjoint_singleton.2 hnot⟩
  · rw [find_insert h] at hq
    split at hq
    next => exact holds_mono hgrows (Option.some.inj hq ▸ hholds)
    next => exact holds_mono hgrows (hdb.holds j q hq)

variable {f : ρ → ρ}

theorem update_eq_some (h : update S db k f = some d) :
    (∀ r, find db k = some r → holds S db (f r) = true) ∧ d = db.map fun e => (e.1, if e.1 = k then f e.2 else e.2) := by
  rw [update] at h
  split at h
  next hc =>
    refine ⟨fun r hr => by rwa [hr] at hc, (Option.some.inj h).symm.trans ?_⟩
    apply List.map_congr_left
    intro e _
    split <;> rfl
  next => cases h

theorem find_update (h : update S db k f = some d) (j : κ) : find d j = if j = k then (find db j).map f else find db j := by
  obtain ⟨-, rfl⟩ := update_eq_some h
  rw [find_map (f := fun j r => if j = k then f r else r)]
  by_cases hj : j = k
  · simp [hj]
  · simp [hj]

/-- An update that leaves the row as it is, or finds none, changes nothing. -/
theorem update_eq_self (hdb : (db.map (·.1)).Nodup) (hf : ∀ r, find db k = some r → f r = r) (h : update S db k f = some d) :
    d = db := by
  obtain ⟨-, rfl⟩ := update_eq_some h
  refine (List.map_congr_left fun e he => ?_).trans (List.map_id db)
  split
  next hk => exact Prod.ext rfl (hf e.2 (hk ▸ find_of_mem hdb he))
  next => rfl

theorem Intact.update (hdb : Intact S db) (h : update S db k f = some d) : Intact S d := by
  obtain ⟨hholds, hd⟩ := update_eq_some h
  have hgrows : ∀ j, (find db j).isSome = true → (find d j).isSome = true := by
    intro j hj
    rw [find_update h]
    split
    next => rwa [Option.isSome_map]
    next => exact hj
  refine ⟨?_, fun j q hq => ?_⟩
  · rw [hd, List.map_map]
    exact hdb.nodup
  · rw [find_update h] at hq
    split at hq
    next hj =>
      obtain ⟨r, hr, rfl⟩ := Option.map_eq_some_iff.1 hq
      exact holds_mono hgrows (hholds r (hj ▸ hr))
    next => exact holds_mono hgrows (hdb.holds j q hq)

/-! ### Deletion -/

theorem prune_induct {P : List (κ × ρ) → Prop} (hstep : ∀ d, P d → P (strip S d)) (h : P db) : P (prune S db) := by
  induction db using prune.induct S with
  | case1 db hlt ih =>
      rw [prune, dif_pos hlt]
      exact ih (hstep db h)
  | case2 db hge =>
      rw [prune, dif_neg hge]
      exact h

theorem rooted_prune (h : (k, r) ∈ prune S db) : rooted S (prune S db) r = true := by
  induction db using prune.induct S with
  | case1 db hlt ih =>
      rw [prune, dif_pos hlt] at h ⊢
      exact ih h
  | case2 db hge =>
      rw [prune, dif_neg hge] at h ⊢
      have hall := List.length_filter_eq_length_iff.1 (Nat.le_antisymm (List.length_filter_le ..) (Nat.not_lt.1 hge))
      exact hall _ h

theorem sublist_prune : (prune S db).Sublist db :=
  prune_induct (P := fun d => d.Sublist db) (fun _ h => List.filter_sublist.trans h) (List.Sublist.refl db)

theorem find_of_sublist (hdb : (db.map (·.1)).Nodup) (hd : d.Sublist db) (h : find d k = some r) : find db k = some r :=
  find_of_mem hdb (hd.subset (mem_of_find h))

section Delete

variable {j : κ} {q : ρ}

theorem find_delete (hdb : Intact S db) (h : find (delete S db k) j = some q) :
    ∃ r gone, find db j = some r ∧ q = S.clear gone r ∧ j ≠ k := by
  rw [delete, find_map (f := fun _ r => S.clear _ r)] at h
  obtain ⟨r, hr, rfl⟩ := Option.map_eq_some_iff.1 h
  have hfilter := find_of_sublist (hdb.nodup.sublist (List.filter_sublist.map _)) sublist_prune hr
  rw [find_filter_key (p := fun j => decide (j ≠ k))] at hfilter
  split at hfilter
  next hj => exact ⟨r, _, hfilter, rfl, of_decide_eq_true hj⟩
  next => cases hfilter

theorem Intact.delete (hdb : Intact S db) (k : κ) : Intact S (delete S db k) := by
  have hsub : (prune S (db.filter fun e => e.1 ≠ k)).Sublist db := sublist_prune.trans List.filter_sublist
  have hkept := hdb.nodup.sublist (hsub.map (·.1))
  refine ⟨?_, fun j q hq => ?_⟩
  · rw [Relational.delete, List.map_map]
    exact hkept
  · rw [Relational.delete, find_map (f := fun _ r => S.clear _ r)] at hq
    obtain ⟨r, hr, rfl⟩ := Option.map_eq_some_iff.1 hq
    have hrooted := rooted_prune (mem_of_find hr)
    refine List.all_eq_true.2 fun e he => ?_
    rw [S.references_clear, List.mem_filter] at he
    have hthere := List.all_eq_true.1 hrooted e he.1
    have hin : (find (prune S (db.filter fun e => e.1 ≠ k)) e.1).isSome = true := by
      rcases Bool.or_eq_true_iff.1 he.2 with hcascade | hnot
      · rw [hcascade] at hthere
        exact hthere
      · simpa using hnot
    rw [Relational.delete, find_map (f := fun _ r => S.clear _ r), Option.isSome_map]
    exact hin

/-- A deletion stays among the rows of `P`, if the deleted one is one of them and every row that refers to one of them
is, too. -/
theorem find_delete_of_not {P : κ → Prop} (hdb : Intact S db) (hk : P k)
    (hclosed : ∀ i r, find db i = some r → ∀ e ∈ S.references r, P e.1 → P i) (hr : find db j = some r) (hj : ¬ P j) : find (delete S db k) j = some r := by
  -- No row outside `P` is lost, at any stage of the pruning.
  have hstays : ∀ i r, find db i = some r → ¬ P i → find (prune S (db.filter fun e => e.1 ≠ k)) i = some r := by
    have hstage : ∀ d : List (κ × ρ), ((d.map (·.1)).Nodup ∧ ∀ i r, find db i = some r → ¬ P i → find d i = some r) →
        ((strip S d).map (·.1)).Nodup ∧ ∀ i r, find db i = some r → ¬ P i → find (strip S d) i = some r := by
      rintro d ⟨hnodup, hd⟩
      have hsub := hnodup.sublist ((List.filter_sublist (p := fun e => rooted S d e.2) (l := d)).map (·.1))
      refine ⟨hsub, fun i r hr hi => find_of_mem hsub (List.mem_filter.2 ⟨mem_of_find (hd i r hr hi), ?_⟩)⟩
      refine List.all_eq_true.2 fun e he => ?_
      obtain ⟨q, hq⟩ := hdb.target hr he
      have he' : ¬ P e.1 := fun hp => hi (hclosed i r hr e he hp)
      rw [hd e.1 q hq he']
      simp
    refine (prune_induct (P := fun d => (d.map (·.1)).Nodup ∧ ∀ i r, find db i = some r → ¬ P i → find d i = some r)
      hstage ⟨hdb.nodup.sublist (List.filter_sublist.map _), fun i r hr hi => ?_⟩).2
    have hne : i ≠ k := fun he => hi (he ▸ hk)
    rw [find_filter_key (p := fun j => decide (j ≠ k)), if_pos (decide_eq_true hne)]
    exact hr
  rw [delete, find_map (f := fun _ r => S.clear _ r), hstays j r hr hj, Option.map_some]
  refine congrArg some (S.clear_eq _ _ fun e he => ?_)
  obtain ⟨q, hq⟩ := hdb.target hr he
  rw [hstays e.1 q hq fun hp => hj (hclosed j r hr e he hp)]
  rfl

end Delete

end Yeah.Relational
