import Yeah.Tables
import Mathlib.Logic.Function.Basic

namespace Yeah.DualWrite

variable {κ α β : Type} [DecidableEq κ] {key : α → κ}

theorem filter_all (o : Option α) : (o.filter fun _ => true) = o := by cases o <;> rfl

/-- A table with a primary key. -/
structure Table (key : α → κ) where
  rows : List α
  nodup : (rows.map key).Nodup

namespace Table

def empty : Table key := ⟨[], List.nodup_nil⟩

def find (t : Table key) (k : κ) : Option α := t.rows.find? fun a => key a = k

/-- A row whose key is taken is refused. -/
def insert (t : Table key) (a : α) : Option (Table key) :=
  if h : key a ∈ t.rows.map key then none
  else
    some ⟨t.rows ++ [a], by
      rw [List.map_append, List.map_singleton]
      exact List.nodup_append.2 ⟨t.nodup, List.nodup_singleton _, fun k hk l hl he => h (List.mem_singleton.1 hl ▸ he ▸ hk)⟩⟩

def replace (t : Table key) (a : α) : Table key :=
  ⟨t.rows.map fun b => if key b = key a then a else b, by
    have h : (t.rows.map fun b => if key b = key a then a else b).map key = t.rows.map key := by
      rw [List.map_map]
      refine List.map_congr_left fun b _ => ?_
      rw [Function.comp_apply, apply_ite key]
      split
      · next hb => exact hb.symm
      · rfl
    rw [h]
    exact t.nodup⟩

def delete (t : Table key) (p : α → Bool) : Table key :=
  ⟨t.rows.filter fun a => !p a, t.nodup.sublist (List.filter_sublist.map key)⟩

variable {t t' : Table key} {a : α} {k : κ}

theorem find_eq_some : t.find k = some a ↔ a ∈ t.rows ∧ key a = k := by
  constructor
  · intro h
    exact ⟨List.mem_of_find?_eq_some h, by simpa using List.find?_some h⟩
  · rintro ⟨ha, rfl⟩
    exact Tables.find?_key t.nodup ha

theorem find_eq_none : t.find k = none ↔ k ∉ t.rows.map key := by
  simp [find, List.find?_eq_none, List.mem_map]

theorem key_of_find (h : t.find k = some a) : key a = k := (find_eq_some.1 h).2

theorem insert_eq_none (h : t.insert a = none) : t.find (key a) ≠ none := by
  intro hn
  rw [insert, dif_neg (find_eq_none.1 hn)] at h
  cases h

theorem find_insert (h : t.insert a = some t') (k : κ) :
    t'.find k = if k = key a then some a else t.find k := by
  rw [insert] at h
  split at h
  · cases h
  · next hk =>
    obtain rfl : _ = t' := Option.some_inj.1 h
    rw [find, List.find?_append]
    split
    · next he =>
      have hnone : t.rows.find? (fun b => key b = k) = none := find_eq_none.2 (he ▸ hk)
      rw [hnone]
      simp [he]
    · next he =>
      have hne : key a ≠ k := fun h => he h.symm
      simp [find, hne]

theorem find_insert_none (h : t.insert a = some t') : t.find (key a) = none := by
  rw [insert] at h
  split at h
  · cases h
  · next hk => exact find_eq_none.2 hk

theorem find_of_insert (h : t.insert a = some t') {k : κ} (hb : t.find k = some b) :
    t'.find k = some b := by
  rw [find_insert h, if_neg, hb]
  rintro rfl
  rw [find_insert_none h] at hb
  cases hb

theorem find_replace (k : κ) :
    (t.replace a).find k = if k = key a then (t.find k).map fun _ => a else t.find k := by
  have hkey (b : α) : key (if key b = key a then a else b) = key b := by
    split
    · next h => exact h.symm
    · rfl
  have hcomp : ((fun b => decide (key b = k)) ∘ fun b => if key b = key a then a else b) = fun b => decide (key b = k) := by
    funext b
    rw [Function.comp_apply, hkey]
  rw [find, replace, List.find?_map, hcomp, find]
  cases hf : t.rows.find? (fun b => decide (key b = k)) with
  | none => simp
  | some b =>
      have hb : key b = k := by simpa using List.find?_some hf
      rw [Option.map_some, Option.map_some, hb]
      split <;> rfl

theorem rows_insert (h : t.insert a = some t') : t'.rows = t.rows ++ [a] := by
  rw [insert] at h
  split at h
  · cases h
  · obtain rfl : _ = t' := Option.some_inj.1 h
    rfl

theorem map_replace {γ : Type} (f : α → γ) {b : α} (hb : t.find (key a) = some b) (hf : f a = f b) :
    (t.replace a).rows.map f = t.rows.map f := by
  rw [replace, List.map_map]
  refine List.map_congr_left fun c hc => ?_
  rw [Function.comp_apply]
  split
  · next hk =>
    obtain ⟨hmem, hkb⟩ := find_eq_some.1 hb
    obtain rfl : c = b := List.inj_on_of_nodup_map t.nodup hc hmem (hk.trans hkb.symm)
    exact hf
  · rfl

theorem find_delete (p : α → Bool) (k : κ) : (t.delete p).find k = (t.find k).filter fun a => !p a := by
  cases hf : t.find k with
  | none =>
      refine find_eq_none.2 fun hk => find_eq_none.1 hf ?_
      exact (List.filter_sublist.map key).subset hk
  | some a =>
      obtain ⟨ha, hk⟩ := find_eq_some.1 hf
      rw [Option.filter_some]
      split
      · next hp => exact find_eq_some.2 ⟨List.mem_filter.2 ⟨ha, hp⟩, hk⟩
      · next hp =>
        refine find_eq_none.2 fun hmem => hp ?_
        obtain ⟨b, hb, hbk⟩ := List.mem_map.1 hmem
        obtain ⟨hb, hpb⟩ := List.mem_filter.1 hb
        obtain rfl : b = a := List.inj_on_of_nodup_map t.nodup hb ha (hbk.trans hk.symm)
        exact hpb

theorem find_delete_key {id : κ} (h : k ≠ id) : (t.delete fun r => key r = id).find k = t.find k := by
  rw [find_delete]
  cases hf : t.find k with
  | none => rfl
  | some b => rw [Option.filter_some, key_of_find hf, if_pos (by simpa using h)]

theorem find_delete_self (id : κ) : (t.delete fun r => key r = id).find id = none := by
  rw [find_delete]
  cases hf : t.find id with
  | none => rfl
  | some b => rw [Option.filter_some, key_of_find hf, if_neg (by simp)]

end Table

/-- How a call to a store ends: done, done with its reply lost, or not done. The last two throw. -/
inductive Outcome
  | ok
  | lost
  | failed
  deriving DecidableEq

def Outcome.effect (o : Outcome) : Bool := o ≠ .failed

def Outcome.threw (o : Outcome) : Bool := o ≠ .ok

/-- A table, and the store that is to hold something for some of its rows, under their keys. -/
structure Store (key : α → κ) (β : Type) where
  rows : Table key
  jobs : κ → Option β

def Store.empty : Store key β := ⟨.empty, fun _ => none⟩

/-- The other store holds what the rows ask for, and nothing else. -/
def Agrees (job : α → Option β) (s : Store key β) : Prop := ∀ k, s.jobs k = (s.rows.find k).bind job

variable {job : α → Option β} {s s' : Store key β}

theorem agrees_empty : Agrees job (Store.empty : Store key β) := fun _ => rfl

/-- What is written for one key is looked at there. -/
theorem agrees_at (h : Agrees job s) {m : κ} (hrows : ∀ k ≠ m, s'.rows.find k = s.rows.find k)
    (hjobs : ∀ k ≠ m, s'.jobs k = s.jobs k) : Agrees job s' ↔ s'.jobs m = (s'.rows.find m).bind job := by
  refine ⟨fun h' => h' m, fun h₀ k => ?_⟩
  by_cases hk : k = m
  · rw [hk]
    exact h₀
  · rw [hjobs k hk, hrows k hk]
    exact h k

/-- Rows are deleted, and entries of the other store: those of the deleted rows must be the ones. -/
theorem agrees_delete (h : Agrees job s) {p : α → Bool} {q : κ → Bool}
    (hrows : ∀ k, s'.rows.find k = (s.rows.find k).filter fun a => !p a)
    (hjobs : ∀ k, s'.jobs k = if q k then none else s.jobs k) :
    Agrees job s' ↔ ∀ a ∈ s.rows.rows, job a ≠ none → q (key a) = p a := by
  have hat (k : κ) : s'.jobs k = (s'.rows.find k).bind job ↔
    ∀ a, s.rows.find k = some a → job a ≠ none → q k = p a := by
    rw [hjobs, hrows, h k]
    cases hf : s.rows.find k with
    | none => simp
    | some a =>
        have hall : (∀ b, some a = some b → job b ≠ none → q k = p b) ↔ (job a ≠ none → q k = p a) :=
          ⟨fun hb => hb a rfl, fun ha b hb => Option.some_inj.1 hb ▸ ha⟩
        rw [hall, Option.filter_some, Option.bind_some]
        cases hj : job a with
        | none =>
            cases hp : p a <;> cases q k <;> simp [hj]
        | some j =>
            cases hp : p a <;> cases q k <;> simp [hj]
  constructor
  · intro h' a ha
    exact (hat (key a)).1 (h' (key a)) a (Table.find_eq_some.2 ⟨ha, rfl⟩)
  · intro hall k
    refine (hat k).2 fun a ha => ?_
    obtain ⟨hmem, hk⟩ := Table.find_eq_some.1 ha
    exact hk ▸ hall a hmem

theorem Agrees.insert_idle (h : Agrees job s) {a : α} {rows : Table key} (hi : s.rows.insert a = some rows)
    (ha : job a = none) :
    Agrees job (⟨rows, s.jobs⟩ : Store key β) := by
  intro k
  change s.jobs k = (rows.find k).bind job
  rw [Table.find_insert hi]
  split
  · next hk => rw [hk, h, Table.find_insert_none hi, Option.bind_none, Option.bind_some, ha]
  · exact h k

end Yeah.DualWrite
