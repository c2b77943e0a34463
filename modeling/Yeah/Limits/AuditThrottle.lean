import Mathlib.Data.List.Basic
import Mathlib.Data.List.Induction
import Mathlib.Data.List.Perm.Subperm
import Mathlib.Tactic.SplitIfs

namespace Yeah.Limits

structure AuditEvent where
  key : String
  now : Nat

structure AuditThrottle where
  windowMs : Nat
  maxKeys : Nat

/-- The time at which an event of a key was last let through. -/
abbrev SeenKeys := List (String × Nat)

namespace AuditThrottle

variable (throttle : AuditThrottle)

def sweepExpired (seen : SeenKeys) (now : Nat) : SeenKeys :=
  seen.filter fun entry => now < entry.2 + throttle.windowMs

/-- The sweep, and the clearing of what is still too large. -/
def makeRoom (seen : SeenKeys) (now : Nat) : SeenKeys :=
  if throttle.maxKeys ≤ seen.length then
    if throttle.maxKeys ≤ (throttle.sweepExpired seen now).length then [] else throttle.sweepExpired seen now
  else seen

def setKey (seen : SeenKeys) (key : String) (now : Nat) : SeenKeys :=
  (key, now) :: seen.filter fun entry => entry.1 ≠ key

def allow (seen : SeenKeys) (e : AuditEvent) : SeenKeys × Bool :=
  if (seen.lookup e.key).any fun last => e.now < last + throttle.windowMs then (seen, false)
  else (setKey (throttle.makeRoom seen e.now) e.key e.now, true)

def seenAfter (before : List AuditEvent) : SeenKeys :=
  before.foldl (fun seen e => (throttle.allow seen e).1) []

def allowed (before : List AuditEvent) (e : AuditEvent) : Bool :=
  (throttle.allow (throttle.seenAfter before) e).2

def clears (before : List AuditEvent) (e : AuditEvent) : Bool :=
  throttle.allowed before e && throttle.maxKeys ≤ (throttle.sweepExpired (throttle.seenAfter before) e.now).length

/-- An event of the key was let through less than a window ago, and the table was not cleared since. -/
def Open (before : List AuditEvent) (key : String) (now : Nat) : Prop :=
  ∃ first d rest, before = first ++ d :: rest ∧ d.key = key ∧ throttle.allowed first d = true ∧
    now < d.now + throttle.windowMs ∧
    ∀ between c after, rest = between ++ c :: after → throttle.clears (first ++ d :: between) c = false

/-- The window of each event of the key that was let through has passed. -/
def Rested (before : List AuditEvent) (e : AuditEvent) : Prop :=
  ∀ first d rest, before = first ++ d :: rest → d.key = e.key → throttle.allowed first d = true →
    d.now + throttle.windowMs ≤ e.now

def Crowded (before : List AuditEvent) (now : Nat) : Prop :=
  ∃ keys : List String, keys.Nodup ∧ throttle.maxKeys ≤ keys.length ∧
    ∀ key ∈ keys, throttle.Open before key now

end AuditThrottle

open AuditThrottle

def InOrder (events : List AuditEvent) : Prop := events.Pairwise fun d e => d.now ≤ e.now

section Table

variable {throttle : AuditThrottle} {seen : SeenKeys} {before : List AuditEvent} {e : AuditEvent} {key : String} {now : Nat}

theorem lookup_of_mem (hnodup : (seen.map Prod.fst).Nodup) (h : (key, now) ∈ seen) :
    seen.lookup key = some now := by
  induction seen with
  | nil => cases h
  | cons entry seen ih =>
      rw [List.map_cons, List.nodup_cons] at hnodup
      rcases List.mem_cons.1 h with rfl | h
      · simp
      · have hne : key ≠ entry.1 := fun heq => hnodup.1 (List.mem_map.2 ⟨_, h, heq⟩)
        rw [List.lookup_cons, show (key == entry.1) = false by simpa using hne]
        exact ih hnodup.2 h

theorem mem_of_lookup (h : seen.lookup key = some now) : (key, now) ∈ seen := by
  obtain ⟨u, v, rfl, -⟩ := List.lookup_eq_some_iff.1 h
  simp

theorem allow_refused_iff (hnodup : (seen.map Prod.fst).Nodup) :
    (throttle.allow seen e).2 = false ↔
        ∃ last, (e.key, last) ∈ seen ∧ e.now < last + throttle.windowMs := by
  rw [allow]
  split_ifs with h
  · rw [Option.any_eq_true] at h
    obtain ⟨last, hlast, hwindow⟩ := h
    simpa using ⟨last, mem_of_lookup hlast, by simpa using hwindow⟩
  · simp only [false_iff]
    rintro ⟨last, hlast, hwindow⟩
    exact h (by rw [lookup_of_mem hnodup hlast]; simpa using hwindow)

theorem allow_refused (h : (throttle.allow seen e).2 = false) : (throttle.allow seen e).1 = seen := by
  rw [allow] at h ⊢
  split_ifs at h ⊢
  rfl

theorem allow_granted (h : (throttle.allow seen e).2 = true) :
    (throttle.allow seen e).1 = setKey (throttle.makeRoom seen e.now) e.key e.now := by
  rw [allow] at h ⊢
  split_ifs at h ⊢
  rfl

theorem setKey_nodup (h : (seen.map Prod.fst).Nodup) : ((setKey seen key now).map Prod.fst).Nodup := by
  rw [setKey, List.map_cons, List.nodup_cons]
  refine ⟨?_, h.sublist (List.filter_sublist.map _)⟩
  simp

theorem makeRoom_sublist : (throttle.makeRoom seen now).Sublist seen := by
  rw [makeRoom]
  split_ifs
  · exact List.nil_sublist _
  · exact List.filter_sublist
  · exact List.Sublist.refl _

/-- Making room loses no entry that still matters, unless the table is cleared. -/
theorem makeRoom_mem {later : Nat} (hle : now ≤ later) :
    (∃ last, (key, last) ∈ throttle.makeRoom seen now ∧ later < last + throttle.windowMs) ↔
      (∃ last, (key, last) ∈ seen ∧ later < last + throttle.windowMs) ∧
          ¬ throttle.maxKeys ≤ (throttle.sweepExpired seen now).length := by
  have hswept : (throttle.sweepExpired seen now).length ≤ seen.length := List.length_filter_le _ _
  rw [makeRoom]
  split_ifs with hfull hcrowded
  · simp [hcrowded]
  · simp only [hcrowded, not_false_eq_true, and_true]
    apply exists_congr
    intro last
    rw [sweepExpired, List.mem_filter, decide_eq_true_eq]
    constructor
    · exact fun h => ⟨h.1.1, h.2⟩
    · exact fun h => ⟨⟨h.1, by omega⟩, h.2⟩
  · have hcrowded : ¬ throttle.maxKeys ≤ (throttle.sweepExpired seen now).length := by omega
    simp [hcrowded]

end Table

section History

variable {throttle : AuditThrottle} {before : List AuditEvent} {e : AuditEvent} {key : String} {now : Nat}

theorem seenAfter_concat (before : List AuditEvent) (e : AuditEvent) :
    throttle.seenAfter (before ++ [e]) = (throttle.allow (throttle.seenAfter before) e).1 := by
  rw [seenAfter, List.foldl_concat]
  rfl

theorem seenAfter_nodup (before : List AuditEvent) :
    ((throttle.seenAfter before).map Prod.fst).Nodup := by
  induction before using List.reverseRecOn with
  | nil => exact List.nodup_nil
  | append_singleton before e ih =>
      rw [seenAfter_concat]
      cases h : (throttle.allow (throttle.seenAfter before) e).2 with
      | false => rwa [allow_refused h]
      | true =>
          rw [allow_granted h]
          exact setKey_nodup (ih.sublist (makeRoom_sublist.map _))

theorem open_concat : throttle.Open (before ++ [e]) key now ↔
    (throttle.Open before key now ∧ throttle.clears before e = false) ∨
      (e.key = key ∧ throttle.allowed before e = true ∧ now < e.now + throttle.windowMs) := by
  constructor
  · rintro ⟨first, d, rest, hsplit, hkey, hallowed, hwindow, hrest⟩
    rcases List.eq_nil_or_concat' rest with rfl | ⟨rest, c, rfl⟩
    · obtain ⟨rfl, hd⟩ := List.append_inj' hsplit rfl
      obtain rfl : e = d := by simpa using hd
      exact Or.inr ⟨hkey, hallowed, hwindow⟩
    · rw [← List.cons_append, ← List.append_assoc] at hsplit
      obtain ⟨rfl, hc⟩ := List.append_inj' hsplit rfl
      obtain rfl : e = c := by simpa using hc
      refine Or.inl ⟨⟨first, d, rest, rfl, hkey, hallowed, hwindow, ?_⟩, hrest rest e [] rfl⟩
      rintro between c after rfl
      exact hrest between c (after ++ [e]) (by simp)
  · rintro (⟨⟨first, d, rest, rfl, hkey, hallowed, hwindow, hrest⟩, hclear⟩ | ⟨hkey, hallowed, hwindow⟩)
    · refine ⟨first, d, rest ++ [e], by simp, hkey, hallowed, hwindow, ?_⟩
      intro between c after hsplit
      rcases List.eq_nil_or_concat' after with rfl | ⟨after, c', rfl⟩
      · obtain ⟨rfl, hc⟩ := List.append_inj' hsplit rfl
        obtain rfl : e = c := by simpa using hc
        exact hclear
      · rw [← List.cons_append, ← List.append_assoc] at hsplit
        exact hrest between c after (List.append_inj' hsplit rfl).1
    · refine ⟨before, e, [], rfl, hkey, hallowed, hwindow, ?_⟩
      intro between c after hsplit
      exact absurd hsplit.symm (by simp)

/-- The table holds the keys of which it still matters when they were seen. -/
theorem open_iff (hbefore : ∀ d ∈ before, d.now ≤ now) : throttle.Open before key now ↔
    ∃ last, (key, last) ∈ throttle.seenAfter before ∧ now < last + throttle.windowMs := by
  induction before using List.reverseRecOn generalizing key now with
  | nil =>
      constructor
      · rintro ⟨first, d, rest, hsplit, -⟩
        exact absurd hsplit.symm (by simp)
      · rintro ⟨last, hmem, -⟩
        cases hmem
  | append_singleton before e ih =>
      have he : e.now ≤ now := hbefore e (by simp)
      have hold : ∀ d ∈ before, d.now ≤ now := fun d hd => hbefore d (List.mem_append_left _ hd)
      rw [open_concat, seenAfter_concat, ih hold, clears, allowed]
      cases hallow : (throttle.allow (throttle.seenAfter before) e).2 with
      | false => simp [allow_refused hallow]
      | true =>
          rw [allow_granted hallow, setKey]
          by_cases hkey : e.key = key
          · subst hkey
            constructor
            · rintro (⟨⟨last, hlast, hwindow⟩, -⟩ | ⟨-, -, hwindow⟩)
              · have hrefused : (throttle.allow (seenAfter throttle before) e).2 = false :=
                  (allow_refused_iff (seenAfter_nodup before)).2 ⟨last, hlast, by omega⟩
                rw [hallow] at hrefused
                cases hrefused
              · exact ⟨e.now, List.mem_cons_self, hwindow⟩
            · rintro ⟨last, hlast, hwindow⟩
              have hlast : last = e.now := by simpa using hlast
              exact Or.inr ⟨rfl, rfl, hlast ▸ hwindow⟩
          · have hmem : ∀ last, (key, last) ∈ (e.key, e.now) :: (throttle.makeRoom (throttle.seenAfter before) e.now).filter (·.1 ≠ e.key) ↔
                (key, last) ∈ throttle.makeRoom (throttle.seenAfter before) e.now := by
              intro last
              simp [Ne.symm hkey]
            simp only [hmem, makeRoom_mem he, hkey, false_and, or_false, Bool.true_and,
              decide_eq_false_iff_not]

theorem crowded_iff (hbefore : ∀ d ∈ before, d.now ≤ now) :
    throttle.maxKeys ≤ (throttle.sweepExpired (throttle.seenAfter before) now).length ↔
      throttle.Crowded before now := by
  have hmem : ∀ key, key ∈ (throttle.sweepExpired (throttle.seenAfter before) now).map Prod.fst ↔
    throttle.Open before key now := by
    intro key
    rw [open_iff hbefore]
    simp [sweepExpired]
  have hnodup : ((throttle.sweepExpired (throttle.seenAfter before) now).map Prod.fst).Nodup :=
    (seenAfter_nodup before).sublist (List.filter_sublist.map _)
  constructor
  · intro h
    exact ⟨_, hnodup, by simpa using h, fun key hkey => (hmem key).1 hkey⟩
  · rintro ⟨keys, hkeys, hlength, hopen⟩
    have hsub := (List.subperm_of_subset hkeys fun key hkey => (hmem key).2 (hopen key hkey)).length_le
    rw [List.length_map] at hsub
    exact Nat.le_trans hlength hsub

theorem allowed_iff (hbefore : ∀ d ∈ before, d.now ≤ e.now) :
    throttle.allowed before e = true ↔ ¬ throttle.Open before e.key e.now := by
  rw [open_iff hbefore, ← allow_refused_iff (seenAfter_nodup before), Bool.not_eq_false, allowed]

theorem clears_iff (hbefore : ∀ d ∈ before, d.now ≤ e.now) :
    throttle.clears before e = true ↔
      throttle.allowed before e = true ∧ throttle.Crowded before e.now := by
  rw [clears, Bool.and_eq_true, decide_eq_true_eq, crowded_iff hbefore]

end History

/-- An event is let through unless its key is open; the table is cleared by an event that finds too many keys open, and by no other. -/
theorem throttle_windows (throttle : AuditThrottle) (before : List AuditEvent) (e : AuditEvent)
    (h : InOrder (before ++ [e])) :
    (throttle.allowed before e = true ↔ ¬ throttle.Open before e.key e.now) ∧
    (throttle.clears before e = true ↔ throttle.allowed before e = true ∧ throttle.Crowded before e.now) ∧
    ((∀ first c rest, before = first ++ c :: rest → ¬ throttle.Crowded first c.now) →
      (throttle.allowed before e = true ↔ throttle.Rested before e)) := by
  have hsplit : ∀ first d rest, before ++ [e] = first ++ d :: rest → ∀ c ∈ first, c.now ≤ d.now := by
    intro first d rest heq
    rw [InOrder, heq, List.pairwise_append] at h
    exact fun c hc => h.2.2 c hc d List.mem_cons_self
  have hbefore := hsplit before e [] rfl
  refine ⟨allowed_iff hbefore, clears_iff hbefore, fun hcalm => ?_⟩
  rw [allowed_iff hbefore]
  constructor
  · intro hopen first d rest heq hkey hallowed
    rw [← Nat.not_lt]
    intro hwindow
    refine hopen ⟨first, d, rest, heq, hkey, hallowed, hwindow, ?_⟩
    rintro between c after rfl
    have hprefix : before = (first ++ d :: between) ++ c :: after := by simp [heq]
    rw [← Bool.not_eq_true, clears_iff (hsplit _ c (after ++ [e]) (by simp [heq]))]
    exact fun hclears => hcalm _ c after hprefix hclears.2
  · rintro hrested ⟨first, d, rest, heq, hkey, hallowed, hwindow, -⟩
    exact Nat.not_lt.2 (hrested first d rest heq hkey hallowed) hwindow

theorem throttle_windows_two :
    (AuditThrottle.mk 1000 100).allowed [⟨"a", 0⟩] ⟨"a", 999⟩ = false ∧
        (AuditThrottle.mk 1000 100).Open [⟨"a", 0⟩] "a" 999 := by
  have hrefused : (AuditThrottle.mk 1000 100).allowed [⟨"a", 0⟩] ⟨"a", 999⟩ = false := by decide
  refine ⟨hrefused, ?_⟩
  have hopen := (throttle_windows ⟨1000, 100⟩ [⟨"a", 0⟩] ⟨"a", 999⟩ (by simp [InOrder])).1
  rw [hrefused] at hopen
  simpa using hopen

/-- The fourth key clears the table, and the first one is let through again a millisecond later. -/
theorem forgotten_key_repeats :
    ¬ ∀ (throttle : AuditThrottle) (before : List AuditEvent) (e : AuditEvent), InOrder (before ++ [e]) →
      (throttle.allowed before e = true ↔ throttle.Rested before e) := by
  intro hlaw
  have hlaw :=
    (hlaw ⟨1000, 3⟩ [⟨"k0", 0⟩, ⟨"k1", 0⟩, ⟨"k2", 0⟩, ⟨"k3", 0⟩] ⟨"k0", 1⟩ (by simp [InOrder])).1 (by decide)
  have hwindow := hlaw [] ⟨"k0", 0⟩ [⟨"k1", 0⟩, ⟨"k2", 0⟩, ⟨"k3", 0⟩] rfl rfl (by decide)
  simp at hwindow

end Yeah.Limits
