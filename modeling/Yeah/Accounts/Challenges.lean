import Yeah.Keyed
import Yeah.Runs
import Mathlib.Data.List.Induction

namespace Yeah.Accounts

def TTL_MS : Int := 5 * 60 * 1000

structure Entry where
  challenge : String
  expires : Int
  deriving DecidableEq

/-- A call, with what the clock shows each time the call reads it. -/
inductive ChallengeOp where
  | put (key challenge : String) (sweptAt setAt : Int)
  | take (key : String) (now : Int)
  deriving DecidableEq

namespace ChallengeOp

def key : ChallengeOp → String
  | put key _ _ _ | take key _ => key

def readings : ChallengeOp → List Int
  | put _ _ sweptAt setAt => [sweptAt, setAt]
  | take _ now => [now]

def puts (key challenge : String) : ChallengeOp → Bool
  | put k c _ _ => k = key && c = challenge
  | take _ _ => false

end ChallengeOp

def fresh (now : Int) (entry : Option Entry) : Option Entry := entry.filter fun e => ¬ e.expires < now

structure ChallengeStore where
  map : String → Option Entry

namespace ChallengeStore

def new : ChallengeStore := ⟨fun _ => none⟩

def sweep (s : ChallengeStore) (t : Int) : ChallengeStore := ⟨fun k => fresh t (s.map k)⟩

def set (s : ChallengeStore) (key challenge : String) (now : Int) : ChallengeStore :=
  ⟨Function.update s.map key (some ⟨challenge, now + TTL_MS⟩)⟩

def put (s : ChallengeStore) (key challenge : String) (sweptAt setAt : Int) : ChallengeStore :=
  (s.sweep sweptAt).set key challenge setAt

def take (s : ChallengeStore) (key : String) (now : Int) : ChallengeStore × Option String :=
  (⟨Function.update s.map key none⟩, (fresh now (s.map key)).map Entry.challenge)

def call (s : ChallengeStore) : ChallengeOp → ChallengeStore × Option String
  | .put key challenge sweptAt setAt => (s.put key challenge sweptAt setAt, none)
  | .take key now => s.take key now

/-- The same store, if a put did not sweep. -/
def callUnswept (s : ChallengeStore) : ChallengeOp → ChallengeStore × Option String
  | .put key challenge _ setAt => (s.set key challenge setAt, none)
  | .take key now => s.take key now

end ChallengeStore

open ChallengeStore

def storeAfter (ops : List ChallengeOp) : ChallengeStore := Keyed.finalOne call new ops

def answers (ops : List ChallengeOp) : List (ChallengeOp × Option String) := Keyed.runOne call new ops

def unsweptAfter (ops : List ChallengeOp) : ChallengeStore := Keyed.finalOne callUnswept new ops

def answersUnswept (ops : List ChallengeOp) : List (ChallengeOp × Option String) :=
  Keyed.runOne callUnswept new ops

/-- The clock does not go back. -/
def ClockOrder (ops : List ChallengeOp) : Prop := (ops.flatMap ChallengeOp.readings).Pairwise (· ≤ ·)

/-- The challenge is the last one put under the key, which was not taken since, and its lifetime has not passed. -/
def Pending (ops : List ChallengeOp) (key : String) (now : Int) (challenge : String) : Prop :=
  ∃ before sweptAt setAt after, ops = before ++ .put key challenge sweptAt setAt :: after ∧
    (∀ op ∈ after, op.key ≠ key) ∧ now ≤ setAt + TTL_MS

def returned (ops : List ChallengeOp) (key challenge : String) : Nat :=
  (answers ops).countP fun p => p.1.key = key && p.2 = some challenge

section Sweep

/-- From now on, no call tells the two stores apart. -/
def Alike (now : Int) (s u : ChallengeStore) : Prop := ∀ k, fresh now (s.map k) = fresh now (u.map k)

variable {s u : ChallengeStore} {now later : Int} {entry : Option Entry} {key challenge : String}

theorem fresh_fresh (h : now ≤ later) : fresh later (fresh now entry) = fresh later entry := by
  rw [fresh, fresh, fresh, Option.filter_filter]
  congr 1
  funext e
  by_cases he : e.expires < later
  · simp [he]
  · have hnow : ¬ e.expires < now := fun hlt => he (Int.lt_of_lt_of_le hlt h)
    simp [he, hnow]

theorem Alike.of_le (h : Alike now s u) (hle : now ≤ later) : Alike later s u := by
  intro k
  rw [← fresh_fresh hle, h k, fresh_fresh hle]

theorem Alike.update (h : Alike now s u) (key : String) (entry : Option Entry) :
    Alike now ⟨Function.update s.map key entry⟩ ⟨Function.update u.map key entry⟩ := by
  intro k
  by_cases hk : k = key
  · subst hk
    simp only [Function.update_self]
  · simpa only [Function.update_of_ne hk] using h k

theorem Alike.sweep (h : Alike now s u) : Alike now (s.sweep now) u :=
  fun k => (fresh_fresh (Int.le_refl now)).trans (h k)

end Sweep

section Run

variable {ops : List ChallengeOp} {op : ChallengeOp} {key challenge : String} {now : Int}

theorem storeAfter_snoc : storeAfter (ops ++ [op]) = ((storeAfter ops).call op).1 := by
  simp [storeAfter, Keyed.finalOne]

theorem unsweptAfter_snoc : unsweptAfter (ops ++ [op]) = ((unsweptAfter ops).callUnswept op).1 := by
  simp [unsweptAfter, Keyed.finalOne]

theorem answers_snoc : answers (ops ++ [op]) = answers ops ++ [(op, ((storeAfter ops).call op).2)] :=
  Keyed.runOne_append _ _ _

theorem answersUnswept_snoc :
    answersUnswept (ops ++ [op]) = answersUnswept ops ++ [(op, ((unsweptAfter ops).callUnswept op).2)] :=
  Keyed.runOne_append _ _ _

theorem clockOrder_snoc : ClockOrder (ops ++ [op]) ↔ ClockOrder ops ∧ op.readings.Pairwise (· ≤ ·) ∧
    ∀ t ∈ ops.flatMap ChallengeOp.readings, ∀ t' ∈ op.readings, t ≤ t' := by
  rw [ClockOrder, List.flatMap_append, List.flatMap_singleton, List.pairwise_append]
  rfl

theorem ClockOrder.append_left {rest : List ChallengeOp} (h : ClockOrder (ops ++ rest)) :
    ClockOrder ops := by
  rw [ClockOrder, List.flatMap_append, List.pairwise_append] at h
  exact h.1

theorem alike_after (hops : ClockOrder ops) {later : Int}
    (hlater : ∀ t ∈ ops.flatMap ChallengeOp.readings, t ≤ later) :
    Alike later (storeAfter ops) (unsweptAfter ops) := by
  induction ops using List.reverseRecOn generalizing later with
  | nil => exact fun k => rfl
  | append_singleton ops op ih =>
      obtain ⟨hinit, -, hlast⟩ := clockOrder_snoc.1 hops
      rw [List.flatMap_append, List.flatMap_singleton] at hlater
      rw [storeAfter_snoc, unsweptAfter_snoc]
      cases op with
      | put key challenge sweptAt setAt =>
          have hswept : Alike sweptAt (storeAfter ops) (unsweptAfter ops) :=
            ih hinit fun t ht => hlast t ht sweptAt List.mem_cons_self
          have hle : sweptAt ≤ later := hlater sweptAt (List.mem_append_right _ List.mem_cons_self)
          exact (hswept.sweep.update key _).of_le hle
      | take key t =>
          have ht : Alike t (storeAfter ops) (unsweptAfter ops) :=
            ih hinit fun t' ht' => hlast t' ht' t List.mem_cons_self
          have hle : t ≤ later := hlater t (List.mem_append_right _ List.mem_cons_self)
          exact (ht.update key none).of_le hle

theorem call_after (h : ClockOrder (ops ++ [op])) :
    ((storeAfter ops).call op).2 = ((unsweptAfter ops).callUnswept op).2 := by
  obtain ⟨hinit, -, hlast⟩ := clockOrder_snoc.1 h
  cases op with
  | put key challenge sweptAt setAt => rfl
  | take key t =>
      have ht : Alike t (storeAfter ops) (unsweptAfter ops) :=
        alike_after hinit fun t' ht' => hlast t' ht' t List.mem_cons_self
      exact congrArg (Option.map Entry.challenge) (ht key)

theorem answers_eq_unswept (hops : ClockOrder ops) : answers ops = answersUnswept ops := by
  induction ops using List.reverseRecOn with
  | nil => rfl
  | append_singleton ops op ih => rw [answers_snoc, answersUnswept_snoc, ih hops.append_left, call_after hops]

end Run

section Held

variable {ops : List ChallengeOp} {op : ChallengeOp} {key challenge : String} {now : Int} {e : Entry}

theorem callUnswept_other (s : ChallengeStore) (h : op.key ≠ key) :
    (s.callUnswept op).1.map key = s.map key := by
  cases op with
  | put k c sweptAt setAt => exact Function.update_of_ne (Ne.symm h) _ _
  | take k t => exact Function.update_of_ne (Ne.symm h) _ _

/-- What the store without sweeping holds: the last put of the key, until a take of the key. -/
theorem unsweptAfter_map : (unsweptAfter ops).map key = some e ↔
    ∃ before sweptAt setAt after, ops = before ++ .put key e.challenge sweptAt setAt :: after ∧
      (∀ op ∈ after, op.key ≠ key) ∧ e.expires = setAt + TTL_MS := by
  induction ops using List.reverseRecOn with
  | nil => simp [unsweptAfter, Keyed.finalOne, new]
  | append_singleton ops op ih =>
      rw [unsweptAfter_snoc]
      constructor
      · intro h
        by_cases hk : op.key = key
        · cases op with
          | put k c sweptAt setAt =>
              obtain rfl : k = key := hk
              obtain rfl : (⟨c, setAt + TTL_MS⟩ : Entry) = e := by
                simpa [callUnswept, ChallengeStore.set] using h
              exact ⟨ops, sweptAt, setAt, [], rfl, by simp, rfl⟩
          | take k t =>
              obtain rfl : k = key := hk
              simp [callUnswept, take] at h
        · rw [callUnswept_other _ hk] at h
          obtain ⟨before, sweptAt, setAt, after, rfl, hafter, hexp⟩ := ih.1 h
          refine ⟨before, sweptAt, setAt, after ++ [op], by simp, ?_, hexp⟩
          intro o ho
          rcases List.mem_append.1 ho with ho | ho
          · exact hafter o ho
          · rwa [List.mem_singleton.1 ho]
      · rintro ⟨before, sweptAt, setAt, after, he, hafter, hexp⟩
        rcases Runs.snoc_eq_append_cons he with ⟨-, rfl, rfl⟩ | ⟨after', rfl, rfl⟩
        · simp [callUnswept, ChallengeStore.set, ← hexp]
        · have hk : op.key ≠ key := hafter op (by simp)
          rw [callUnswept_other _ hk]
          exact ih.2 ⟨before, sweptAt, setAt, after', rfl,
            fun o ho => hafter o (List.mem_append_left _ ho), hexp⟩

theorem take_unswept : ((unsweptAfter ops).take key now).2 = some challenge ↔
    Pending ops key now challenge := by
  constructor
  · intro h
    obtain ⟨e, he, rfl⟩ := Option.map_eq_some_iff.1 h
    obtain ⟨hmap, hfresh⟩ := Option.filter_eq_some_iff.1 he
    obtain ⟨before, sweptAt, setAt, after, hops, hafter, hexp⟩ := unsweptAfter_map.1 hmap
    have hle : ¬ e.expires < now := by simpa using hfresh
    exact ⟨before, sweptAt, setAt, after, hops, hafter, by omega⟩
  · rintro ⟨before, sweptAt, setAt, after, hops, hafter, hle⟩
    have hmap : (unsweptAfter ops).map key = some ⟨challenge, setAt + TTL_MS⟩ :=
      unsweptAfter_map.2 ⟨before, sweptAt, setAt, after, hops, hafter, rfl⟩
    simpa [take, hmap, fresh] using hle

theorem take_after (h : ClockOrder (ops ++ [.take key now])) :
    ((storeAfter ops).take key now).2 = some challenge ↔ Pending ops key now challenge := by
  have hcall : ((storeAfter ops).take key now).2 = ((unsweptAfter ops).take key now).2 := call_after h
  rw [hcall, take_unswept]

end Held

section Count

def Holding (s : ChallengeStore) (key challenge : String) : Prop :=
  ∃ e, s.map key = some e ∧ e.challenge = challenge

variable {s : ChallengeStore} {ops : List ChallengeOp} {op : ChallengeOp} {key challenge : String}

theorem fresh_eq_some {now : Int} {entry : Option Entry} {e : Entry} (h : fresh now entry = some e) :
    entry = some e :=
  (Option.filter_eq_some_iff.1 h).1

/-- What a key holds after a call it held before, and the call did not return it, unless the call is the put of it. -/
theorem holding_call (h : Holding (s.call op).1 key challenge) : op.puts key challenge = true ∨
    Holding s key challenge ∧ ¬ (op.key = key ∧ (s.call op).2 = some challenge) := by
  obtain ⟨e, he, rfl⟩ := h
  cases op with
  | put k c sweptAt setAt =>
      by_cases hk : key = k
      · subst hk
        obtain rfl : (⟨c, setAt + TTL_MS⟩ : Entry) = e := by
          simpa [call, ChallengeStore.put, ChallengeStore.set] using he
        exact Or.inl (by simp [ChallengeOp.puts])
      · have hheld : fresh sweptAt (s.map key) = some e := by
          simpa [call, ChallengeStore.put, ChallengeStore.set, sweep, hk] using he
        exact Or.inr ⟨⟨e, fresh_eq_some hheld, rfl⟩, fun hc => hk hc.1.symm⟩
  | take k t =>
      by_cases hk : key = k
      · subst hk
        simp [call, take] at he
      · have hheld : s.map key = some e := by simpa [call, take, hk] using he
        exact Or.inr ⟨⟨e, hheld, rfl⟩, fun hc => hk hc.1.symm⟩

theorem holding_of_returned (hk : op.key = key) (h : (s.call op).2 = some challenge) :
    Holding s key challenge ∧ op.puts key challenge = false := by
  cases op with
  | put k c sweptAt setAt => cases h
  | take k t =>
      obtain rfl : k = key := hk
      obtain ⟨e, he, rfl⟩ := Option.map_eq_some_iff.1 h
      exact ⟨⟨e, fresh_eq_some he, rfl⟩, rfl⟩

theorem returned_snoc : returned (ops ++ [op]) key challenge = returned ops key challenge +
    if op.key = key ∧ ((storeAfter ops).call op).2 = some challenge then 1 else 0 := by
  rw [returned, answers_snoc, List.countP_append, List.countP_singleton]
  simp only [Bool.and_eq_true, decide_eq_true_eq]
  rfl

theorem puts_snoc : (ops ++ [op]).countP (ChallengeOp.puts key challenge) =
    ops.countP (ChallengeOp.puts key challenge) + if op.puts key challenge then 1 else 0 := by
  rw [List.countP_append, List.countP_singleton]

open Classical in
/-- No challenge comes out more often than it was put in, what is still held counted with it. -/
theorem returned_add_le :
    returned ops key challenge + (if Holding (storeAfter ops) key challenge then 1 else 0) ≤
    ops.countP (ChallengeOp.puts key challenge) := by
  induction ops using List.reverseRecOn with
  | nil =>
      have hnone : ¬ Holding (storeAfter []) key challenge := by
        rintro ⟨e, he, -⟩
        cases he
      simp [returned, answers, Keyed.runOne, hnone]
  | append_singleton ops op ih =>
      rw [returned_snoc, puts_snoc, storeAfter_snoc]
      by_cases hret : op.key = key ∧ ((storeAfter ops).call op).2 = some challenge
      · obtain ⟨hheld, hputs⟩ := holding_of_returned hret.1 hret.2
        have hgone : ¬ Holding ((storeAfter ops).call op).1 key challenge := by
          intro h
          rcases holding_call h with h | ⟨-, hn⟩
          · exact Bool.false_ne_true (hputs.symm.trans h)
          · exact hn hret
        rw [if_pos hheld] at ih
        rw [if_pos hret, if_neg hgone, hputs]
        omega
      · rw [if_neg hret]
        by_cases hafter : Holding ((storeAfter ops).call op).1 key challenge
        · rw [if_pos hafter]
          rcases holding_call hafter with hputs | ⟨hheld, -⟩
          · rw [if_pos hputs]
            omega
          · rw [if_pos hheld] at ih
            omega
        · rw [if_neg hafter]
          omega

end Count

/-- A challenge is given out once: to a take that nothing but calls of other keys parts from the put. -/
theorem challenge_once (ops : List ChallengeOp) (hops : ClockOrder ops) :
    (∀ before key now after challenge, ops = before ++ .take key now :: after →
      (((storeAfter before).take key now).2 = some challenge ↔ Pending before key now challenge)) ∧
    (∀ key challenge, returned ops key challenge ≤ ops.countP (ChallengeOp.puts key challenge)) ∧
    answers ops = answersUnswept ops := by
  refine ⟨?_, ?_, answers_eq_unswept hops⟩
  · rintro before key now after challenge rfl
    rw [List.append_cons] at hops
    exact take_after hops.append_left
  · intro key challenge
    exact Nat.le_trans (Nat.le_add_right _ _) returned_add_le

theorem challenge_once_replayed :
    ClockOrder [.put "auth:a" "x" 0 1, .put "auth:b" "y" 300002 300002, .take "auth:a" 300002] ∧
      answers [.put "auth:a" "x" 0 1, .put "auth:b" "y" 300002 300002, .take "auth:a" 300002] =
        answersUnswept [.put "auth:a" "x" 0 1, .put "auth:b" "y" 300002 300002, .take "auth:a" 300002] := by
  have horder : ClockOrder [.put "auth:a" "x" 0 1, .put "auth:b" "y" 300002 300002, .take "auth:a" 300002] := by
    simp [ClockOrder, ChallengeOp.readings]
  exact ⟨horder, (challenge_once _ horder).2.2⟩

end Yeah.Accounts
