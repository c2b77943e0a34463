import Yeah.Waker.State
import Yeah.Tables
import Mathlib.Order.Basic
import Mathlib.Order.Nat

namespace Yeah.Waker

open Runs Tables

/-- The requests and connections that were admitted for a state and that are still open. -/
def State.opened (s : State) (o : Nat) : Nat := s.requests.countP fun q => q.app = o && q.isOpen

/-- A wake-up or a check of this state saw the container run at this time. -/
def State.Found (s : State) (o t : Nat) : Prop := ∃ k ∈ s.wakes, k.app = o ∧ k.stage = .done t

/-- What a request went ahead on, or waits for. -/
def State.Backed (settings : Settings) (s : State) (q : Request) : Prop :=
  match q.phase with
  | .awaiting (some w) => ∃ k, s.wakes[w]? = some k ∧ k.app = q.app
  | .forwarded (some w) => ∃ k t, s.wakes[w]? = some k ∧ k.app = q.app ∧ k.stage = .done t
  | .awaiting none | .forwarded none =>
      ∃ t, s.Found q.app t ∧ t ≤ q.admittedAt ∧ q.admittedAt - t < settings.checkMs
  | .refused => True

structure Counted (settings : Settings) (s : State) : Prop where
  appLt : ∀ q ∈ s.requests, q.app < s.objects.length
  wakeLt : ∀ k ∈ s.wakes, k.app < s.objects.length
  inflight : ∀ (o : Nat) a, s.objects[o]? = some a → a.inflight = s.opened o
  finished : ∀ q ∈ s.requests, q.finished = decide (q.closes ≠ 0) ∧
    q.decrements = if q.closes = 0 then 0 else 1
  /-- A wake-up that has not settled is the one its state knows. -/
  current : ∀ (w : Nat) k, s.wakes[w]? = some k → k.settled = false →
    ∃ a, s.objects[k.app]? = some a ∧ a.waking = some w
  waking : ∀ (o : Nat) a (w : Nat), s.objects[o]? = some a → a.waking = some w →
    ∃ k, s.wakes[w]? = some k ∧ k.app = o
  checked : ∀ (o : Nat) a, s.objects[o]? = some a → a.checkedAt = 0 ∨
    (a.checkedAt ≤ s.now ∧ s.Found o a.checkedAt)
  backed : ∀ q ∈ s.requests, s.Backed settings q
  clock : settings.checkMs ≤ s.now

variable {settings : Settings} {s : State}

section Objects

/-- The parts of a container's state that the bookkeeping reads. -/
def App.Like (a b : App) : Prop :=
  b.inflight = a.inflight ∧ b.waking = a.waking ∧ b.checkedAt = a.checkedAt

/-- Nothing but the rest of the states has changed, and states that were just made. -/
structure Grown (s s' : State) : Prop where
  requests : s'.requests = s.requests
  wakes : s'.wakes = s.wakes
  now : s.now ≤ s'.now
  length : s.objects.length ≤ s'.objects.length
  old : ∀ (o : Nat) b, s'.objects[o]? = some b → o < s.objects.length →
    ∃ a, s.objects[o]? = some a ∧ a.Like b
  new : ∀ (o : Nat) b, s'.objects[o]? = some b → s.objects.length ≤ o → b.inflight = 0 ∧ b.waking = none ∧
    b.checkedAt = 0

theorem Grown.refl (s : State) : Grown s s where
  requests := rfl
  wakes := rfl
  now := le_rfl
  length := le_rfl
  old _ b hb _ := ⟨b, hb, rfl, rfl, rfl⟩
  new _ _ hb ho := by
    rw [List.getElem?_eq_none ho] at hb
    cases hb

theorem Grown.of_eq {s s' : State} (ho : s'.objects = s.objects) (hr : s'.requests = s.requests)
    (hw : s'.wakes = s.wakes) (hn : s.now ≤ s'.now) : Grown s s' where
  requests := hr
  wakes := hw
  now := hn
  length := by rw [ho]
  old _ b hb _ := ⟨b, by rwa [ho] at hb, rfl, rfl, rfl⟩
  new _ _ hb h := by
    rw [ho, List.getElem?_eq_none h] at hb
    cases hb

theorem Grown.trans {s t u : State} (h : Grown s t) (h' : Grown t u) : Grown s u where
  requests := h'.requests.trans h.requests
  wakes := h'.wakes.trans h.wakes
  now := h.now.trans h'.now
  length := h.length.trans h'.length
  old o c hc ho := by
    obtain ⟨b, hb, hbc⟩ := h'.old o c hc (ho.trans_le h.length)
    obtain ⟨a, ha, hab⟩ := h.old o b hb ho
    exact ⟨a, ha, hbc.1.trans hab.1, hbc.2.1.trans hab.2.1, hbc.2.2.trans hab.2.2⟩
  new o c hc ho := by
    by_cases hl : o < t.objects.length
    · obtain ⟨b, hb, hbc⟩ := h'.old o c hc hl
      obtain ⟨h0, h1, h2⟩ := h.new o b hb ho
      exact ⟨hbc.1.trans h0, hbc.2.1.trans h1, hbc.2.2.trans h2⟩
    · exact h'.new o c hc (Nat.le_of_not_lt hl)

theorem Grown.modifyApp (o : Nat) {f : App → App} (hf : ∀ a : App, a.Like (f a)) :
    Grown s (s.modifyApp o f) where
  requests := rfl
  wakes := rfl
  now := le_rfl
  length := by simp [State.modifyApp]
  old j b hb _ := by
    obtain ⟨a, ha, rfl⟩ := of_modify hb
    refine ⟨a, ha, ?_⟩
    split
    · exact hf a
    · exact ⟨rfl, rfl, rfl⟩
  new j b hb hj := by
    obtain ⟨a, ha, -⟩ := of_modify hb
    rw [List.getElem?_eq_none hj] at ha
    cases ha

theorem grown_keep (cfg : Cfg) (s : State) : Grown s (s.keep cfg) := by
  unfold State.keep
  split
  · exact Grown.modifyApp _ fun _ => ⟨rfl, rfl, rfl⟩
  · refine ⟨rfl, rfl, le_rfl, by simp, fun o b hb ho => ?_, fun o b hb ho => ?_⟩
    · rw [List.getElem?_append_left ho] at hb
      exact ⟨b, hb, rfl, rfl, rfl⟩
    · rcases of_snoc hb with hb | ⟨-, rfl⟩
      · rw [List.getElem?_eq_none ho] at hb
        cases hb
      · exact ⟨rfl, rfl, rfl⟩

theorem grown_loadFile (settings : Settings) (s : State) (file : Option Cfg) :
    Grown s (loadFile settings s file) := by
  unfold loadFile
  split
  · exact .refl s
  · next cfg =>
      split
      · exact .refl s
      · exact (grown_keep cfg s).trans (.of_eq rfl rfl rfl le_rfl)

theorem grown_loadFiles (settings : Settings) (files : List (Option Cfg)) (s : State) :
    Grown s (files.foldl (loadFile settings) s) := by
  induction files generalizing s with
  | nil => exact .refl s
  | cons file files ih => exact (grown_loadFile settings s file).trans (ih _)

theorem grown_loadConfig (settings : Settings) (files : List (Option Cfg)) (s : State) :
    Grown s (loadConfig settings files s) := by
  unfold loadConfig
  split
  · exact .refl s
  · have h : Grown s { s with lastLoad := s.now, hostIndex := fun _ => none } := .of_eq rfl rfl rfl le_rfl
    refine (h.trans (grown_loadFiles settings files _)).trans ?_
    exact .of_eq rfl rfl rfl le_rfl

end Objects

def KeepsWakes (l l' : List Wake) : Prop :=
  ∀ (v : Nat) j, l[v]? = some j →
    ∃ j', l'[v]? = some j' ∧ j'.app = j.app ∧ ∀ t, j.stage = .done t → j'.stage = .done t

theorem KeepsWakes.found {s' : State} (h : KeepsWakes s.wakes s'.wakes) {o t : Nat} (hf : s.Found o t) :
    s'.Found o t := by
  obtain ⟨j, hj, hjo, hjt⟩ := hf
  obtain ⟨v, hv⟩ := List.mem_iff_getElem?.1 hj
  obtain ⟨j', hj', ho, ht⟩ := h v j hv
  exact ⟨j', List.mem_of_getElem? hj', ho.trans hjo, ht t hjt⟩

theorem KeepsWakes.backed {s' : State} (h : KeepsWakes s.wakes s'.wakes) {q : Request}
    (hb : s.Backed settings q) :
    s'.Backed settings q := by
  unfold State.Backed at hb ⊢
  split at hb
  · obtain ⟨j, hj, hjo⟩ := hb
    obtain ⟨j', hj', ho, -⟩ := h _ j hj
    exact ⟨j', hj', ho.trans hjo⟩
  · obtain ⟨j, t, hj, hjo, hjt⟩ := hb
    obtain ⟨j', hj', ho, ht⟩ := h _ j hj
    exact ⟨j', t, hj', ho.trans hjo, ht t hjt⟩
  · obtain ⟨t, ht, hle⟩ := hb
    exact ⟨t, h.found ht, hle⟩
  · obtain ⟨t, ht, hle⟩ := hb
    exact ⟨t, h.found ht, hle⟩
  · trivial

@[simp]
theorem opened_modifyApp (s : State) (o : Nat) (f : App → App) (i : Nat) :
    (s.modifyApp o f).opened i = s.opened i := rfl

theorem opened_modifyRequest {r : Nat} {q : Request} (f : Request → Request) (hq : s.requests[r]? = some q)
    (o : Nat) :
    (s.modifyRequest r f).opened o + (if q.app = o ∧ q.closes = 0 then 1 else 0) =
      s.opened o + if (f q).app = o ∧ (f q).closes = 0 then 1 else 0 := by
  simpa [State.opened, State.modifyRequest, Request.isOpen] using
    countP_modify (f := f) (fun q => q.app = o && q.isOpen) hq

theorem ensureUp_length (o : Nat) (a : App) (s : State) :
    (ensureUp settings o a s).1.objects.length = s.objects.length := by
  unfold ensureUp
  split
  · rfl
  · split
    · rfl
    · exact List.length_modify ..

/-- The count and the wake-up are different fields, so they can be written in either order. -/
theorem admit_eq (upgrade : Bool) (o : Nat) (a : App) (s : State) :
    accept settings upgrade o a s =
      { (ensureUp settings o a s).1.modifyApp o fun a =>
          { a with inflight := a.inflight + 1, last := if upgrade then a.last else s.now } with
        requests := (ensureUp settings o a s).1.requests ++
          [⟨o, upgrade, s.now, .awaiting (ensureUp settings o a s).2, false, 0, 0, s.stopping a.cfg.container⟩] } := by
  unfold accept ensureUp
  dsimp only [State.modifyApp]
  split
  · rfl
  · split
    · rfl
    · simp only [List.modify_modify_eq]
      rfl

namespace Counted

theorem app_lt (h : Counted settings s) {w : Nat} {k : Wake} (hk : s.wakes[w]? = some k) :
    k.app < s.objects.length := h.wakeLt k (List.mem_of_getElem? hk)

theorem grown {s' : State} (h : Counted settings s) (g : Grown s s') : Counted settings s' where
  appLt q hq := (h.appLt q (by rwa [← g.requests])).trans_le g.length
  wakeLt k hk := (h.wakeLt k (by rwa [← g.wakes])).trans_le g.length
  inflight o b hb := by
    have hopened : s'.opened o = s.opened o := by simp only [State.opened, g.requests]
    rw [hopened]
    by_cases ho : o < s.objects.length
    · obtain ⟨a, ha, hab⟩ := g.old o b hb ho
      exact hab.1.trans (h.inflight o a ha)
    · have h0 : s.opened o = 0 := by
        refine List.countP_eq_zero.2 fun q hq => ?_
        have := h.appLt q hq
        simp only [Bool.and_eq_true, decide_eq_true_eq, not_and]
        omega
      rw [h0]
      exact (g.new o b hb (Nat.le_of_not_lt ho)).1
  finished q hq := h.finished q (by rwa [← g.requests])
  current w k hk hs := by
    rw [g.wakes] at hk
    obtain ⟨a, ha, hw⟩ := h.current w k hk hs
    have hl := h.app_lt hk
    obtain ⟨b, hb⟩ := List.getElem?_eq_some_iff.1 (List.getElem?_eq_getElem (hl.trans_le g.length))
    have hb' := List.getElem?_eq_getElem (hl.trans_le g.length)
    obtain ⟨a', ha', hab⟩ := g.old k.app _ hb' hl
    obtain rfl : a = a' := Option.some.inj (ha.symm.trans ha')
    exact ⟨_, hb', hab.2.1.trans hw⟩
  waking o b w hb hw := by
    rw [g.wakes]
    by_cases ho : o < s.objects.length
    · obtain ⟨a, ha, hab⟩ := g.old o b hb ho
      exact h.waking o a w ha (hab.2.1.symm.trans hw)
    · rw [(g.new o b hb (Nat.le_of_not_lt ho)).2.1] at hw
      cases hw
  checked o b hb := by
    by_cases ho : o < s.objects.length
    · obtain ⟨a, ha, hab⟩ := g.old o b hb ho
      rw [hab.2.2]
      refine (h.checked o a ha).imp_right fun ⟨hle, k, hk, he⟩ => ⟨hle.trans g.now, k, ?_, he⟩
      rwa [g.wakes]
    · exact Or.inl (g.new o b hb (Nat.le_of_not_lt ho)).2.2
  backed q hq := by
    have := h.backed q (by rwa [← g.requests])
    simpa only [State.Backed, State.Found, g.wakes] using this
  clock := h.clock.trans g.now

theorem modifyWake {w : Nat} {k : Wake} {f : Wake → Wake} (h : Counted settings s)
    (hk : s.wakes[w]? = some k)
    (happ : (f k).app = k.app) (hdone : ∀ t, k.stage = .done t → (f k).stage = .done t)
    (hsettled : (f k).settled = false → k.settled = false) : Counted settings (s.modifyWake w f) := by
  have hold : KeepsWakes s.wakes (s.modifyWake w f).wakes := by
    intro v j hj
    refine ⟨_, modify_eq hj, ?_⟩
    split
    · next e =>
        obtain rfl : j = k := Option.some.inj ((e ▸ hj.symm).trans hk)
        exact ⟨happ, hdone⟩
    · exact ⟨rfl, fun _ ht => ht⟩
  have hnew : ∀ (v : Nat) j', (s.modifyWake w f).wakes[v]? = some j' → ∃ j, s.wakes[v]? = some j ∧
      j'.app = j.app ∧ (j'.settled = false → j.settled = false) := by
    intro v j' hj'
    obtain ⟨j, hj, rfl⟩ := of_modify hj'
    refine ⟨j, hj, ?_⟩
    split
    · next e =>
        obtain rfl : j = k := Option.some.inj ((e ▸ hj.symm).trans hk)
        exact ⟨happ, hsettled⟩
    · exact ⟨rfl, fun hs => hs⟩
  refine ⟨h.appLt, fun j hj => ?_, h.inflight, h.finished, fun v j hj hs => ?_, fun o a v ha hv => ?_,
    fun o a ha => (h.checked o a ha).imp_right fun hc => ⟨hc.1, hold.found hc.2⟩,
    fun q hq => hold.backed (h.backed q hq), h.clock⟩
  · obtain ⟨v, hv⟩ := List.mem_iff_getElem?.1 hj
    obtain ⟨j', hj', ho, -⟩ := hnew v j hv
    exact ho ▸ h.app_lt hj'
  · obtain ⟨j', hj', ho, hs'⟩ := hnew v j hj
    rw [ho]
    exact h.current v j' hj' (hs' hs)
  · obtain ⟨j, hj, hjo⟩ := h.waking o a v ha hv
    obtain ⟨j', hj', ho, -⟩ := hold v j hj
    exact ⟨j', hj', ho.trans hjo⟩

theorem modifyApp {o : Nat} {a : App} {f : App → App} (h : Counted settings s) (ha : s.objects[o]? = some a)
    (hin : (f a).inflight = a.inflight)
    (hcur : ∀ (w : Nat) k, s.wakes[w]? = some k → k.settled = false → k.app = o → (f a).waking = some w)
    (hwak : ∀ w, (f a).waking = some w → a.waking = some w)
    (hchk : (f a).checkedAt = a.checkedAt ∨ ((f a).checkedAt ≤ s.now ∧ s.Found o (f a).checkedAt)) :
    Counted settings (s.modifyApp o f) := by
  refine ⟨fun q hq => ?_, fun j hj => ?_, fun i b hb => ?_, h.finished, fun v j hj hs => ?_,
    fun i b v hb hv => ?_, fun i b hb => ?_, h.backed, h.clock⟩
  · exact (h.appLt q hq).trans_eq (List.length_modify ..).symm
  · exact (h.wakeLt j hj).trans_eq (List.length_modify ..).symm
  · obtain ⟨c, hc, rfl⟩ := of_modify hb
    refine Eq.trans ?_ (h.inflight i c hc)
    split
    · next e =>
        obtain rfl : c = a := Option.some.inj ((e ▸ hc.symm).trans ha)
        exact hin
    · rfl
  · obtain ⟨c, hc, hv⟩ := h.current v j hj hs
    refine ⟨_, modify_eq hc, ?_⟩
    split
    · next e =>
        obtain rfl : c = a := Option.some.inj ((e ▸ hc.symm).trans ha)
        exact hcur v j hj hs e.symm
    · exact hv
  · obtain ⟨c, hc, rfl⟩ := of_modify hb
    split at hv
    · next e =>
        obtain rfl : c = a := Option.some.inj ((e ▸ hc.symm).trans ha)
        exact h.waking i c v hc (hwak v hv)
    · exact h.waking i c v hc hv
  · obtain ⟨c, hc, rfl⟩ := of_modify hb
    split
    · next e =>
        obtain rfl : c = a := Option.some.inj ((e ▸ hc.symm).trans ha)
        rcases hchk with he | he
        · exact he ▸ h.checked i c hc
        · exact Or.inr (e ▸ he)
    · exact h.checked i c hc

theorem setStage {w : Nat} {k : Wake} {stage : Stage} (h : Counted settings s) (hk : s.wakes[w]? = some k)
    (hd : k.stage.ended = false) : Counted settings (s.setStage w stage) := by
  refine h.modifyWake hk rfl (fun t ht => ?_) id
  rw [ht] at hd
  cases hd

theorem succeed {w : Nat} {k : Wake} (h : Counted settings s) (hk : s.wakes[w]? = some k)
    (hd : k.stage.ended = false) : Counted settings (succeed w k s) := by
  have ha := List.getElem?_eq_getElem (h.app_lt hk)
  have hw : (s.setStage w (.done s.now)).wakes[w]? = some { k with stage := .done s.now } := by
    refine (modify_eq hk).trans ?_
    rw [if_pos rfl]
  have h' : Counted settings (s.setStage w (.done s.now)) := h.setStage hk hd
  refine h'.modifyApp ha rfl (fun v j hj hs e => ?_) (fun _ hv => hv)
    (Or.inr ⟨le_rfl, _, List.mem_of_getElem? hw, rfl, rfl⟩)
  obtain ⟨a, hb, hv⟩ := h'.current v j hj hs
  obtain rfl := Option.some.inj ((e ▸ hb.symm).trans ha)
  exact hv

theorem settle {w : Nat} {k : Wake} (h : Counted settings s) (hk : s.wakes[w]? = some k) :
    Counted settings (settle w k s) := by
  have ha := List.getElem?_eq_getElem (h.app_lt hk)
  unfold Waker.settle
  split
  · next hs =>
      have h' : Counted settings (s.modifyWake w fun k => { k with settled := true }) :=
        h.modifyWake hk rfl (fun _ ht => ht) nofun
      refine h'.modifyApp ha rfl (fun v j hj hj' e => ?_) nofun (Or.inl rfl)
      -- Another wake-up of the same state that has not settled would be the current one as well.
      obtain ⟨i, hi, rfl⟩ := of_modify hj
      split at hj'
      · cases hj'
      · next ne =>
          obtain ⟨a, hb, hv⟩ := h.current v i hi hj'
          obtain ⟨a', hb', hw⟩ := h.current w k hk hs.2
          have e' : i.app = k.app := by rwa [if_neg ne] at e
          obtain rfl : a = a' := Option.some.inj (hb.symm.trans (e' ▸ hb'))
          exact absurd (Option.some.inj (hw.symm.trans hv)) ne
  · exact h

theorem ensureUp {o : Nat} {a : App} (h : Counted settings s) (ha : s.objects[o]? = some a) :
    Counted settings (ensureUp settings o a s).1 ∧
      ∀ q : Request, q.app = o → q.admittedAt = s.now → q.phase = .awaiting (ensureUp settings o a s).2 →
        (ensureUp settings o a s).1.Backed settings q := by
  unfold Waker.ensureUp
  split
  · next hf =>
      refine ⟨h, fun q hq hn hp => ?_⟩
      simp only [State.Backed, hp, hq, hn]
      have hf' : a.up = true ∧ s.now - a.checkedAt < settings.checkMs := by simpa [App.fresh] using hf
      rcases h.checked o a ha with h0 | ⟨hle, hc⟩
      · have := h.clock
        omega
      · exact ⟨_, hc, hle, hf'.2⟩
  · split
    · next w hw =>
        refine ⟨h, fun q hq _ hp => ?_⟩
        simp only [State.Backed, hp, hq]
        exact h.waking o a w ha hw
    · next hw =>
        have hnone : ∀ (v : Nat) j, s.wakes[v]? = some j → j.app = o → j.settled = true := by
          intro v j hj e
          by_contra hs
          obtain ⟨b, hb, hv⟩ := h.current v j hj (by simpa using hs)
          obtain rfl : b = a := Option.some.inj ((e ▸ hb.symm).trans ha)
          rw [hw] at hv
          cases hv
        have hkept : KeepsWakes s.wakes (s.wakes ++ [⟨o, a.cfg.container, .inspecting, false, s.number⟩]) :=
          fun v j hj => ⟨j, snoc_eq hj, rfl, fun _ ht => ht⟩
        have hlen : o < (s.modifyApp o fun a => { a with waking := some s.wakes.length }).objects.length := by
          simpa [State.modifyApp] using (List.getElem?_eq_some_iff.1 ha).1
        refine ⟨⟨fun q hq => ?_, fun j hj => ?_, fun i b hb => ?_, h.finished, fun v j hj hs => ?_,
          fun i b v hb hv => ?_, fun i b hb => ?_, fun q hq => ?_, h.clock⟩, fun q hq _ hp => ?_⟩
        · exact (h.appLt q hq).trans_eq (List.length_modify ..).symm
        · rcases List.mem_append.1 hj with hj | hj
          · exact (h.wakeLt j hj).trans_eq (List.length_modify ..).symm
          · obtain rfl := List.mem_singleton.1 hj
            exact hlen
        · obtain ⟨c, hc, rfl⟩ := of_modify hb
          refine Eq.trans ?_ (h.inflight i c hc)
          split <;> rfl
        · rcases of_snoc hj with hj | ⟨rfl, rfl⟩
          · obtain ⟨c, hc, hv⟩ := h.current v j hj hs
            have ne : o ≠ j.app := by
              intro e
              rw [hnone v j hj e.symm] at hs
              cases hs
            refine ⟨_, modify_eq hc, ?_⟩
            rw [if_neg ne]
            exact hv
          · refine ⟨_, modify_eq ha, ?_⟩
            rw [if_pos rfl]
        · obtain ⟨c, hc, rfl⟩ := of_modify hb
          split at hv
          · next e =>
              obtain rfl := Option.some.inj hv
              exact ⟨_, List.getElem?_concat_length .., e⟩
          · obtain ⟨j, hj, hjo⟩ := h.waking i c v hc hv
            exact ⟨j, snoc_eq hj, hjo⟩
        · obtain ⟨c, hc, rfl⟩ := of_modify hb
          split <;> exact (h.checked i c hc).imp_right fun hc => ⟨hc.1, hkept.found hc.2⟩
        · exact hkept.backed (h.backed q hq)
        · simp only [State.Backed, hp, hq]
          exact ⟨_, List.getElem?_concat_length .., rfl⟩

theorem setPhase {r : Nat} {q : Request} {p : Phase} (h : Counted settings s) (hq : s.requests[r]? = some q)
    (hb : s.Backed settings { q with phase := p }) :
    Counted settings (s.modifyRequest r fun q => { q with phase := p }) := by
  have hnew : ∀ q' ∈ (s.modifyRequest r fun q => { q with phase := p }).requests,
      (q' ∈ s.requests ∨ q' = { q with phase := p }) := by
    intro q' hq'
    rcases mem_modify hq' with hq' | ⟨i, hi, rfl⟩
    · exact Or.inl hq'
    · obtain rfl := Option.some.inj (hi.symm.trans hq)
      exact Or.inr rfl
  have hmem := List.mem_of_getElem? hq
  refine ⟨fun q' hq' => ?_, h.wakeLt, fun o a ha => ?_, fun q' hq' => ?_, h.current, h.waking, h.checked,
    fun q' hq' => ?_, h.clock⟩
  · rcases hnew q' hq' with hq' | rfl
    · exact h.appLt q' hq'
    · exact h.appLt q hmem
  · rw [h.inflight o a ha]
    have hc := opened_modifyRequest (fun q : Request => { q with phase := p }) hq o
    exact congrArg Nat.cast (Nat.add_right_cancel hc).symm
  · rcases hnew q' hq' with hq' | rfl
    · exact h.finished q' hq'
    · exact h.finished q hmem
  · rcases hnew q' hq' with hq' | rfl
    · exact h.backed q' hq'
    · exact hb

theorem resume {r : Nat} {q : Request} (h : Counted settings s) (hq : s.requests[r]? = some q) :
    Counted settings (resume r q s) := by
  have hb := h.backed q (List.mem_of_getElem? hq)
  unfold Waker.resume
  split
  · next hp =>
      refine h.setPhase hq ?_
      simpa only [State.Backed, hp] using hb
  · next w hp =>
      refine lookup h fun k hk => ?_
      obtain ⟨k', hk', hko⟩ : ∃ k, s.wakes[w]? = some k ∧ k.app = q.app := by
        simpa only [State.Backed, hp] using hb
      obtain rfl := Option.some.inj (hk'.symm.trans hk)
      split
      · next t ht =>
          refine h.setPhase hq ?_
          simp only [State.Backed]
          exact ⟨k', t, hk, hko, ht⟩
      · have h' : Counted settings (s.modifyRequest r fun q => { q with phase := .refused }) :=
          h.setPhase hq trivial
        split
        · exact h'
        · exact h'.grown (.modifyApp _ fun _ => ⟨rfl, rfl, rfl⟩)
      · exact h
  · exact h

theorem close {r : Nat} {q : Request} (h : Counted settings s) (hq : s.requests[r]? = some q) :
    Counted settings (close r q s) := by
  have hmem := List.mem_of_getElem? hq
  obtain ⟨hf, hd⟩ := h.finished q hmem
  unfold Waker.close
  split
  · next hfin =>
      have h0 : q.closes ≠ 0 := by simpa [hfin] using hf
      refine ⟨fun q' hq' => ?_, h.wakeLt, fun o a ha => ?_, fun q' hq' => ?_, h.current, h.waking, h.checked,
        fun q' hq' => ?_, h.clock⟩
      · rcases mem_modify hq' with hq' | ⟨i, hi, rfl⟩
        · exact h.appLt q' hq'
        · exact h.appLt i (List.mem_of_getElem? hi)
      · rw [h.inflight o a ha]
        have hc := opened_modifyRequest (fun q => { q with closes := q.closes + 1 }) hq o
        simp only [h0, and_false, if_false, Nat.add_zero, Nat.add_eq_zero_iff, Nat.one_ne_zero] at hc
        exact congrArg Nat.cast hc.symm
      · rcases mem_modify hq' with hq' | ⟨i, hi, rfl⟩
        · exact h.finished q' hq'
        · obtain rfl := Option.some.inj (hi.symm.trans hq)
          simpa [hfin, h0] using hd
      · rcases mem_modify hq' with hq' | ⟨i, hi, rfl⟩
        · exact h.backed q' hq'
        · exact h.backed i (List.mem_of_getElem? hi)
  · next hfin =>
      have h0 : q.closes = 0 := by simpa [hfin] using hf
      refine ⟨fun q' hq' => ?_, fun k hk => ?_, fun o b hb => ?_, fun q' hq' => ?_, fun w k hk hs => ?_,
        fun o b w hb hw => ?_, fun o b hb => ?_, fun q' hq' => ?_, h.clock⟩
      · rw [State.modifyApp, List.length_modify]
        rcases mem_modify hq' with hq' | ⟨i, hi, rfl⟩
        · exact h.appLt q' hq'
        · exact h.appLt i (List.mem_of_getElem? hi)
      · exact (h.wakeLt k hk).trans_eq (List.length_modify ..).symm
      · obtain ⟨a, ha, rfl⟩ := of_modify hb
        have ha' := h.inflight o a ha
        have hc := opened_modifyRequest
          (fun q => { q with finished := true, closes := q.closes + 1, decrements := q.decrements + 1 }) hq o
        simp only [h0, and_true, and_false, if_false, Nat.add_eq_zero_iff, Nat.one_ne_zero] at hc
        rw [opened_modifyApp]
        split
        · next e =>
            rw [if_pos e] at hc
            change a.inflight - 1 = _
            omega
        · next e =>
            rw [if_neg e] at hc
            omega
      · rcases mem_modify hq' with hq' | ⟨i, hi, rfl⟩
        · exact h.finished q' hq'
        · obtain rfl := Option.some.inj (hi.symm.trans hq)
          simp [hd, h0]
      · obtain ⟨a, ha, hw⟩ := h.current w k hk hs
        refine ⟨_, modify_eq ha, ?_⟩
        split <;> exact hw
      · obtain ⟨a, ha, rfl⟩ := of_modify hb
        exact h.waking o a w ha (by split at hw <;> exact hw)
      · obtain ⟨a, ha, rfl⟩ := of_modify hb
        split <;> exact h.checked o a ha
      · rcases mem_modify hq' with hq' | ⟨i, hi, rfl⟩
        · exact h.backed q' hq'
        · exact h.backed i (List.mem_of_getElem? hi)

theorem snoc {o : Nat} {f : App → App} {q : Request} (h : Counted settings s) (ho : o < s.objects.length)
    (hf : ∀ a, (f a).inflight = a.inflight + 1 ∧ (f a).waking = a.waking ∧ (f a).checkedAt = a.checkedAt)
    (happ : q.app = o) (hnew : q.closes = 0 ∧ q.finished = false ∧ q.decrements = 0)
    (hb : s.Backed settings q) :
    Counted settings { s.modifyApp o f with requests := s.requests ++ [q] } := by
  refine ⟨fun q' hq' => ?_, fun k hk => ?_, fun i b hb => ?_, fun q' hq' => ?_, fun w k hk hs => ?_,
    fun i b w hb hw => ?_, fun i b hb => ?_, fun q' hq' => ?_, h.clock⟩
  · rw [State.modifyApp, List.length_modify]
    rcases List.mem_append.1 hq' with hq' | hq'
    · exact h.appLt q' hq'
    · obtain rfl := List.mem_singleton.1 hq'
      exact happ ▸ ho
  · exact (h.wakeLt k hk).trans_eq (List.length_modify ..).symm
  · obtain ⟨a, ha, rfl⟩ := of_modify hb
    have ha' := h.inflight i a ha
    have hc : (s.requests ++ [q]).countP (fun q => q.app = i && q.isOpen) =
        s.opened i + if o = i then 1 else 0 := by
      simp [State.opened, List.countP_append, List.countP_cons, Request.isOpen, hnew.1, happ]
    refine Eq.trans ?_ (congrArg Nat.cast hc).symm
    split
    · have := (hf a).1
      rw [Int.natCast_add]
      omega
    · simpa using ha'
  · rcases List.mem_append.1 hq' with hq' | hq'
    · exact h.finished q' hq'
    · obtain rfl := List.mem_singleton.1 hq'
      simp [hnew]
  · obtain ⟨a, ha, hw⟩ := h.current w k hk hs
    refine ⟨_, modify_eq ha, ?_⟩
    split
    · exact (hf a).2.1.trans hw
    · exact hw
  · obtain ⟨a, ha, rfl⟩ := of_modify hb
    refine h.waking i a w ha ?_
    split at hw
    · exact (hf a).2.1.symm.trans hw
    · exact hw
  · obtain ⟨a, ha, rfl⟩ := of_modify hb
    split
    · exact (hf a).2.2 ▸ h.checked i a ha
    · exact h.checked i a ha
  · rcases List.mem_append.1 hq' with hq' | hq'
    · exact h.backed q' hq'
    · obtain rfl := List.mem_singleton.1 hq'
      exact hb

theorem accept {upgrade : Bool} {o : Nat} {a : App} (h : Counted settings s) (ha : s.objects[o]? = some a) :
    Counted settings (accept settings upgrade o a s) := by
  obtain ⟨h', hb⟩ := h.ensureUp ha
  rw [admit_eq]
  apply h'.snoc
  · rw [ensureUp_length]
    exact (List.getElem?_eq_some_iff.1 ha).1
  · exact fun _ => ⟨rfl, rfl, rfl⟩
  · rfl
  · exact ⟨rfl, rfl, rfl⟩
  · exact hb _ rfl rfl rfl

theorem handle {upgrade : Bool} {header : String} {files : List (Option Cfg)} (h : Counted settings s) :
    Counted settings (handle settings upgrade header files s) := by
  have h' := h.grown (grown_loadConfig settings files s)
  unfold Waker.handle
  dsimp only
  split
  · exact h'
  · refine lookup h' fun a ha => ?_
    split
    · exact h'
    · exact h'.accept ha

/-- One step keeps the books. -/
theorem step (e : Event) (h : Counted settings s) : Counted settings (step settings s e) := by
  cases e with
  | tick ms => exact h.grown (.of_eq rfl rfl rfl (Nat.le_add_right ..))
  | handle upgrade header files => exact h.handle
  | inspected w found =>
      refine lookup h fun k hk => ?_
      unfold inspect
      split
      · exact h
      · next hs =>
          have hd : k.stage.ended = false := by
            rw [not_not.1 hs]
            rfl
          split
          · exact h.setStage hk hd
          · split
            · exact h.succeed hk hd
            · exact h.setStage hk hd
  | started w success =>
      refine lookup h fun k hk => ?_
      unfold boot
      split
      · exact h
      · next hs =>
          have hd : k.stage.ended = false := by
            rw [not_not.1 hs]
            rfl
          split
          · exact (h.setStage hk hd).grown (.of_eq rfl rfl rfl le_rfl)
          · exact h.setStage hk hd
  | connected w success =>
      refine lookup h fun k hk => ?_
      unfold connect
      split
      · exact h
      · next hs =>
          have hd : k.stage.ended = false := by
            rw [not_not.1 hs]
            rfl
          split
          · exact h.succeed hk hd
          · exact h.setStage hk hd
  | settled w => exact lookup h fun k hk => h.settle hk
  | resumed r => exact lookup h fun q hq => h.resume hq
  | upstreamError r =>
      refine lookup h fun q _ => ?_
      unfold upstreamError
      split
      · split
        · exact h
        · exact h.grown (.modifyApp _ fun _ => ⟨rfl, rfl, rfl⟩)
      · exact h
  | aborted r => exact h
  | close r => exact lookup h fun q hq => h.close hq
  | sweep files => exact (h.grown (grown_loadConfig settings files s)).grown (.of_eq rfl rfl rfl le_rfl)
  | visit k container =>
      simp only [Waker.step]
      split
      · split
        · exact h
        · refine lookup h fun a _ => ?_
          unfold visit
          split
          · exact h
          · split
            · exact h
            · split
              · exact h
              · exact h.grown (.of_eq rfl rfl rfl le_rfl)
      · exact h
  | exited k => exact lookup h fun p _ => h.grown (.of_eq rfl rfl rfl le_rfl)
  | stopped k success =>
      refine lookup h fun p _ => ?_
      unfold answer
      have h' : Counted settings { s with
          stops := s.stops.modify k fun p => { p with answered := true }
          sweeps := s.sweeps.map fun q => if q.stop = some k then { q with stop := none } else q } :=
        h.grown (.of_eq rfl rfl rfl le_rfl)
      split
      · exact h'.grown (.modifyApp _ fun _ => ⟨rfl, rfl, rfl⟩)
      · exact h'
  | external container running =>
      cases running with
      | true => exact h.grown (.of_eq rfl rfl rfl le_rfl)
      | false => exact h.grown (.of_eq rfl rfl rfl le_rfl)

theorem empty (now : Nat) (running : String → Bool) (hn : settings.checkMs ≤ now) :
    Counted settings (.empty now running) where
  appLt := nofun
  wakeLt := nofun
  inflight := nofun
  finished := nofun
  current := nofun
  waking := nofun
  checked := nofun
  backed := nofun
  clock := hn

theorem main (now : Nat) (running : String → Bool) (files : List (Option Cfg))
    (hn : settings.checkMs ≤ now) :
    Counted settings (main settings now running files) := by
  have h := (empty now running hn).grown (grown_loadConfig settings files _)
  refine h.grown ⟨rfl, rfl, le_rfl, by simp [Waker.main], fun o b hb ho => ?_, fun o b hb ho => ?_⟩
  · rw [Waker.main, List.getElem?_map] at hb
    obtain ⟨a, ha, rfl⟩ := Option.map_eq_some_iff.1 hb
    exact ⟨a, ha, rfl, rfl, rfl⟩
  · rw [Waker.main, List.getElem?_map, List.getElem?_eq_none ho] at hb
    cases hb

end Counted

/-- The books are right. -/
structure Exact (settings : Settings) (s : State) : Prop where
  inflight : ∀ (o : Nat) a, s.objects[o]? = some a → a.inflight = s.opened o
  nonneg : ∀ a ∈ s.objects, 0 ≤ a.inflight
  once : ∀ q ∈ s.requests, q.decrements = if q.isOpen then 0 else 1
  oneWake : ∀ (v w : Nat) j k, s.wakes[v]? = some j → s.wakes[w]? = some k → j.app = k.app →
    j.settled = false → k.settled = false → v = w
  forwarded : ∀ q ∈ s.requests,
    match q.phase with
    | .forwarded (some w) => ∃ k t, s.wakes[w]? = some k ∧ k.app = q.app ∧ k.stage = .done t
    | .forwarded none => ∃ t, s.Found q.app t ∧ t ≤ q.admittedAt ∧ q.admittedAt - t < settings.checkMs
    | _ => True

theorem Counted.exact (h : Counted settings s) : Exact settings s where
  inflight := h.inflight
  nonneg a ha := by
    obtain ⟨o, ho⟩ := List.mem_iff_getElem?.1 ha
    rw [h.inflight o a ho]
    exact Int.natCast_nonneg _
  once q hq := by simpa [Request.isOpen] using (h.finished q hq).2
  oneWake v w j k hj hk e hjs hks := by
    obtain ⟨a, ha, hv⟩ := h.current v j hj hjs
    obtain ⟨b, hb, hw⟩ := h.current w k hk hks
    obtain rfl : a = b := Option.some.inj (ha.symm.trans (e ▸ hb))
    exact Option.some.inj (hv.symm.trans hw)
  forwarded q hq := by
    have hb := h.backed q hq
    unfold State.Backed at hb
    split
    · next hp => simpa only [hp] using hb
    · next hp => simpa only [hp] using hb
    · trivial

end Yeah.Waker
