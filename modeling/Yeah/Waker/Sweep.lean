import Yeah.Waker.Count

namespace Yeah.Waker

open Runs Tables

namespace State

def container (s : State) (o : Nat) : Option String := s.objects[o]?.map fun a => a.cfg.container

def Restarted (s : State) (p : Stop) : Prop := ∃ n, (p.container, n) ∈ s.starts ∧ p.number < n

/-- The stop is over: the container was started again, or it has ended and runs anew. -/
def Cleared (s : State) (p : Stop) : Prop :=
  s.Restarted p ∨ (p.exited = true ∧ s.running p.container = true)

end State

/-- No stop of a container that has an open request or connection; and what was admitted during a
stop is not forwarded before the container was started again. -/
def Safe (settings : Settings) (s : State) : Event → Prop
  | .visit k c => (step settings s (.visit k c)).stops ≠ s.stops →
      ∀ q ∈ s.requests, q.isOpen = true → s.container q.app ≠ some c
  | .resumed r => ∀ q q' w v, s.requests[r]? = some q → (step settings s (.resumed r)).requests[r]? = some q' →
      q.phase = .awaiting w → q'.phase = .forwarded v → ∀ i ∈ q.stops, ∀ p, s.stops[i]? = some p →
        s.Restarted p
  | _ => True

/-- A reload drops no entry of a container with an open request or connection. -/
def KeepsOpen (s : State) (files : List (Option Cfg)) : Prop :=
  2000 ≤ s.now - s.lastLoad → ∀ q ∈ s.requests, q.isOpen = true → ∀ c, s.container q.app = some c →
    c ∈ seen files

/-- During a stop of a container, neither a recent check nor a new one takes it to be up. -/
def Careful (settings : Settings) (s : State) : Event → Prop
  | .handle _ header files => KeepsOpen s files ∧
      let s := loadConfig settings files s
      ∀ o, s.hostIndex (hostKey settings header) = some o → ∀ a, s.objects[o]? = some a →
        a.cfg.maintenance = none → a.fresh settings s.now = true →
          ∀ i ∈ s.stopping a.cfg.container, ∀ p, s.stops[i]? = some p → s.Cleared p
  | .sweep files => KeepsOpen s files
  | .inspected w found => ∀ k, s.wakes[w]? = some k → k.stage = .inspecting → found = true →
      s.running k.container = true → ∀ (i : Nat) p, s.stops[i]? = some p →
        ((p.container = k.container ∧ p.answered = false) ∨
          ∃ q ∈ s.requests, q.phase = .awaiting (some w) ∧ i ∈ q.stops) → s.Cleared p
  | _ => True

/-- The container was started, or it was found running. -/
def Stage.begun : Stage → Bool
  | .connecting | .done _ => true
  | _ => false

structure Sound (s : State) : Prop where
  apps : ∀ c o, s.apps c = some o → s.container o = some c
  hosts : ∀ h o, s.hostIndex h = some o → ∃ c, s.apps c = some o
  /-- The entry that a sweep reads is the one that the request is counted in. -/
  opened : ∀ q ∈ s.requests, q.isOpen = true → ∃ c, s.apps c = some q.app
  wakes : ∀ k ∈ s.wakes, s.container k.app = some k.container
  stops : ∀ q ∈ s.requests, ∀ i ∈ q.stops, ∃ p, s.stops[i]? = some p ∧
    s.container q.app = some p.container
  numbers : ∀ p ∈ s.stops, p.number < s.number
  ended : ∀ p ∈ s.stops, p.exited = true → s.running p.container = true → s.Restarted p
  pending : ∀ p ∈ s.stops, p.answered = false → ∀ (o w : Nat) a k, s.apps p.container = some o →
    s.objects[o]? = some a → a.waking = some w → s.wakes[w]? = some k → k.stage.begun = true →
      s.Restarted p
  fast : ∀ q ∈ s.requests, q.phase = .awaiting none → ∀ i ∈ q.stops, ∀ p, s.stops[i]? = some p →
    s.Restarted p
  awaiting : ∀ q ∈ s.requests, ∀ (w : Nat) k, q.phase = .awaiting (some w) → s.wakes[w]? = some k →
    k.stage.begun = true → ∀ i ∈ q.stops, ∀ p, s.stops[i]? = some p → s.Restarted p

variable {settings : Settings} {s s' : State}

/-- A step that adds no request, wake-up or stop, drops no entry and begins no wake-up. -/
structure Frame (s s' : State) : Prop where
  container : ∀ o c, s.container o = some c → s'.container o = some c
  waking : ∀ (o : Nat) b w, s'.objects[o]? = some b → b.waking = some w → ∃ a, s.objects[o]? = some a ∧
    a.waking = some w
  apps : s'.apps = s.apps
  hosts : s'.hostIndex = s.hostIndex
  requests : ∀ q' ∈ s'.requests, ∃ q ∈ s.requests, q'.app = q.app ∧ q'.stops = q.stops ∧
    (q'.isOpen = true → q.isOpen = true) ∧ ∀ w, q'.phase = .awaiting w → q.phase = .awaiting w
  wakes : ∀ (w : Nat) k', s'.wakes[w]? = some k' → ∃ k, s.wakes[w]? = some k ∧ k'.app = k.app ∧
    k'.container = k.container ∧ (k'.stage.begun = true → k.stage.begun = true)
  length : s'.stops.length = s.stops.length
  stops : ∀ (i : Nat) p', s'.stops[i]? = some p' → ∃ p, s.stops[i]? = some p ∧
    p'.container = p.container ∧
    p'.number = p.number ∧ (p'.answered = false → p.answered = false) ∧
      (p'.exited = true → s'.running p.container = true →
        (p.exited = true ∧ s.running p.container = true) ∨ ∃ n, (p.container, n) ∈ s'.starts ∧ p.number < n)
  starts : s.starts ⊆ s'.starts
  number : s.number ≤ s'.number

theorem State.Restarted.mono {p p' : Stop} (h : s.Restarted p) (hs : s.starts ⊆ s'.starts)
    (hc : p'.container = p.container) (hn : p'.number = p.number) : s'.Restarted p' := by
  obtain ⟨n, hmem, hlt⟩ := h
  exact ⟨n, hc ▸ hs hmem, hn ▸ hlt⟩

theorem Sound.restarted {p : Stop} (h : Sound s) (hp : p ∈ s.stops) (hc : s.Cleared p) : s.Restarted p :=
  hc.elim id fun hc => h.ended p hp hc.1 hc.2

theorem Sound.frame (h : Sound s) (f : Frame s s') : Sound s' where
  apps c o hc := f.container o c (h.apps c o (by rwa [f.apps] at hc))
  hosts a o ha := by
    rw [f.hosts] at ha
    rw [f.apps]
    exact h.hosts a o ha
  opened q' hq' ho := by
    obtain ⟨q, hq, happ, -, hopen, -⟩ := f.requests q' hq'
    rw [f.apps, happ]
    exact h.opened q hq (hopen ho)
  wakes k' hk' := by
    obtain ⟨w, hw⟩ := List.mem_iff_getElem?.1 hk'
    obtain ⟨k, hk, happ, hcon, -⟩ := f.wakes w k' hw
    rw [happ, hcon]
    exact f.container _ _ (h.wakes k (List.mem_of_getElem? hk))
  stops q' hq' i hi := by
    obtain ⟨q, hq, happ, hstops, -⟩ := f.requests q' hq'
    obtain ⟨p, hp, hc⟩ := h.stops q hq i (hstops ▸ hi)
    have hl : i < s'.stops.length := f.length ▸ (List.getElem?_eq_some_iff.1 hp).1
    have hp' := List.getElem?_eq_getElem hl
    obtain ⟨p₁, hp₁, hcon, -⟩ := f.stops i _ hp'
    obtain rfl := Option.some.inj (hp₁.symm.trans hp)
    exact ⟨_, hp', by rw [happ, hcon]; exact f.container _ _ hc⟩
  numbers p' hp' := by
    obtain ⟨i, hi⟩ := List.mem_iff_getElem?.1 hp'
    obtain ⟨p, hp, -, hn, -⟩ := f.stops i p' hi
    rw [hn]
    exact (h.numbers p (List.mem_of_getElem? hp)).trans_le f.number
  ended p' hp' he hr := by
    obtain ⟨i, hi⟩ := List.mem_iff_getElem?.1 hp'
    obtain ⟨p, hp, hcon, hn, -, hx⟩ := f.stops i p' hi
    rcases hx he (hcon ▸ hr) with hx | ⟨n, hmem, hlt⟩
    · exact (h.ended p (List.mem_of_getElem? hp) hx.1 hx.2).mono f.starts hcon hn
    · exact ⟨n, hcon ▸ hmem, hn ▸ hlt⟩
  pending p' hp' hans o w b k' hap hb hw hk' hbeg := by
    obtain ⟨i, hi⟩ := List.mem_iff_getElem?.1 hp'
    obtain ⟨p, hp, hcon, hn, ha, -⟩ := f.stops i p' hi
    obtain ⟨k, hk, -, -, hbeg'⟩ := f.wakes w k' hk'
    obtain ⟨a, hoa, hw⟩ := f.waking o b w hb hw
    rw [f.apps, hcon] at hap
    exact (h.pending p (List.mem_of_getElem? hp) (ha hans) o w a k hap hoa hw hk (hbeg' hbeg)).mono f.starts hcon hn
  fast q' hq' hph i hi p' hp' := by
    obtain ⟨q, hq, -, hstops, -, hphase⟩ := f.requests q' hq'
    obtain ⟨p, hp, hcon, hn, -⟩ := f.stops i p' hp'
    exact (h.fast q hq (hphase _ hph) i (hstops ▸ hi) p hp).mono f.starts hcon hn
  awaiting q' hq' w k' hph hk' hb i hi p' hp' := by
    obtain ⟨q, hq, -, hstops, -, hphase⟩ := f.requests q' hq'
    obtain ⟨p, hp, hcon, hn, -⟩ := f.stops i p' hp'
    obtain ⟨k, hk, -, -, hbeg⟩ := f.wakes w k' hk'
    exact (h.awaiting q hq w k (hphase _ hph) hk (hbeg hb) i (hstops ▸ hi) p hp).mono f.starts hcon hn

theorem container_eq {o : Nat} {a : App} (ha : s.objects[o]? = some a) :
    s.container o = some a.cfg.container := by
  rw [State.container, ha]
  rfl

theorem container_modifyApp (o : Nat) {f : App → App} (hf : ∀ a, (f a).cfg = a.cfg) (i : Nat) (c : String)
    (hc : s.container i = some c) : (s.modifyApp o f).container i = some c := by
  obtain ⟨a, ha, rfl⟩ := Option.map_eq_some_iff.1 hc
  rw [container_eq (modify_eq ha)]
  split
  · rw [hf]
  · rfl

namespace Frame

theorem refl (s : State) : Frame s s where
  container _ _ h := h
  waking _ b _ hb hw := ⟨b, hb, hw⟩
  apps := rfl
  hosts := rfl
  requests q hq := ⟨q, hq, rfl, rfl, id, fun _ h => h⟩
  wakes _ k hk := ⟨k, hk, rfl, rfl, id⟩
  length := rfl
  stops _ p hp := ⟨p, hp, rfl, rfl, id, fun he hr => Or.inl ⟨he, hr⟩⟩
  starts _ h := h
  number := le_rfl

theorem modifyApp (o : Nat) {f : App → App} (hf : ∀ a, (f a).cfg = a.cfg)
    (hw : ∀ a w, (f a).waking = some w → a.waking = some w) : Frame s (s.modifyApp o f) :=
  { refl s with
    waking := fun i b w hb hbw => by
      obtain ⟨a, ha, rfl⟩ := of_modify hb
      refine ⟨a, ha, ?_⟩
      split at hbw
      · exact hw a w hbw
      · exact hbw
    container := container_modifyApp o hf }

theorem modifyRequest (r : Nat) {f : Request → Request}
    (hf : ∀ q, (f q).app = q.app ∧ (f q).stops = q.stops ∧
    ((f q).isOpen = true → q.isOpen = true) ∧ ∀ w, (f q).phase = .awaiting w → q.phase = .awaiting w) :
    Frame s (s.modifyRequest r f) :=
  { refl s with
    requests := fun q' hq' => by
      rcases mem_modify hq' with hq' | ⟨q, hq, rfl⟩
      · exact ⟨q', hq', rfl, rfl, id, fun _ h => h⟩
      · exact ⟨q, List.mem_of_getElem? hq, hf q⟩ }

theorem modifyWake {w : Nat} {k : Wake} {f : Wake → Wake} (hk : s.wakes[w]? = some k)
    (hf : (f k).app = k.app ∧ (f k).container = k.container ∧
      ((f k).stage.begun = true → k.stage.begun = true)) : Frame s (s.modifyWake w f) :=
  { refl s with
    wakes := fun v j' hj' => by
      obtain ⟨j, hj, rfl⟩ := of_modify hj'
      refine ⟨j, hj, ?_⟩
      split
      · next e =>
          obtain rfl := Option.some.inj ((e ▸ hj.symm).trans hk)
          exact hf
      · exact ⟨rfl, rfl, id⟩ }

theorem start (h : Sound s) (c : String) : Frame s (start c s) :=
  { refl s with
    stops := fun i p hp => ⟨p, hp, rfl, rfl, id, fun he hr => by
      by_cases e : p.container = c
      · exact Or.inr ⟨s.number, e ▸ List.mem_cons_self, h.numbers p (List.mem_of_getElem? hp)⟩
      · exact Or.inl ⟨he, (Function.update_of_ne e ..).symm.trans hr⟩⟩
    starts := List.subset_cons_self ..
    number := Nat.le_succ _ }

theorem exit (c : String) {f : Stop → Stop} (k : Nat) (hf : ∀ p, (f p).container = p.container ∧
    (f p).number = p.number ∧ (f p).answered = p.answered) (hk : ∀ p, s.stops[k]? = some p →
      (f p).exited = true → p.exited = true ∨ p.container = c) :
    Frame s { s with running := Function.update s.running c false, stops := s.stops.modify k f } :=
  { refl s with
    length := List.length_modify ..
    stops := fun i p' hp' => by
      obtain ⟨p, hp, rfl⟩ := of_modify hp'
      have hrun : Function.update s.running c false p.container = true → p.container ≠ c ∧
        s.running p.container = true := by
        intro hr
        by_cases e : p.container = c
        · rw [e, Function.update_self] at hr
          cases hr
        · exact ⟨e, (Function.update_of_ne e ..).symm.trans hr⟩
      refine ⟨p, hp, ?_⟩
      split
      · next e =>
          obtain ⟨h0, h1, h2⟩ := hf p
          refine ⟨h0, h1, fun ha => h2 ▸ ha, fun he hr => Or.inl ?_⟩
          exact ⟨(hk p (e ▸ hp) he).resolve_right (hrun hr).1, (hrun hr).2⟩
      · exact ⟨rfl, rfl, id, fun he hr => Or.inl ⟨he, (hrun hr).2⟩⟩ }

theorem answer (k : Nat) : Frame s { s with
    stops := s.stops.modify k fun p => { p with answered := true }
    sweeps := s.sweeps.map fun q => if q.stop = some k then { q with stop := none } else q } :=
  { refl s with
    length := List.length_modify ..
    stops := fun i p' hp' => by
      obtain ⟨p, hp, rfl⟩ := of_modify hp'
      refine ⟨p, hp, ?_⟩
      split
      · exact ⟨rfl, rfl, nofun, fun he hr => Or.inl ⟨he, hr⟩⟩
      · exact ⟨rfl, rfl, id, fun he hr => Or.inl ⟨he, hr⟩⟩ }

end Frame

theorem mem_stopping {i : Nat} {c : String} (h : i ∈ s.stopping c) :
    ∃ p, s.stops[i]? = some p ∧ p.container = c ∧ p.answered = false := by
  obtain ⟨-, h⟩ := List.mem_filter.1 h
  cases hp : s.stops[i]? with
  | none => simp [hp] at h
  | some p => exact ⟨p, rfl, by simpa [hp] using h⟩

/-- What the caller waits for: nothing, the wake-up that runs, or one that it begins. -/
theorem ensureUp_cases (settings : Settings) (o : Nat) (a : App) (s : State) :
    (a.fresh settings s.now = true ∧ ensureUp settings o a s = (s, none)) ∨
      (∃ w, a.waking = some w ∧ ensureUp settings o a s = (s, some w)) ∨
      ensureUp settings o a s =
        ({ (s.modifyApp o fun a => { a with waking := some s.wakes.length }) with
            wakes := s.wakes ++ [⟨o, a.cfg.container, .inspecting, false, s.number⟩]
            number := s.number + 1 }, some s.wakes.length) := by
  unfold ensureUp
  split
  · next hf => exact Or.inl ⟨hf, rfl⟩
  · split
    · next w hw => exact Or.inr (Or.inl ⟨w, hw, rfl⟩)
    · exact Or.inr (Or.inr rfl)

theorem ensureUp_rest (settings : Settings) (o : Nat) (a : App) (s : State) :
    (ensureUp settings o a s).1.apps = s.apps ∧ (ensureUp settings o a s).1.stops = s.stops ∧
      (ensureUp settings o a s).1.starts = s.starts ∧
        ∀ i c, s.container i = some c → (ensureUp settings o a s).1.container i = some c := by
  rcases ensureUp_cases settings o a s with ⟨-, e⟩ | ⟨w, -, e⟩ | e
  · exact e ▸ ⟨rfl, rfl, rfl, fun _ _ h => h⟩
  · exact e ▸ ⟨rfl, rfl, rfl, fun _ _ h => h⟩
  · rw [e]
    exact ⟨rfl, rfl, rfl, container_modifyApp o fun _ => rfl⟩

namespace Sound

/-- A wake-up takes the container to be up. By then it was started again after every stop that
somebody waits out on this wake-up. -/
theorem setStage {w : Nat} {k : Wake} {stage : Stage} (h : Sound s) (hc : Counted settings s)
    (hk : s.wakes[w]? = some k)
    (hp : ∀ (i : Nat) p, s.stops[i]? = some p → ((p.container = k.container ∧ p.answered = false) ∨
      ∃ q ∈ s.requests, q.phase = .awaiting (some w) ∧ i ∈ q.stops) → s.Restarted p) :
    Sound (s.setStage w stage) := by
  refine ⟨h.apps, h.hosts, h.opened, fun j hj => ?_, h.stops, h.numbers, h.ended,
    fun p hpm hans o v a j hap ha hv hj hb => ?_, h.fast, fun q hq v j hph hj hb i hi p hpi => ?_⟩
  · rcases mem_modify hj with hj | ⟨j', hj', rfl⟩
    · exact h.wakes j hj
    · exact h.wakes j' (List.mem_of_getElem? hj')
  · obtain ⟨j', hj', rfl⟩ := of_modify hj
    split at hb
    · next e =>
        obtain rfl := Option.some.inj ((e ▸ hj'.symm).trans hk)
        obtain ⟨k', hk', hko⟩ := hc.waking o a v ha hv
        obtain rfl := Option.some.inj (hk'.symm.trans hj')
        obtain ⟨i, hi⟩ := List.mem_iff_getElem?.1 hpm
        have hcon := (h.apps _ _ hap).symm.trans (hko ▸ h.wakes k' (List.mem_of_getElem? hk'))
        exact hp i p hi (Or.inl ⟨Option.some.inj hcon, hans⟩)
    · exact h.pending p hpm hans o v a j' hap ha hv hj' hb
  · obtain ⟨j', hj', rfl⟩ := of_modify hj
    split at hb
    · next e => exact hp i p hpi (Or.inr ⟨q, hq, e ▸ hph, hi⟩)
    · exact h.awaiting q hq v j' hph hj' hb i hi p hpi

theorem ensureUp {o : Nat} {a : App} (h : Sound s) (ha : s.objects[o]? = some a) :
    Sound (ensureUp settings o a s).1 := by
  unfold Waker.ensureUp
  split
  · exact h
  · split
    · exact h
    · next hw =>
        have hcon :=
          container_modifyApp (s := s) o (f := fun a => { a with waking := some s.wakes.length }) fun _ => rfl
        refine ⟨fun c i hi => hcon i c (h.apps c i hi), h.hosts, h.opened, fun k hk => ?_, fun q hq i hi => ?_,
          fun p hp => (h.numbers p hp).trans (Nat.lt_succ_self _), h.ended,
          fun p hp hans i w b k hap hb hbw hk hbeg => ?_, h.fast, fun q hq w k hph hk hb i hi p hp => ?_⟩
        · rcases List.mem_append.1 hk with hk | hk
          · exact hcon _ _ (h.wakes k hk)
          · obtain rfl := List.mem_singleton.1 hk
            exact hcon o _ (container_eq ha)
        · obtain ⟨p, hp, hpc⟩ := h.stops q hq i hi
          exact ⟨p, hp, hcon _ _ hpc⟩
        · rcases of_snoc hk with hk | ⟨-, rfl⟩
          · obtain ⟨b', hb', rfl⟩ := of_modify hb
            split at hbw
            · obtain rfl := Option.some.inj hbw
              rw [List.getElem?_eq_none le_rfl] at hk
              cases hk
            · exact h.pending p hp hans i w b' k hap hb' hbw hk hbeg
          · cases hbeg
        · rcases of_snoc hk with hk | ⟨-, rfl⟩
          · exact h.awaiting q hq w k hph hk hb i hi p hp
          · cases hb

theorem snoc {q : Request} (h : Sound s) (hap : ∃ c, s.apps c = some q.app)
    (hstops : ∀ i ∈ q.stops, ∃ p, s.stops[i]? = some p ∧ s.container q.app = some p.container)
    (hfast : q.phase = .awaiting none → ∀ i ∈ q.stops, ∀ p, s.stops[i]? = some p → s.Restarted p)
    (hawait : ∀ (w : Nat) k, q.phase = .awaiting (some w) → s.wakes[w]? = some k → k.stage.begun = true →
      ∀ i ∈ q.stops, ∀ p, s.stops[i]? = some p → s.Restarted p) :
    Sound { s with requests := s.requests ++ [q] } := by
  refine ⟨h.apps, h.hosts, fun q' hq' ho => ?_, h.wakes, fun q' hq' => ?_, h.numbers, h.ended, h.pending,
    fun q' hq' => ?_, fun q' hq' => ?_⟩
  · rcases List.mem_append.1 hq' with hq' | hq'
    · exact h.opened q' hq' ho
    · exact List.mem_singleton.1 hq' ▸ hap
  · rcases List.mem_append.1 hq' with hq' | hq'
    · exact h.stops q' hq'
    · exact List.mem_singleton.1 hq' ▸ hstops
  · rcases List.mem_append.1 hq' with hq' | hq'
    · exact h.fast q' hq'
    · exact List.mem_singleton.1 hq' ▸ hfast
  · rcases List.mem_append.1 hq' with hq' | hq'
    · exact h.awaiting q' hq'
    · exact List.mem_singleton.1 hq' ▸ hawait

theorem accept {upgrade : Bool} {o : Nat} {a : App} (h : Sound s)
    (ha : s.objects[o]? = some a) (hap : ∃ c, s.apps c = some o)
    (hcare : a.fresh settings s.now = true →
      ∀ i ∈ s.stopping a.cfg.container, ∀ p, s.stops[i]? = some p → s.Cleared p) :
    Sound (accept settings upgrade o a s) := by
  obtain ⟨happs, hstops, hstarts, hcon⟩ := ensureUp_rest settings o a s
  rw [admit_eq]
  have hu : Sound ((Waker.ensureUp settings o a s).1.modifyApp o fun a =>
      { a with inflight := a.inflight + 1, last := if upgrade then a.last else s.now }) :=
    (h.ensureUp ha).frame (.modifyApp o (fun _ => rfl) fun _ _ hw => hw)
  have hp₀ : ∀ i ∈ s.stopping a.cfg.container, ∀ p, (Waker.ensureUp settings o a s).1.stops[i]? = some p →
      s.stops[i]? = some p ∧ p.container = a.cfg.container ∧ p.answered = false := by
    intro i hi p hp
    rw [hstops] at hp
    obtain ⟨p', hp', hrest⟩ := mem_stopping hi
    obtain rfl := Option.some.inj (hp'.symm.trans hp)
    exact ⟨hp, hrest⟩
  refine hu.snoc ?_ (fun i hi => ?_) (fun hph i hi p hp => ?_) (fun w k hph hk hb i hi p hp => ?_)
  · obtain ⟨c, hap⟩ := hap
    exact ⟨c, (congrFun happs c).trans hap⟩
  · obtain ⟨p, hp, hpc, -⟩ := mem_stopping hi
    refine ⟨p, (congrArg (·[i]?) hstops).trans hp, ?_⟩
    rw [hpc]
    refine container_modifyApp o ?_ _ _ (hcon _ _ (container_eq ha))
    exact fun _ => rfl
  · obtain ⟨hp', -⟩ := hp₀ i hi p hp
    rcases ensureUp_cases settings o a s with ⟨hf, e⟩ | ⟨w, -, e⟩ | e
    · have hr := h.restarted (List.mem_of_getElem? hp') (hcare hf i hi p hp')
      exact hr.mono (hstarts ▸ List.Subset.refl _) rfl rfl
    · rw [e] at hph
      cases hph
    · rw [e] at hph
      cases hph
  · obtain ⟨hp', hpc, hans⟩ := hp₀ i hi p hp
    obtain ⟨c, hap⟩ := hap
    have hcon' := (h.apps c o hap).symm.trans (container_eq ha)
    rcases ensureUp_cases settings o a s with ⟨-, e⟩ | ⟨v, hv, e⟩ | e
    · rw [e] at hph
      cases hph
    · rw [e] at hph hk
      cases hph
      refine (h.pending p (List.mem_of_getElem? hp') hans o w a k ?_ ha hv hk hb).mono
        (hstarts ▸ List.Subset.refl _) rfl rfl
      rwa [hpc, ← Option.some.inj hcon']
    · rw [e] at hph hk
      cases hph
      rcases of_snoc hk with hk | ⟨-, rfl⟩
      · rw [List.getElem?_eq_none le_rfl] at hk
        cases hk
      · cases hb

/-- The sweep stops a container whose entry nobody waits on. -/
theorem visit {k : Nat} {w : Sweep} {c : String} {o : Nat} {a : App} (h : Sound s) (hap : s.apps c = some o)
    (ha : s.objects[o]? = some a) : Sound (visit k w o a s) := by
  have hcon : c = a.cfg.container := Option.some.inj ((h.apps c o hap).symm.trans (container_eq ha))
  unfold Waker.visit
  split
  · exact h
  · next hidle =>
      split
      · exact h
      · split
        · exact h
        · refine ⟨h.apps, h.hosts, h.opened, h.wakes, fun q hq i hi => ?_, fun p hp => ?_, fun p hp he hr => ?_,
            fun p hp hans i w b j hap' hb hw hj hbeg => ?_, fun q hq hph i hi p hp => ?_,
            fun q hq w j hph hj hb i hi p hp => ?_⟩
          · obtain ⟨p, hp, hpc⟩ := h.stops q hq i hi
            exact ⟨p, snoc_eq hp, hpc⟩
          · rcases List.mem_append.1 hp with hp | hp
            · exact (h.numbers p hp).trans (Nat.lt_succ_self _)
            · obtain rfl := List.mem_singleton.1 hp
              exact Nat.lt_succ_self _
          · rcases List.mem_append.1 hp with hp | hp
            · exact h.ended p hp he hr
            · obtain rfl := List.mem_singleton.1 hp
              cases he
          · rcases List.mem_append.1 hp with hp | hp
            · exact h.pending p hp hans i w b j hap' hb hw hj hbeg
            · obtain rfl := List.mem_singleton.1 hp
              obtain rfl := Option.some.inj ((hcon ▸ hap').symm.trans hap)
              obtain rfl := Option.some.inj (hb.symm.trans ha)
              simp [hw] at hidle
          · obtain ⟨p', hp', -⟩ := h.stops q hq i hi
            obtain rfl := Option.some.inj ((snoc_eq hp').symm.trans hp)
            exact h.fast q hq hph i hi p' hp'
          · obtain ⟨p', hp', -⟩ := h.stops q hq i hi
            obtain rfl := Option.some.inj ((snoc_eq hp').symm.trans hp)
            exact h.awaiting q hq w j hph hj hb i hi p' hp'

end Sound

section Reload

/-- A reload in progress, that has read some of the files. -/
structure Loading (s : State) (names : List String) (t : State) : Prop where
  container : ∀ o c, s.container o = some c → t.container o = some c
  waking : ∀ (o : Nat) b, t.objects[o]? = some b → (∃ a, s.objects[o]? = some a ∧ b.waking = a.waking) ∨
    b.waking = none
  kept : ∀ c o, s.apps c = some o → t.apps c = some o
  made : ∀ c o, t.apps c = some o → s.apps c = some o ∨ s.objects.length ≤ o
  apps : ∀ c o, t.apps c = some o → t.container o = some c
  hosts : ∀ h o, t.hostIndex h = some o → ∃ c ∈ names, t.apps c = some o
  length : s.objects.length ≤ t.objects.length
  rest : t.requests = s.requests ∧ t.wakes = s.wakes ∧ t.stops = s.stops ∧ t.running = s.running ∧
    t.starts = s.starts ∧ t.number = s.number

theorem Loading.keep {names : List String} {t : State} {cfg : Cfg} (h : Loading s names t) :
    Loading s names (t.keep cfg) ∧ ∃ o, (t.keep cfg).apps cfg.container = some o := by
  unfold State.keep
  split
  · next o ho =>
      refine ⟨?_, o, ho⟩
      have hcon : ∀ i c, t.container i = some c →
        (t.modifyApp o fun a => { a with cfg := cfg }).container i = some c := by
        intro i c hc
        obtain ⟨a, ha, rfl⟩ := Option.map_eq_some_iff.1 hc
        rw [container_eq (modify_eq ha)]
        split
        · next e => exact (h.apps _ _ ho).symm.trans (e ▸ hc)
        · rfl
      refine ⟨fun i c hc => hcon i c (h.container i c hc), fun i b hb => ?_, h.kept, h.made,
        fun c i hi => hcon i c (h.apps c i hi), h.hosts, h.length.trans_eq (List.length_modify ..).symm, h.rest⟩
      obtain ⟨a, ha, rfl⟩ := of_modify hb
      have hw := h.waking i a ha
      split <;> exact hw
  · next hnone =>
      refine ⟨?_, t.objects.length, Function.update_self ..⟩
      have hcon : ∀ i c, t.container i = some c →
          State.container { t with objects := t.objects ++ [⟨cfg, false, 0, t.now, 0, none⟩] } i = some c := by
        intro i c hc
        obtain ⟨a, ha, rfl⟩ := Option.map_eq_some_iff.1 hc
        exact container_eq (snoc_eq ha)
      refine ⟨fun i c hc => hcon i c (h.container i c hc), fun i b hb => ?_, fun c i hi => ?_, fun c i hi => ?_,
        fun c i hi => ?_, fun a i ha => ?_, by simpa using h.length.trans (Nat.le_succ _), h.rest⟩
      · rcases of_snoc hb with hb | ⟨-, rfl⟩
        · exact h.waking i b hb
        · exact Or.inr rfl
      · have hc := h.kept c i hi
        have ne : c ≠ cfg.container := by
          rintro rfl
          rw [hnone] at hc
          cases hc
        exact (Function.update_of_ne ne ..).trans hc
      · by_cases e : c = cfg.container
        · subst e
          dsimp only at hi
          rw [Function.update_self] at hi
          exact Or.inr (Option.some.inj hi ▸ h.length)
        · exact h.made c i ((Function.update_of_ne e ..).symm.trans hi)
      · by_cases e : c = cfg.container
        · subst e
          dsimp only at hi
          rw [Function.update_self] at hi
          obtain rfl := Option.some.inj hi
          exact Option.map_eq_some_iff.2 ⟨_, List.getElem?_concat_length .., rfl⟩
        · exact hcon i c (h.apps c i ((Function.update_of_ne e ..).symm.trans hi))
      · obtain ⟨c, hc, hi⟩ := h.hosts a i ha
        have ne : c ≠ cfg.container := by
          rintro rfl
          rw [hnone] at hi
          cases hi
        exact ⟨c, hc, (Function.update_of_ne ne ..).trans hi⟩

theorem Loading.loadFile {names : List String} {t : State} (settings : Settings) (file : Option Cfg)
    (h : Loading s names t) : Loading s (names ++ seen [file]) (loadFile settings t file) := by
  have hmono : Loading s (names ++ seen [file]) t :=
    { h with hosts := fun a o ha => (h.hosts a o ha).imp fun _ hc => ⟨List.mem_append_left _ hc.1, hc.2⟩ }
  unfold Waker.loadFile
  split
  · exact hmono
  · next cfg =>
      split
      · exact hmono
      · next hport =>
          obtain ⟨hk, o, ho⟩ := @Loading.keep _ _ _ cfg hmono
          refine { hk with hosts := fun a i ha => ?_ }
          dsimp only at ha ⊢
          split at ha
          · exact ⟨cfg.container, List.mem_append_right _ (by simp [seen, hport]), ha⟩
          · exact hk.hosts a i ha

theorem Loading.loadFiles {names : List String} {t : State} (settings : Settings)
    (files : List (Option Cfg))
    (h : Loading s names t) :
    Loading s (names ++ seen files) (files.foldl (Waker.loadFile settings) t) := by
  induction files generalizing names t with
  | nil => simpa [seen] using h
  | cons file files ih =>
      have hseen : seen (file :: files) = seen [file] ++ seen files := List.filterMap_append (l := [file])
      rw [hseen, ← List.append_assoc]
      exact ih (h.loadFile settings file)

/-- All files are read; the entries that none of them names are dropped. -/
theorem Loading.sound {names : List String} {t : State} (hl : Loading s names t) (h : Sound s)
    (hk : ∀ q ∈ s.requests, q.isOpen = true → ∀ c, s.container q.app = some c → c ∈ names) :
    Sound { t with apps := fun c => if c ∈ names then t.apps c else none } := by
  obtain ⟨hrequests, hwakes, hstops, hrunning, hstarts, hnumber⟩ := hl.rest
  have hmono : ∀ p : Stop, s.Restarted p →
      State.Restarted { t with apps := fun c => if c ∈ names then t.apps c else none } p :=
    fun p hr => hr.mono (fun _ hx => hstarts ▸ hx) rfl rfl
  have hback : ∀ {c o}, (if c ∈ names then t.apps c else none) = some o → t.apps c = some o := by
    intro c o ho
    split at ho
    · exact ho
    · cases ho
  refine ⟨fun c o ho => hl.apps c o (hback ho), fun a o ha => ?_, fun q hq ho => ?_, fun k hk => ?_,
    fun q hq i hi => ?_, fun p hp => ?_, fun p hp he hr => ?_, fun p hp hans o w b k hap hb hw hj hbeg => ?_,
    fun q hq hph i hi p hp => ?_, fun q hq w k hph hj hb i hi p hp => ?_⟩
  · obtain ⟨c, hc, ho⟩ := hl.hosts a o ha
    exact ⟨c, (if_pos hc).trans ho⟩
  · rw [hrequests] at hq
    obtain ⟨c, hc⟩ := h.opened q hq ho
    exact ⟨c, (if_pos (hk q hq ho c (h.apps c _ hc))).trans (hl.kept c _ hc)⟩
  · rw [hwakes] at hk
    exact hl.container _ _ (h.wakes k hk)
  · rw [hrequests] at hq
    obtain ⟨p, hp, hpc⟩ := h.stops q hq i hi
    exact ⟨p, (congrArg (·[i]?) hstops).trans hp, hl.container _ _ hpc⟩
  · rw [hstops] at hp
    exact (h.numbers p hp).trans_eq hnumber.symm
  · rw [hstops] at hp
    exact hmono p (h.ended p hp he (hrunning ▸ hr))
  · -- A state that was just made has no wake-up, so the entry is an old one.
    rw [hstops] at hp
    rw [hwakes] at hj
    rcases hl.waking o b hb with ⟨a, ha, e⟩ | e
    · rcases hl.made _ _ (hback hap) with hap' | hlen
      · exact hmono p (h.pending p hp hans o w a k hap' ha (e.symm.trans hw) hj hbeg)
      · rw [List.getElem?_eq_none hlen] at ha
        cases ha
    · rw [e] at hw
      cases hw
  · rw [hrequests] at hq
    rw [hstops] at hp
    exact hmono p (h.fast q hq hph i hi p hp)
  · rw [hrequests] at hq
    rw [hstops] at hp
    rw [hwakes] at hj
    exact hmono p (h.awaiting q hq w k hph hj hb i hi p hp)

theorem Sound.loadConfig {files : List (Option Cfg)} (h : Sound s) (hk : KeepsOpen s files) :
    Sound (loadConfig settings files s) := by
  unfold Waker.loadConfig
  split
  · exact h
  · next hnow =>
      have hl : Loading s [] { s with lastLoad := s.now, hostIndex := fun _ => none } :=
        ⟨fun _ _ hc => hc, fun _ b hb => Or.inl ⟨b, hb, rfl⟩, fun _ _ ho => ho, fun _ _ ho => Or.inl ho, h.apps,
          nofun, le_rfl, rfl, rfl, rfl, rfl, rfl, rfl⟩
      exact (hl.loadFiles settings files).sound h (hk (Nat.le_of_not_lt hnow))

end Reload

theorem Sound.boot {w : Nat} {k : Wake} (h : Sound s) (hc : Counted settings s)
    (hk : s.wakes[w]? = some k) :
    Sound (start k.container (s.setStage w .connecting)) := by
  have h' := h.frame (Frame.start h k.container)
  have hc' : Counted settings (start k.container s) := hc.grown (.of_eq rfl rfl rfl le_rfl)
  refine h'.setStage hc' hk fun i p hp hx => ⟨s.number, ?_, h.numbers p (List.mem_of_getElem? hp)⟩
  have hcon : p.container = k.container := by
    rcases hx with ⟨hx, -⟩ | ⟨q, hq, hph, hi⟩
    · exact hx
    · have hb := hc.backed q hq
      rw [State.Backed, hph] at hb
      obtain ⟨k', hk', hko⟩ := hb
      obtain rfl := Option.some.inj (hk'.symm.trans hk)
      obtain ⟨p', hp', hpc⟩ := h.stops q hq i hi
      obtain rfl := Option.some.inj (hp'.symm.trans hp)
      exact Option.some.inj (hpc.symm.trans (hko ▸ h.wakes k' (List.mem_of_getElem? hk)))
  rw [hcon]
  exact List.mem_cons_self

theorem Sound.step (e : Event) (h : Sound s) (hc : Counted settings s) (hcare : Careful settings s e) :
    Sound (step settings s e) := by
  cases e with
  | tick ms => exact h.frame { Frame.refl s with }
  | handle upgrade header files =>
      obtain ⟨hk, hfast⟩ := hcare
      have h' : Sound (Waker.loadConfig settings files s) := h.loadConfig hk
      simp only [Waker.step, handle]
      split
      · exact h'
      · next o ho =>
          refine lookup h' fun a ha => ?_
          split
          · exact h'
          · next hm =>
              refine h'.accept ha (h'.hosts _ o ho) fun hf => hfast o ho a ha ?_ hf
              simpa using hm
  | inspected w found =>
      refine lookup h fun k hk => ?_
      unfold inspect
      split
      · exact h
      · next hs =>
          have hs := not_not.1 hs
          split
          · exact h.frame (.modifyWake hk ⟨rfl, rfl, fun hb => (Bool.false_ne_true hb).elim⟩)
          · next hf =>
              split
              · next hr =>
                  have hp := fun i p hp hx => h.restarted (List.mem_of_getElem? hp)
                    (hcare k hk hs (by simpa using hf) hr i p hp hx)
                  exact (h.setStage hc hk hp).frame (.modifyApp _ (fun _ => rfl) fun _ _ hw => hw)
              · exact h.frame (.modifyWake hk ⟨rfl, rfl, fun hb => (Bool.false_ne_true hb).elim⟩)
  | started w success =>
      refine lookup h fun k hk => ?_
      unfold Waker.boot
      split
      · exact h
      · split
        · exact h.boot hc hk
        · exact h.frame (.modifyWake hk ⟨rfl, rfl, fun hb => (Bool.false_ne_true hb).elim⟩)
  | connected w success =>
      refine lookup h fun k hk => ?_
      unfold connect
      split
      · exact h
      · next hs =>
          have hb : k.stage.begun = true := by rw [not_not.1 hs]; rfl
          split
          · exact (h.frame (.modifyWake hk ⟨rfl, rfl, fun _ => hb⟩)).frame
              (.modifyApp _ (fun _ => rfl) fun _ _ hw => hw)
          · exact h.frame (.modifyWake hk ⟨rfl, rfl, fun hb => (Bool.false_ne_true hb).elim⟩)
  | settled w =>
      refine lookup h fun k hk => ?_
      unfold settle
      split
      · exact (h.frame (.modifyWake hk ⟨rfl, rfl, id⟩)).frame (.modifyApp _ (fun _ => rfl) fun _ w hw => (Option.some_ne_none w hw.symm).elim)
      · exact h
  | resumed r =>
      refine lookup h fun q hq => ?_
      unfold resume
      have hphase : ∀ p : Phase, (∀ w, p ≠ .awaiting w) →
        Sound (s.modifyRequest r fun q => { q with phase := p }) :=
        fun p hp => h.frame (.modifyRequest r fun q => ⟨rfl, rfl, id, fun w hw => absurd hw (hp w)⟩)
      split
      · exact hphase _ (by rintro w ⟨⟩)
      · refine lookup h fun k _ => ?_
        split
        · exact hphase _ (by rintro w ⟨⟩)
        · have hr := hphase .refused (by rintro w ⟨⟩)
          dsimp only
          split
          · exact hr
          · exact hr.frame (.modifyApp _ (fun _ => rfl) fun _ _ hw => hw)
        · exact h
      · exact h
  | upstreamError r =>
      refine lookup h fun q _ => ?_
      unfold upstreamError
      split
      · split
        · exact h
        · exact h.frame (.modifyApp _ (fun _ => rfl) fun _ _ hw => hw)
      · exact h
  | aborted r => exact h
  | close r =>
      refine lookup h fun q _ => ?_
      have hclosed : ∀ q : Request, decide (q.closes + 1 = 0) = true → q.isOpen = true := by simp
      unfold close
      split
      · exact h.frame (.modifyRequest r fun q => ⟨rfl, rfl, hclosed q, fun _ hw => hw⟩)
      · have h' : Sound (s.modifyRequest r fun q =>
            { q with finished := true, closes := q.closes + 1, decrements := q.decrements + 1 }) :=
          h.frame (.modifyRequest r fun q => ⟨rfl, rfl, hclosed q, fun _ hw => hw⟩)
        exact h'.frame (.modifyApp _ (fun _ => rfl) fun _ _ hw => hw)
  | sweep files =>
      have h' : Sound (Waker.loadConfig settings files s) := h.loadConfig hcare
      exact h'.frame { Frame.refl (Waker.loadConfig settings files s) with }
  | visit k c =>
      simp only [Waker.step]
      split
      · next p o _ hap =>
          split
          · exact h
          · exact lookup h fun a ha => h.visit hap ha
      · exact h
  | exited k =>
      refine lookup h fun p hp => ?_
      refine h.frame (.exit p.container k (fun _ => ⟨rfl, rfl, rfl⟩) fun p' hp' _ => Or.inr ?_)
      rw [Option.some.inj (hp'.symm.trans hp)]
  | stopped k success =>
      refine lookup h fun p _ => ?_
      have h' := h.frame (.answer k)
      unfold Waker.answer
      dsimp only
      split
      · exact h'.frame (.modifyApp _ (fun _ => rfl) fun _ _ hw => hw)
      · exact h'
  | external c running =>
      cases running with
      | true => exact h.frame (.start h c)
      | false => simpa [Waker.step] using h.frame (.exit c (f := id) 0 (fun _ => ⟨rfl, rfl, rfl⟩) fun _ _ he => Or.inl he)

/-- What waited for a wake-up goes ahead only when that has succeeded. -/
theorem resume_done {r w : Nat} {q q' : Request} {k : Wake} {v : Option Nat} (hq : s.requests[r]? = some q)
    (hph : q.phase = .awaiting (some w)) (hk : s.wakes[w]? = some k)
    (hq' : (resume r q s).requests[r]? = some q')
    (hph' : q'.phase = .forwarded v) : ∃ t, k.stage = .done t := by
  simp only [resume, hph, State.onWake, hk, Option.map_some, Option.getD_some] at hq'
  split at hq'
  · next t ht => exact ⟨t, ht⟩
  · have hr : (s.modifyRequest r fun q => { q with phase := .refused }).requests[r]? = some q' := by
      split at hq' <;> exact hq'
    rw [State.modifyRequest, modify_eq hq, if_pos rfl] at hr
    obtain rfl := Option.some.inj hr
    cases hph'
  · obtain rfl := Option.some.inj (hq.symm.trans hq')
    rw [hph] at hph'
    cases hph'

theorem Sound.safe (e : Event) (h : Sound s) (hc : Counted settings s) : Safe settings s e := by
  cases e with
  | visit k c =>
      intro hstop q hq ho hqc
      refine hstop ?_
      simp only [Waker.step]
      split
      · next p o _ hap =>
          split
          · rfl
          · refine lookup (P := fun t : State => t.stops = s.stops) rfl fun a ha => ?_
            -- The request is counted in the entry that the sweep looks at.
            obtain ⟨c', hc'⟩ := h.opened q hq ho
            obtain rfl := Option.some.inj ((h.apps c' _ hc').symm.trans hqc)
            obtain rfl := Option.some.inj (hc'.symm.trans hap)
            have hpos : 0 < s.opened q.app := List.countP_pos_iff.2 ⟨q, hq, by simpa using ho⟩
            have hin := hc.inflight _ a ha
            unfold Waker.visit
            rw [if_pos (Or.inr (Or.inr (by omega)))]
      · rfl
  | resumed r =>
      intro q q' w v hq hq' hph hph' i hi p hp
      cases w with
      | none => exact h.fast q (List.mem_of_getElem? hq) hph i hi p hp
      | some w =>
          obtain ⟨k, hk, -⟩ : ∃ k, s.wakes[w]? = some k ∧ k.app = q.app := by
            simpa only [State.Backed, hph] using hc.backed q (List.mem_of_getElem? hq)
          refine h.awaiting q (List.mem_of_getElem? hq) w k hph hk ?_ i hi p hp
          have hstep : (Waker.step settings s (.resumed r)) = resume r q s := by
            simp [Waker.step, State.onRequest, hq]
          rw [hstep] at hq'
          obtain ⟨t, ht⟩ := resume_done hq hph hk hq' hph'
          rw [ht]
          rfl
  | _ => trivial

theorem Sound.empty (now : Nat) (running : String → Bool) : Sound (.empty now running) where
  apps := nofun
  hosts := nofun
  opened := nofun
  wakes := nofun
  stops := nofun
  numbers := nofun
  ended := nofun
  pending := nofun
  fast := nofun
  awaiting := nofun

theorem Sound.main (settings : Settings) (now : Nat) (running : String → Bool) (files : List (Option Cfg)) :
    Sound (main settings now running files) := by
  have h : Sound (Waker.loadConfig settings files (.empty now running)) :=
    (Sound.empty now running).loadConfig nofun
  refine h.frame { Frame.refl (Waker.loadConfig settings files (.empty now running)) with
    container := fun o c hc => ?_, waking := fun o b w hb hw => ?_ }
  · obtain ⟨a, ha, rfl⟩ := Option.map_eq_some_iff.1 hc
    exact container_eq (a := { a with up := true }) (by simp [Waker.main, ha])
  · rw [Waker.main, List.getElem?_map] at hb
    obtain ⟨a, ha, rfl⟩ := Option.map_eq_some_iff.1 hb
    exact ⟨a, ha, hw⟩

def sleepy : Cfg := ⟨"yeah-app-1", ["a.example.com"], 3000, 60, none⟩

/-- The waker of one server with one container, that has just been started. -/
def started : State := main ⟨5000, id⟩ 10000 (fun _ => true) [some sleepy]

/-- A connection stays open while a half-written file makes a reload drop the entry. The next
request makes a new one, that knows nothing of the connection and falls idle. -/
def forgotten : List Event :=
  [.handle true "a.example.com" [some sleepy], .inspected 0 true, .settled 0, .resumed 0, .tick 2000,
    .handle false "b.example.com" [none], .tick 2000, .handle false "a.example.com" [some sleepy], .inspected 1 true,
    .settled 1, .resumed 1, .close 1, .tick 60000, .sweep [some sleepy]]

/-- A request comes while the container ends, and docker still calls it running. -/
def ending : List Event :=
  [.handle false "a.example.com" [some sleepy], .inspected 0 true, .settled 0, .resumed 0, .close 0, .tick 60000,
    .sweep [some sleepy], .visit 0 "yeah-app-1", .handle false "a.example.com" [some sleepy], .inspected 1 true]

end Yeah.Waker
