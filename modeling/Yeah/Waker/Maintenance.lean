import Yeah.Waker.Sweep

namespace Yeah.Waker

open Tables

/-- A request for the host is answered without a word to the container: no file after the entry's names its container
or the host. -/
def LeftAlone (cfg : Cfg) (host : String) : Prop :=
  ∀ (settings : Settings) (upgrade : Bool) (header : String) (s : State) (before after : List (Option Cfg)),
    Sound s → 2000 ≤ s.now - s.lastLoad → hostKey settings header = settings.lower host →
    (∀ c, some c ∈ after → c.container ≠ cfg.container ∧ settings.lower host ∉ c.hosts.map settings.lower) →
    handle settings upgrade header (before ++ some cfg :: after) s =
      loadConfig settings (before ++ some cfg :: after) s

section Loading

variable {settings : Settings} {cfg : Cfg} {key : String} {s t : State} {names : List String}

/-- The key leads to the entry, as its file has it. -/
def Indexed (cfg : Cfg) (key : String) (t : State) : Prop :=
  ∃ o a, t.hostIndex key = some o ∧ t.apps cfg.container = some o ∧ t.objects[o]? = some a ∧ a.cfg = cfg

theorem keep_cfg (hl : Loading s names t) (cfg : Cfg) :
    ∃ o a, (t.keep cfg).apps cfg.container = some o ∧ (t.keep cfg).objects[o]? = some a ∧ a.cfg = cfg := by
  rw [State.keep]
  split
  next o ho =>
    obtain ⟨a, ha, -⟩ := Option.map_eq_some_iff.1 (hl.apps _ _ ho)
    refine ⟨o, { a with cfg := cfg }, ho, ?_, rfl⟩
    have hmodified := modify_eq (f := fun a : App => { a with cfg := cfg }) (i := o) ha
    rwa [if_pos rfl] at hmodified
  next => exact ⟨t.objects.length, _, Function.update_self .., List.getElem?_concat_length .., rfl⟩

theorem Indexed.load (hl : Loading s names t) (hport : cfg.port ≠ 0) (hkey : key ∈ cfg.hosts.map settings.lower) :
    Indexed cfg key (loadFile settings t (some cfg)) := by
  obtain ⟨o, a, ho, ha, hcfg⟩ := keep_cfg hl cfg
  rw [loadFile]
  dsimp only
  rw [if_neg hport]
  exact ⟨o, a, (if_pos hkey).trans ho, ho, ha, hcfg⟩

/-- A file of another container leaves the entry as it is. -/
theorem Indexed.keep (h : Indexed cfg key t) (hl : Loading s names t) {c : Cfg} (hc : c.container ≠ cfg.container) :
    Indexed cfg key (t.keep c) := by
  obtain ⟨o, a, hkey, ho, ha, hcfg⟩ := h
  rw [State.keep]
  split
  next o' ho' =>
    have hne : o' ≠ o := by
      rintro rfl
      have hboth := (hl.apps _ _ ho').symm.trans (hl.apps _ _ ho)
      exact hc (Option.some.inj hboth)
    have hmodified := modify_eq (f := fun a : App => { a with cfg := c }) (i := o') ha
    rw [if_neg hne] at hmodified
    exact ⟨o, a, hkey, ho, hmodified, hcfg⟩
  next => exact ⟨o, a, hkey, (Function.update_of_ne hc.symm ..).trans ho, snoc_eq ha, hcfg⟩

theorem Indexed.loadFile (h : Indexed cfg key t) (hl : Loading s names t) {file : Option Cfg}
    (hfile : ∀ c, file = some c → c.container ≠ cfg.container ∧ key ∉ c.hosts.map settings.lower) :
    Indexed cfg key (loadFile settings t file) := by
  cases file with
  | none => exact h
  | some c =>
      obtain ⟨hc, hkey⟩ := hfile c rfl
      rw [Waker.loadFile]
      split
      next => exact h
      next =>
        obtain ⟨o, a, hindex, ho, ha, hcfg⟩ := h.keep hl hc
        exact ⟨o, a, (if_neg hkey).trans hindex, ho, ha, hcfg⟩

theorem Indexed.loadFiles (h : Indexed cfg key t) (hl : Loading s names t) {files : List (Option Cfg)}
    (hfiles : ∀ c, some c ∈ files → c.container ≠ cfg.container ∧ key ∉ c.hosts.map settings.lower) :
    Indexed cfg key (files.foldl (Waker.loadFile settings) t) := by
  induction files generalizing names t with
  | nil => exact h
  | cons file files ih =>
      have hfile : ∀ c, file = some c → c.container ≠ cfg.container ∧ key ∉ c.hosts.map settings.lower :=
        fun c hc => hfiles c (hc ▸ List.mem_cons_self)
      exact ih (h.loadFile hl hfile) (hl.loadFile settings file) fun c hc => hfiles c (List.mem_cons_of_mem _ hc)

end Loading

theorem leftAlone {cfg : Cfg} {host : String} (hport : cfg.port ≠ 0) (hm : cfg.maintenance.isSome = true)
    (hhost : host ∈ cfg.hosts) : LeftAlone cfg host := by
  intro settings upgrade header s before after hs hstale hheader hafter
  have hkey : settings.lower host ∈ cfg.hosts.map settings.lower := List.mem_map_of_mem hhost
  have hl : Loading s [] { s with lastLoad := s.now, hostIndex := fun _ => none } :=
    { container := fun _ _ hc => hc
      waking := fun _ b hb => Or.inl ⟨b, hb, rfl⟩
      kept := fun _ _ ho => ho
      made := fun _ _ ho => Or.inl ho
      apps := hs.apps
      hosts := fun _ _ h => by cases h
      length := le_rfl
      rest := ⟨rfl, rfl, rfl, rfl, rfl, rfl⟩ }
  have hbefore := hl.loadFiles settings before
  have hindexed := (Indexed.load hbefore hport hkey).loadFiles (hbefore.loadFile settings (some cfg)) hafter
  obtain ⟨o, a, hindex, -, ha, hcfg⟩ := hindexed
  have hloaded : loadConfig settings (before ++ some cfg :: after) s =
      { (after.foldl (Waker.loadFile settings) (Waker.loadFile settings
          (before.foldl (Waker.loadFile settings) { s with lastLoad := s.now, hostIndex := fun _ => none }) (some cfg))) with
        apps := fun c => if c ∈ seen (before ++ some cfg :: after) then
          (after.foldl (Waker.loadFile settings) (Waker.loadFile settings
            (before.foldl (Waker.loadFile settings) { s with lastLoad := s.now, hostIndex := fun _ => none }) (some cfg))).apps c
          else none } := by
    rw [loadConfig, if_neg (by omega), List.foldl_append, List.foldl_cons]
  rw [handle, hheader, hloaded]
  dsimp only
  rw [hindex]
  dsimp only
  rw [State.onApp]
  dsimp only
  rw [ha, Option.map_some, Option.getD_some, hcfg, if_pos hm]

end Yeah.Waker
