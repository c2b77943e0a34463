import Yeah.Databases.Dump
import Yeah.Databases.Host

namespace Yeah.Databases

open Shell Machine

variable {β W : Type} (σ : Tool → Nat)

def Client.dumps : Client → Bool
  | .pgDump _ _ | .mysqldump _ _ _ _ | .mongodump _ _ _ _ _ | .rdb _ _ _ _ | .cat _ | .sqliteDump _ => true
  | .clickhouse _ _ (.backup _ _) => true
  | _ => false

/-- The dump programs, `tar` and the compressor. -/
def Tool.isStage : Tool → Bool
  | .exec _ client => client.dumps
  | .tarCreate _ | .compress _ => true
  | _ => false

/-- Exit status 0 only if every dump program, the `tar` and the compressor in the command
ran and exited 0. -/
def Sound (c : Script β) (r : Result Tool (Data β) W) : Prop :=
  r.state.status = 0 →
    ∀ p ∈ c.programs, (∀ v, (p v).isStage) → ∃ v, (p v, 0) ∈ r.log ∧ p v ≠ .compress ""

def compressor : String :=
  if σ (.commandV "pigz") = 0 then "pigz" else if σ (.commandV "gzip") = 0 then "gzip" else ""

/-- A compressor is there, and it fails unless the program that feeds it succeeds. -/
def Fed (feeder : Tool) : Prop :=
  compressor σ ≠ "" ∧ (σ (.compress (compressor σ)) = 0 → σ feeder = 0)

def Tells (tmp : String) (database : Database) (container : String) (names : List String) : Prop :=
  if 1 < names.length then
    σ .mktemp = 0 → (∀ n ∈ names, ∀ t, dumpOne database container n = .ok t → σ t = 0) →
      Fed σ (.tarCreate tmp)
  else
    match database.engine with
    | .postgresql | .mysql | .mariadb =>
        ∀ t, dumpOne database container (names.headD database.primary) = .ok t → Fed σ t
    | .redis | .keydb =>
        σ (rdbTool database container) = 0 → Fed σ (.exec container (.cat "/tmp/dump.rdb"))
    | .sqlite =>
        σ (.exec container (.sqliteDump (sqliteFilePath database.databaseName))) = 0 → compressor σ ≠ ""
    | .mongodb | .clickhouse | .dragonfly => True

variable {σ} {H : Host β W}

theorem sound_around {c c' : Script β} {r r' : Result Tool (Data β) W} (ps qs : List (Vars (Data β) → Tool))
    (l m : List (Tool × Nat)) (hc : c.programs = ps ++ (c'.programs ++ qs))
    (hr : r.log = l ++ (r'.log ++ m))
    (hs : r.state.status = r'.state.status) (hps : ∀ p ∈ ps ++ qs, ∀ v, (p v).isStage = false)
    (hlm : ∀ e ∈ l ++ m, e.1.isStage = false) : Sound c r ↔ Sound c' r' := by
  have hp : ∀ p, (∀ v, (p v).isStage) → (p ∈ c.programs ↔ p ∈ c'.programs) := by
    intro p hv
    have hn : p ∉ ps ++ qs := fun h => by simpa [hps p h fun _ => .empty] using hv fun _ => .empty
    rw [List.mem_append, not_or] at hn
    simp [hc, hn]
  have hl : ∀ t, t.isStage → ∀ n, (t, n) ∈ r.log ↔ (t, n) ∈ r'.log := by
    intro t ht n
    have hn : (t, n) ∉ l ++ m := fun h => by simp [hlm _ h] at ht
    rw [List.mem_append, not_or] at hn
    simp [hr, hn]
  rw [Sound, Sound, hs]
  refine imp_congr_right fun _ => forall_congr' fun p => ?_
  constructor
  · intro h hm hv
    obtain ⟨v, hv', hne⟩ := h ((hp p hv).mpr hm) hv
    exact ⟨v, (hl _ (hv v) 0).mp hv', hne⟩
  · intro h hm hv
    obtain ⟨v, hv', hne⟩ := h ((hp p hv).mp hm) hv
    exact ⟨v, (hl _ (hv v) 0).mpr hv', hne⟩

theorem eval_setup (i : Data β) (s : State (Data β) W) :
    (((H.machine σ).eval compressorSetup i s).state.vars "GZ").text = compressor σ ∧
      ((H.machine σ).eval compressorSetup i s).exited = false ∧
      ∀ e ∈ ((H.machine σ).eval compressorSetup i s).log, e.1.isStage = false := by
  by_cases hp : σ (.commandV "pigz") = 0
  · simp [compressorSetup, eval, call, Host.machine, Host.output, exitStatus, compressor, hp, Data.text,
      Tool.isStage]
  · by_cases hg : σ (.commandV "gzip") = 0 <;>
      simp [compressorSetup, eval, call, after, Host.machine, Host.output, exitStatus, compressor, hp, hg, Data.text,
        Tool.isStage]

theorem sound_setup (c : Script β) (w : W) :
    ∃ s : State (Data β) W, (s.vars "GZ").text = compressor σ ∧
      (Sound (.seq compressorSetup c) ((H.machine σ).start (.seq compressorSetup c) w) ↔
        Sound c ((H.machine σ).eval c .empty s)) := by
  obtain ⟨hv, hx, hl⟩ := eval_setup (σ := σ) (H := H) (.empty : Data β) ((H.machine σ).fresh w)
  have he := (H.machine σ).eval_seq c hx
  refine ⟨_, hv, sound_around compressorSetup.programs [] _ [] ?_ ?_ ?_ ?_ (by simpa using hl)⟩
  · simp [Cmd.programs]
  · simp [start, he]
  · simp [start, he]
  · simp [compressorSetup, Cmd.programs, Tool.isStage]

theorem finish_status (i : Data β) (s : State (Data β) W) :
    ((H.machine σ).eval finish i s).state.status = s.status := by
  simp [finish, eval, call, quiet, after, Data.code]

theorem sound_finish {c : Script β} {i : Data β} {s : State (Data β) W}
    (hx : ((H.machine σ).eval c i s).exited = false) :
    Sound (.seq c finish) ((H.machine σ).eval (.seq c finish) i s) ↔
      Sound c ((H.machine σ).eval c i s) := by
  have he := (H.machine σ).eval_seq finish hx
  refine sound_around [] finish.programs []
    ((H.machine σ).eval finish i ((H.machine σ).eval c i s).state).log ?_ ?_ ?_ ?_ ?_
  · simp [Cmd.programs]
  · simp [he]
  · simp [he, finish_status]
  · simp [finish, Cmd.programs, Tool.isStage]
  · simp [finish, eval, call, quiet, after, Tool.isStage]

theorem eval_feed (p : Vars (Data β) → Tool) (filePath : String) (i : Data β) (s : State (Data β) W)
    (hv : (s.vars "GZ").text = compressor σ) :
    ((H.machine σ).eval (feed p filePath) i s).state.status = exitStatus σ (.compress (compressor σ)) ∧
      ((H.machine σ).eval (feed p filePath) i s).log =
        [(p s.vars, exitStatus σ (p s.vars)),
          (.compress (compressor σ), exitStatus σ (.compress (compressor σ)))] := by
  simp [feed, toFile, gz, eval, call, hv]

/-- What a stage before the compressor has run is no concern of the pipeline: `l` is its log. -/
theorem sound_feed (ps : List (Vars (Data β) → Tool)) {l : List (Tool × Nat)} {p : Vars (Data β) → Tool}
    {s : State (Data β) W} {r : Result Tool (Data β) W}
    (hr : r.state.status = exitStatus σ (.compress (compressor σ)))
    (hl : r.log = l ++ [(p s.vars, exitStatus σ (p s.vars)),
      (.compress (compressor σ), exitStatus σ (.compress (compressor σ)))])
    {c : Script β} (hc : c.programs = ps ++ [p, fun v => .compress (v "GZ").text])
    (hps : ∀ q ∈ ps, (∀ v, (q v).isStage) → ∃ v, (q v, 0) ∈ l ∧ q v ≠ .compress "")
    (hl' : ∀ e ∈ l, (∀ g, e.1 ≠ .compress g) ∧ ∀ v, e.1 ≠ p v)
    (hp : ∀ v, (p v).isStage ∧ ∀ g, p v ≠ .compress g) :
    Sound c r ↔ Fed σ (p s.vars) := by
  have hpe : exitStatus σ (p s.vars) = σ (p s.vars) := exitStatus_of_ne ((hp s.vars).2 "")
  constructor
  · intro h
    have hne : compressor σ ≠ "" := by
      intro he
      rw [he, exitStatus_empty] at hr hl
      obtain ⟨v, hv, hg⟩ := h hr (fun v => .compress (v "GZ").text) (by simp [hc]) fun _ => rfl
      simp only [hl, List.mem_append, List.mem_cons, Prod.mk.injEq, List.not_mem_nil, or_false] at hv
      rcases hv with hv | ⟨hv, -⟩ | ⟨hv, -⟩
      · exact (hl' _ hv).1 _ rfl
      · exact (hp s.vars).2 _ hv.symm
      · exact hg hv
    refine ⟨hne, fun h0 => ?_⟩
    have hg : exitStatus σ (.compress (compressor σ)) = 0 := by
      rw [exitStatus_of_ne (by simpa using hne), h0]
    obtain ⟨v, hv, -⟩ := h (hr.trans hg) p (by simp [hc]) fun v => (hp v).1
    simp only [hl, List.mem_append, List.mem_cons, Prod.mk.injEq, List.not_mem_nil, or_false] at hv
    rcases hv with hv | ⟨-, hv⟩ | ⟨hv, -⟩
    · exact absurd rfl ((hl' _ hv).2 v)
    · exact hpe.symm.trans hv.symm
    · exact absurd hv ((hp v).2 _)
  · rintro ⟨hne, hf⟩ h0 q hq hv
    have hgz : exitStatus σ (.compress (compressor σ)) = σ (.compress (compressor σ)) :=
      exitStatus_of_ne (by simpa using hne)
    rw [hr, hgz] at h0
    simp only [hc, List.mem_append, List.mem_cons, List.not_mem_nil, or_false] at hq
    rcases hq with hq | rfl | rfl
    · obtain ⟨v, hm, hg⟩ := hps q hq hv
      exact ⟨v, by simp [hl, hm], hg⟩
    · exact ⟨s.vars, by simp [hl, hpe, hf h0], (hp s.vars).2 ""⟩
    · exact ⟨fun _ => .word (compressor σ), by simp [hl, hgz, h0, Data.text],
        by simpa [Data.text] using hne⟩

theorem sound_set (x : String) (d : Data β) (c : Script β) (i : Data β) (s : State (Data β) W) :
    Sound (.seq (.set x fun _ => d) c) ((H.machine σ).eval (.seq (.set x fun _ => d) c) i s) ↔
      Sound c ((H.machine σ).eval c i ((s.set x d).withStatus 0)) :=
  sound_around [] [] [] [] (by simp [Cmd.programs])
    (by simp [eval, quiet, after]) (by simp [eval, quiet, after]) (by simp) (by simp)

theorem sound_and_feed {a : Script β} {p : Vars (Data β) → Tool} {filePath : String} {i : Data β}
    {s : State (Data β) W} {r : Result Tool (Data β) W} (hr : (H.machine σ).eval a i s = r)
    (hx : r.exited = false) (hs : r.state.status = 0) (hv : (r.state.vars "GZ").text = compressor σ)
    (hps : ∀ q ∈ a.programs, (∀ v, (q v).isStage) → ∃ v, (q v, 0) ∈ r.log ∧ q v ≠ .compress "")
    (hl : ∀ e ∈ r.log, (∀ g, e.1 ≠ .compress g) ∧ ∀ v, e.1 ≠ p v)
    (hp : ∀ v, (p v).isStage ∧ ∀ g, p v ≠ .compress g) :
    Sound (.and a (feed p filePath)) ((H.machine σ).eval (.and a (feed p filePath)) i s) ↔
      Fed σ (p r.state.vars) := by
  subst hr
  obtain ⟨hf, hfl⟩ := eval_feed (H := H) p filePath i ((H.machine σ).eval a i s).state hv
  rw [eval_and _ _ hx hs]
  refine sound_feed _ (s := ((H.machine σ).eval a i s).state) (by rw [after_state, hf]) ?_ ?_ hps hl hp
  · rw [after_log, hfl]
  · simp [Cmd.programs, feed, toFile, gz]

theorem eval_dumpInto_done {d : String × Tool} (h : exitStatus σ d.2 = 0) (ext : String) (i : Data β)
    (s : State (Data β) W) :
    ((H.machine σ).eval (dumpInto ext d) i s).exited = false ∧
      ((H.machine σ).eval (dumpInto ext d) i s).state.vars = s.vars ∧
      ((H.machine σ).eval (dumpInto ext d) i s).state.status = 0 ∧
      ((H.machine σ).eval (dumpInto ext d) i s).log = [(d.2, 0)] := by
  simp [dumpInto, prog, eval, call, h]

theorem eval_dumpInto_failed {d : String × Tool} (h : exitStatus σ d.2 ≠ 0) (ext : String) (i : Data β)
    (s : State (Data β) W) :
    ((H.machine σ).eval (dumpInto ext d) i s).exited = true ∧
      ((H.machine σ).eval (dumpInto ext d) i s).state.status = 1 := by
  simp [dumpInto, prog, eval, call, h]

theorem eval_dumpAll_done (ext : String) {ds : List (String × Tool)} (hds : ds ≠ [])
    (h : ∀ d ∈ ds, exitStatus σ d.2 = 0) (i : Data β) (s : State (Data β) W) :
    ((H.machine σ).eval (dumpAll ext ds) i s).state.vars = s.vars ∧
      ((H.machine σ).eval (dumpAll ext ds) i s).state.status = 0 ∧
      ((H.machine σ).eval (dumpAll ext ds) i s).log = ds.map fun d => (d.2, 0) := by
  induction ds generalizing s with
  | nil => exact absurd rfl hds
  | cons d ds ih =>
      obtain ⟨hx, hv, hs, hl⟩ := eval_dumpInto_done (H := H) (h d (by simp)) ext i s
      cases ds with
      | nil => exact ⟨hv, hs, hl⟩
      | cons e ds =>
          rw [dumpAll_cons, eval_seq _ _ hx]
          obtain ⟨hv', hs', hl'⟩ := ih (by simp) (fun d hd => h d (by simp [hd])) _
          exact ⟨hv'.trans hv, hs', by rw [after_log, hl, hl']; rfl⟩

theorem eval_dumpAll_failed (ext : String) {ds : List (String × Tool)} (h : ∃ d ∈ ds, exitStatus σ d.2 ≠ 0)
    (i : Data β) (s : State (Data β) W) : ((H.machine σ).eval (dumpAll ext ds) i s).state.status = 1 := by
  induction ds generalizing s with
  | nil => simp at h
  | cons d ds ih =>
      by_cases hd : exitStatus σ d.2 = 0
      · obtain ⟨hx, -, -, -⟩ := eval_dumpInto_done (H := H) hd ext i s
        have h' : ∃ e ∈ ds, exitStatus σ e.2 ≠ 0 := by simpa [hd] using h
        cases ds with
        | nil => simp at h'
        | cons e ds =>
            rw [dumpAll_cons, eval_seq _ _ hx]
            exact ih h' _
      · obtain ⟨hx, hs⟩ := eval_dumpInto_failed (H := H) hd ext i s
        cases ds with
        | nil => exact hs
        | cons e ds => rw [dumpAll_cons]; simp [eval, hx, hs]

theorem programs_dumpAll (ext : String) (ds : List (String × Tool)) :
    (dumpAll ext ds : Script β).programs = ds.map fun d _ => d.2 := by
  induction ds with
  | nil => rfl
  | cons d ds ih =>
      cases ds with
      | nil => rfl
      | cons e ds => rw [dumpAll_cons]; simpa [Cmd.programs, dumpInto, prog] using ih

theorem dumpOne_spec {database : Database} {container name : String} {t : Tool}
    (h : dumpOne database container name = .ok t) :
    t.isStage = true ∧ (∀ g, t ≠ .compress g) ∧ (∀ dir, t ≠ .tarCreate dir) := by
  cases he : database.engine <;> simp only [dumpOne, he, Except.ok.injEq, reduceCtorEq] at h <;> subst h <;>
    simp [Tool.isStage, Client.dumps]

theorem eval_collect_done (ext : String) {ds : List (String × Tool)} (hds : ds ≠ []) (hm : σ .mktemp = 0)
    (h : ∀ d ∈ ds, exitStatus σ d.2 = 0) (i : Data β) (s : State (Data β) W) :
    ((H.machine σ).eval (collect ext ds) i s).exited = false ∧
      ((H.machine σ).eval (collect ext ds) i s).state.vars = Function.update s.vars "tmp" (.word H.tmp) ∧
      ((H.machine σ).eval (collect ext ds) i s).state.status = 0 ∧
      ((H.machine σ).eval (collect ext ds) i s).log = (.mktemp, 0) :: ds.map fun d => (d.2, 0) := by
  have hm' : exitStatus σ .mktemp = 0 := hm
  simp [collect, prog, eval, call, hm', Host.output, eval_dumpAll_done ext hds h]

theorem eval_collect_failed (ext : String) {ds : List (String × Tool)}
    (h : σ .mktemp ≠ 0 ∨ ∃ d ∈ ds, exitStatus σ d.2 ≠ 0) (i : Data β) (s : State (Data β) W) :
    ((H.machine σ).eval (collect ext ds) i s).exited = false ∧
      ((H.machine σ).eval (collect ext ds) i s).state.status ≠ 0 := by
  by_cases hm : exitStatus σ .mktemp = 0
  · have hd := h.resolve_left (not_not_intro hm)
    simp [collect, prog, eval, call, hm, eval_dumpAll_failed ext hd]
  · simp [collect, prog, eval, call, hm]

/-- Several databases: the dumps into a directory, then `tar` into the compressor. -/
theorem sound_multi {database : Database} {container filePath : String} {names : List String}
    {ds : List (String × Tool)} (hn : ds.map Prod.fst = names) (hne : names ≠ [])
    (hds : ∀ d ∈ ds, dumpOne database container d.1 = .ok d.2) (ext : String) {s : State (Data β) W}
    (hv : (s.vars "GZ").text = compressor σ) {c : Script β}
    (hc : c = .seq (.and (collect ext ds) (feed (fun v => .tarCreate (v "tmp").text) filePath)) finish) :
    Sound c ((H.machine σ).eval c .empty s) ↔
      (σ .mktemp = 0 → (∀ n ∈ names, ∀ t, dumpOne database container n = .ok t → σ t = 0) →
        Fed σ (.tarCreate H.tmp)) := by
  have hst : ∀ d ∈ ds, exitStatus σ d.2 = σ d.2 :=
    fun d hd => exitStatus_of_ne ((dumpOne_spec (hds d hd)).2.1 "")
  have hall : (∀ n ∈ names, ∀ t, dumpOne database container n = .ok t → σ t = 0) ↔
      ∀ d ∈ ds, exitStatus σ d.2 = 0 := by
    constructor
    · intro h d hd
      rw [hst d hd]
      exact h d.1 (hn ▸ List.mem_map_of_mem hd) _ (hds d hd)
    · intro h n hm t ht
      obtain ⟨d, hd, rfl⟩ := List.mem_map.mp (hn ▸ hm)
      obtain rfl : d.2 = t := Except.ok.inj ((hds d hd).symm.trans ht)
      rw [← hst d hd, h d hd]
  rw [hall]
  subst hc
  by_cases h : σ .mktemp = 0 ∧ ∀ d ∈ ds, exitStatus σ d.2 = 0
  · obtain ⟨hm, hd⟩ := h
    have hds' : ds ≠ [] := fun h => hne (by simp [← hn, h])
    obtain ⟨hx, hv', hs, hl⟩ := eval_collect_done (H := H) ext hds' hm hd (.empty : Data β) s
    have he := eval_and (H.machine σ) (feed (fun v => .tarCreate (v "tmp").text) filePath) hx hs
    rw [sound_finish (by rw [he]; rfl), sound_and_feed rfl hx hs (by simpa [hv'] using hv)]
    · have ht : Tool.tarCreate (((H.machine σ).eval (collect ext ds) .empty s).state.vars "tmp").text =
          .tarCreate H.tmp := by simp [hv', Data.text]
      rw [ht]
      exact ⟨fun h _ _ => h, fun h => h hm hd⟩
    · intro q hq hst'
      rw [collect, Cmd.programs, Cmd.programs, Cmd.programs, programs_dumpAll] at hq
      rcases List.mem_append.mp hq with hq | hq
      · obtain rfl := List.mem_singleton.mp hq
        exact absurd (hst' s.vars) (by simp [Tool.isStage])
      · obtain ⟨d, hdm, rfl⟩ := List.mem_map.mp hq
        have hmem : (d.2, 0) ∈ ds.map fun d => (d.2, 0) := List.mem_map.mpr ⟨d, hdm, rfl⟩
        exact ⟨s.vars, by rw [hl]; exact List.mem_cons_of_mem _ hmem, (dumpOne_spec (hds d hdm)).2.1 ""⟩
    · rw [hl, List.forall_mem_cons, List.forall_mem_map]
      exact ⟨by simp, fun d hdm => ⟨(dumpOne_spec (hds d hdm)).2.1, fun v => (dumpOne_spec (hds d hdm)).2.2 _⟩⟩
    · simp [Tool.isStage]
  · have hf : σ .mktemp ≠ 0 ∨ ∃ d ∈ ds, exitStatus σ d.2 ≠ 0 := by
      by_cases hm : σ .mktemp = 0
      · exact Or.inr (by simpa [hm] using h)
      · exact Or.inl hm
    obtain ⟨hx, hs⟩ := eval_collect_failed (H := H) ext hf (.empty : Data β) s
    have he := eval_and_failed (H.machine σ) (feed (fun v => .tarCreate (v "tmp").text) filePath) hs
    rw [sound_finish (by rw [he]; exact hx), he]
    exact iff_of_true (fun h0 => absurd h0 hs) fun hm hd => absurd ⟨hm, hd⟩ h

theorem sound_single {t : Tool} (ht : t.isStage = true ∧ ∀ g, t ≠ .compress g) (filePath : String)
    {s : State (Data β) W} (hv : (s.vars "GZ").text = compressor σ) :
    Sound (feed (fun _ => t) filePath) ((H.machine σ).eval (feed (fun _ => t) filePath) .empty s) ↔
      Fed σ t := by
  obtain ⟨hf, hfl⟩ := eval_feed (H := H) (fun _ => t) filePath (.empty : Data β) s hv
  exact sound_feed [] (l := []) (s := s) (p := fun _ => t) hf hfl (by simp [Cmd.programs, feed, toFile, gz])
    (by simp) (by simp) fun _ => ht

theorem sound_alone {t : Tool} (ht : ∀ g, t ≠ .compress g) {c : Script β} (hc : c.programs = [fun _ => t])
    {r : Result Tool (Data β) W} (hs : r.state.status = exitStatus σ t)
    (hl : r.log = [(t, exitStatus σ t)]) :
    Sound c r := by
  intro h0 q hq _
  rw [hc, List.mem_singleton] at hq
  subst hq
  exact ⟨fun _ => .empty, by simp [hl, ← hs, h0], ht ""⟩

theorem eval_toFile_prog (t : Tool) (filePath : Location) (i : Data β) (s : State (Data β) W) :
    ((H.machine σ).eval (toFile (prog t) filePath) i s).exited = false ∧
      ((H.machine σ).eval (toFile (prog t) filePath) i s).state.vars = s.vars ∧
      ((H.machine σ).eval (toFile (prog t) filePath) i s).state.status = exitStatus σ t ∧
      ((H.machine σ).eval (toFile (prog t) filePath) i s).log = [(t, exitStatus σ t)] := by
  simp [toFile, prog, eval, call]

theorem sound_rdb (database : Database) (container filePath : String) {s : State (Data β) W}
    (hv : (s.vars "GZ").text = compressor σ) {c : Script β}
    (hc : c = .and (toFile (prog (rdbTool database container)) (.host "/dev/null"))
      (feed (fun _ => .exec container (.cat "/tmp/dump.rdb")) filePath)) :
    Sound c ((H.machine σ).eval c .empty s) ↔
      (σ (rdbTool database container) = 0 → Fed σ (.exec container (.cat "/tmp/dump.rdb"))) := by
  subst hc
  obtain ⟨hx, hv', hs, hl⟩ :=
    eval_toFile_prog (H := H) (σ := σ) (rdbTool database container) (.host "/dev/null") (.empty : Data β) s
  rw [exitStatus_of_ne (by simp [rdbTool])] at hs hl
  by_cases h : σ (rdbTool database container) = 0
  · rw [h] at hs hl
    rw [sound_and_feed rfl hx hs (by rw [hv', hv])]
    · exact ⟨fun hf _ => hf, fun hf => hf h⟩
    · intro q hq _
      obtain rfl := List.mem_singleton.mp hq
      exact ⟨s.vars, by simp [hl], by simp [rdbTool]⟩
    · rw [hl]
      simp [rdbTool]
    · simp [Tool.isStage, Client.dumps]
  · rw [eval_and_failed _ _ (by rwa [hs])]
    exact iff_of_true (fun h0 => absurd (hs.symm.trans h0) h) fun h' => absurd h' h

theorem sound_sqliteDump {t : Tool} (ht : t.isStage = true ∧ ∀ g, t ≠ .compress g) (filePath : String)
    {s : State (Data β) W} (hv : (s.vars "GZ").text = compressor σ) :
    ((H.machine σ).eval (sqliteDump t filePath) .empty s).exited = false ∧
      (Sound (sqliteDump t filePath) ((H.machine σ).eval (sqliteDump t filePath) .empty s) ↔
        (σ t = 0 → compressor σ ≠ "")) := by
  have hst : exitStatus σ t = σ t := exitStatus_of_ne (ht.2 "")
  by_cases h : σ t = 0
  · have hr : ((H.machine σ).eval (sqliteDump t filePath) .empty s).exited = false ∧
        ((H.machine σ).eval (sqliteDump t filePath) .empty s).state.status =
          exitStatus σ (.compress (compressor σ)) ∧
        ((H.machine σ).eval (sqliteDump t filePath) .empty s).log =
          [(t, 0), (.compress (compressor σ), exitStatus σ (.compress (compressor σ)))] := by
      simp [sqliteDump, prog, toFile, gz, eval, call, hst, h, H.read_write, hv]
    obtain ⟨hx, hs, hl⟩ := hr
    refine ⟨hx, ?_⟩
    constructor
    · intro hS _ he
      rw [he, exitStatus_empty] at hs hl
      obtain ⟨v, hm, hg⟩ := hS hs (fun v => .compress (v "GZ").text)
        (by simp [sqliteDump, Cmd.programs, prog, toFile, gz]) fun _ => rfl
      simp only [hl, List.mem_cons, Prod.mk.injEq, List.not_mem_nil, or_false] at hm
      rcases hm with ⟨hm, -⟩ | ⟨hm, -⟩
      · exact ht.2 _ hm.symm
      · exact hg hm
    · intro hne h0 q hq _
      have hq' : q = (fun _ => t) ∨ q = fun v => .compress (v "GZ").text := by
        simpa [sqliteDump, Cmd.programs, prog, toFile, gz] using hq
      rw [hs] at h0
      rcases hq' with rfl | rfl
      · exact ⟨s.vars, by simp [hl], ht.2 ""⟩
      · exact ⟨fun _ => .word (compressor σ), by simp [hl, h0, Data.text],
          by simpa [Data.text] using hne h⟩
  · have hr : ((H.machine σ).eval (sqliteDump t filePath) .empty s).exited = false ∧
        ((H.machine σ).eval (sqliteDump t filePath) .empty s).state.status = σ t := by
      simp [sqliteDump, prog, eval, call, hst, h]
    exact ⟨hr.1, iff_of_true (fun h0 => absurd (hr.2.symm.trans h0) h) fun h' => absurd h' h⟩

/-- When the status of the dump command is one to go by. -/
theorem buildDumpCommand_sound_iff (database : Database) (containerName filePath : String)
    (names : List String)
    {c : Script β} (hc : buildDumpCommand database containerName filePath names = .ok c) (H : Host β W)
    (σ : Tool → Nat) (w : W) :
    Sound c ((H.machine σ).start c w) ↔ Tells σ H.tmp database containerName names := by
  by_cases hn : 1 < names.length
  · have hne : names ≠ [] := List.ne_nil_of_length_pos (by omega)
    cases hm : names.mapM (dumpNamed database containerName) with
    | error m => simp [buildDumpCommand, hn, hm, bind, Except.bind] at hc
    | ok ds =>
        obtain ⟨h₁, h₂⟩ := mapM_dumpNamed hm
        simp only [buildDumpCommand, hn, if_true, hm, bind, Except.bind, pure, Except.pure,
          Except.ok.injEq] at hc
        subst hc
        obtain ⟨s, hv, hs⟩ := sound_setup (H := H) (σ := σ) _ w
        rw [hs, Tells, if_pos hn]
        exact sound_multi h₁ hne h₂ _ hv rfl
  · have hone : ∀ t, dumpOne database containerName (names.headD database.primary) = .ok t →
        c = .seq compressorSetup (feed (fun _ => t) filePath) →
          (Sound c ((H.machine σ).start c w) ↔
            ∀ t, dumpOne database containerName (names.headD database.primary) = .ok t → Fed σ t) := by
      rintro t ht rfl
      obtain ⟨s, hv, hs⟩ := sound_setup (H := H) (σ := σ) (feed (fun _ => t) filePath) w
      rw [hs, sound_single ⟨(dumpOne_spec ht).1, (dumpOne_spec ht).2.1⟩ filePath hv]
      exact ⟨fun h t' ht' => by rwa [← Except.ok.inj (ht.symm.trans ht')], fun h => h t ht⟩
    rw [Tells, if_neg hn]
    rw [buildDumpCommand, if_neg hn] at hc
    cases he : database.engine with
    | postgresql | mysql | mariadb =>
        cases ht : dumpOne database containerName (names.headD database.primary) with
        | error m => simp [dumpOne, he] at ht
        | ok t =>
            simp only [he, ht, bind, Except.bind, pure, Except.pure, Except.ok.injEq] at hc
            simpa only [ht] using hone t ht hc.symm
    | mongodb =>
        cases ht : dumpOne database containerName (names.headD database.primary) with
        | error m => simp [dumpOne, he] at ht
        | ok t =>
            simp only [he, ht, bind, Except.bind, pure, Except.pure, Except.ok.injEq] at hc
            subst hc
            obtain ⟨-, -, hs, hl⟩ :=
              eval_toFile_prog (H := H) (σ := σ) (withGzip t) (.host filePath) (.empty : Data β)
              ((H.machine σ).fresh w)
            refine iff_of_true (sound_alone ?_ rfl hs hl) trivial
            simp only [dumpOne, he, Except.ok.injEq] at ht
            simp [← ht, withGzip]
    | redis | keydb =>
        simp only [he, Except.ok.injEq] at hc
        subst hc
        obtain ⟨s, hv, hs⟩ := sound_setup (H := H) (σ := σ) _ w
        rw [hs]
        exact sound_rdb database containerName filePath hv rfl
    | sqlite =>
        simp only [he, Except.ok.injEq] at hc
        subst hc
        obtain ⟨s, hv, hs⟩ := sound_setup (H := H) (σ := σ) _ w
        rw [hs, sound_set]
        · have hd :=
            sound_sqliteDump (H := H) (t := .exec containerName (.sqliteDump (sqliteFilePath database.databaseName)))
            (by simp [Tool.isStage, Client.dumps]) filePath (s := (s.set "tmp" (.word (filePath ++ ".tmp"))).withStatus 0)
            (by simpa using hv)
          rw [sound_finish hd.1]
          exact hd.2
    | clickhouse =>
        simp only [he, Except.ok.injEq] at hc
        subst hc
        exact iff_of_true (sound_alone (by simp) rfl rfl rfl) trivial
    | dragonfly => simp [he] at hc

def shop : Database := ⟨.postgresql, "shop", "postgres:16-alpine", some "app", "pw", some "app", false⟩

def noDump : Tool → Nat
  | .exec _ _ => 1
  | _ => 0

def noCompressor : Tool → Nat
  | .commandV _ => 1
  | _ => 0

/-- A `pg_dump` that fails, and a server without a compressor. -/
theorem failed_dump_exits_zero :
    ∃ c, buildDumpCommand shop "yeah-db-1" "/opt/yeah-backups/1/pg-dump-app-1.sql.gz" ["app"] = .ok c ∧
      ¬ Sound c ((idle.machine noDump).start c fun _ => none) ∧
      ¬ Sound c ((idle.machine noCompressor).start c fun _ => none) := by
  refine ⟨_, rfl, fun h => ?_, fun h => ?_⟩
  · obtain ⟨v, hv, -⟩ := h rfl (fun _ => .exec "yeah-db-1" (.pgDump "app" "app"))
      (by simp [Cmd.programs, feed, compressorSetup, shop, Database.user]) fun _ => rfl
    have hm : (Tool.exec "yeah-db-1" (.pgDump "app" "app"), 0) ∈
        [(Tool.commandV "pigz", 0), (.exec "yeah-db-1" (.pgDump "app" "app"), 1), (.compress "pigz", 0)] :=
          hv
    simp at hm
  · obtain ⟨v, hv, hg⟩ := h rfl (fun v => .compress (v "GZ").text)
      (by simp [Cmd.programs, feed, compressorSetup, toFile, gz]) fun _ => rfl
    have hm : (Tool.compress (v "GZ").text, 0) ∈
        [(Tool.commandV "pigz", 1), (.commandV "gzip", 1), (.exec "yeah-db-1" (.pgDump "app" "app"), 0),
          (.compress "", 0)] := hv
    simp at hm hg
    exact hg hm

theorem buildDumpCommand_sound_iff_fed :
    ∃ c, buildDumpCommand shop "yeah-db-1" "/opt/yeah-backups/1/pg-dump-app-1.sql.gz" ["app"] = .ok c ∧
      Sound c ((idle.machine fun _ => 0).start c fun _ => none) :=
  ⟨_, rfl, (buildDumpCommand_sound_iff shop "yeah-db-1" "/opt/yeah-backups/1/pg-dump-app-1.sql.gz" ["app"] rfl idle
    (fun _ => 0) fun _ => none).mpr fun _ _ => by simp [Fed, compressor]⟩

end Yeah.Databases
