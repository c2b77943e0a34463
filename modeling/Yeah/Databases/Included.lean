import Yeah.Databases.Dump
import Yeah.Databases.Server

namespace Yeah.Databases

open Shell Machine

variable {β : Type} {S : Server β}

namespace Server

@[simp] theorem machine_empty : S.machine.empty = .empty := rfl
@[simp] theorem machine_append : S.machine.append = Data.append := rfl
@[simp] theorem machine_number : S.machine.number = .number := rfl
@[simp] theorem machine_exec : S.machine.exec = S.exec := rfl
@[simp] theorem machine_read : S.machine.read = Server.read := rfl
@[simp] theorem machine_write : S.machine.write = Server.write := rfl
@[simp] theorem machine_glob : S.machine.glob = Server.glob := rfl

end Server

/-- The dump of a database as the engine's client prints it. -/
def innerDump (engine : Engine) (gzip : Bool) (name : String) (content : List β) : Data (List β) :=
  if engine = .mongodb then .archive gzip name content else .dump name content

def content (w : World β) (name : String) : List β := (w.db name).getD []

def entry (engine : Engine) (w : World β) (name : String) : String × String × Data (List β) :=
  (name, innerExt engine, innerDump engine false name (content w name))

def Archives (engine : Engine) (w : World β) (names : List String)
    (es : List (String × String × Data (List β))) : Prop :=
  ∀ e, e ∈ es ↔ ∃ n ∈ names, entry engine w n = e

theorem Archives.add {engine : Engine} {w : World β} {names : List String}
    {es : List (String × String × Data (List β))} (h : Archives engine w names es) (n : String) :
    Archives engine w (names ++ [n])
      (es.filter (fun e => ¬ (e.1 = n ∧ e.2.1 = innerExt engine)) ++ [entry engine w n]) := by
  intro e
  simp only [List.mem_append, List.mem_filter, h e, List.mem_singleton, decide_eq_true_eq]
  constructor
  · rintro (⟨⟨m, hm, rfl⟩, -⟩ | rfl)
    · exact ⟨m, Or.inl hm, rfl⟩
    · exact ⟨n, Or.inr rfl, rfl⟩
  · rintro ⟨m, hm | rfl, rfl⟩
    · by_cases hn : m = n
      · exact Or.inr (by rw [hn])
      · exact Or.inl ⟨⟨m, hm, rfl⟩, fun he => hn he.1⟩
    · exact Or.inr rfl

theorem dumpOne_exec {database : Database} {container name : String} {t : Tool}
    (ht : dumpOne database container name = .ok t) {w : World β} (hw : (w.db name).isSome)
    (d : Data (List β)) :
    S.exec t d w = (w, innerDump database.engine false name (content w name), 0) := by
  obtain ⟨b, hb⟩ := Option.isSome_iff_exists.mp hw
  cases he : database.engine <;> simp only [dumpOne, he, Except.ok.injEq, reduceCtorEq] at ht <;> subst ht <;>
    simp [Server.exec, Server.client, innerDump, content, hb]

theorem eval_dumpInto {database : Database} {container : String} {e : String × Tool}
    (ht : dumpOne database container e.1 = .ok e.2) {s : State (Data (List β)) (World β)} {dir : String}
    (hdb : (s.world.db e.1).isSome) (hn : isFileName e.1 = true) (htmp : (s.vars "tmp").text = dir)
    {es : List (String × String × Data (List β))} (hdir : s.world.dir dir = some es) (i : Data (List β)) :
    let r := S.machine.eval (dumpInto (innerExt database.engine) e) i s
    r.exited = false ∧ r.state.status = 0 ∧ r.state.vars = s.vars ∧
      r.state.world = s.world.setDir dir (some (es.filter (fun x => ¬ (x.1 = e.1 ∧ x.2.1 = innerExt database.engine)) ++
        [entry database.engine s.world e.1])) := by
  simp [dumpInto, prog, eval, call, dumpOne_exec ht hdb, Server.write, htmp, hdir, hn, entry]

theorem eval_dumpAll {database : Database} {container : String} {ds : List (String × Tool)} (hds : ds ≠ [])
    {s : State (Data (List β)) (World β)} {dir : String} (htmp : (s.vars "tmp").text = dir)
    (h : ∀ d ∈ ds, dumpOne database container d.1 = .ok d.2 ∧ (s.world.db d.1).isSome ∧ isFileName d.1 = true)
    {names : List String} {es : List (String × String × Data (List β))} (hdir : s.world.dir dir = some es)
    (hes : Archives database.engine s.world names es) (i : Data (List β)) :
    let r := S.machine.eval (dumpAll (innerExt database.engine) ds) i s
    r.exited = false ∧ r.state.status = 0 ∧ r.state.vars = s.vars ∧ ∃ es',
      r.state.world.dir dir = some es' ∧
        Archives database.engine s.world (names ++ ds.map Prod.fst) es' := by
  induction ds generalizing s names es with
  | nil => exact absurd rfl hds
  | cons d ds ih =>
      obtain ⟨hd, hrest⟩ := List.forall_mem_cons.mp h
      obtain ⟨hx, hs, hv, hw⟩ := eval_dumpInto (S := S) hd.1 hd.2.1 hd.2.2 htmp hdir i
      have hadd := hes.add d.1
      cases ds with
      | nil =>
          refine ⟨hx, hs, hv, _, ?_, hadd⟩
          simp only [dumpAll, List.map_cons, List.map_nil, Cmd.sequence]
          rw [hw]
          exact Function.update_self _ _ _
      | cons e ds =>
          rw [dumpAll_cons, eval_seq _ _ hx]
          have := ih (s := (S.machine.eval (dumpInto (innerExt database.engine) d) i s).state) (by simp)
            (by rw [hv, htmp]) (by rw [hw]; exact hrest) (by rw [hw]; exact Function.update_self _ _ _)
            (by rw [hw]; exact hadd)
          obtain ⟨hx', hs', hv', es', hdir', hes'⟩ := this
          refine ⟨hx', hs', hv'.trans hv, es', hdir', ?_⟩
          rw [hw, List.append_assoc] at hes'
          exact hes'

theorem eval_setup_server (i : Data (List β)) (s : State (Data (List β)) (World β)) :
    let r := S.machine.eval compressorSetup i s
    r.exited = false ∧ r.state.world = s.world ∧ (r.state.vars "GZ").text ≠ "" := by
  by_cases hp : S.pigz = true <;>
    simp [compressorSetup, eval, call, after, Server.exec, hp, Data.text]

theorem eval_feed_server {p : Vars (Data (List β)) → Tool} (filePath : String) {i d : Data (List β)}
    {s : State (Data (List β)) (World β)} (hv : (s.vars "GZ").text ≠ "")
    (hp : S.exec (p s.vars) i s.world = (s.world, d, 0)) :
    let r := S.machine.eval (feed p filePath) i s
    r.exited = false ∧ r.state.status = 0 ∧ r.state.vars = s.vars ∧
      r.state.world = s.world.setFile (.host filePath) (some (.gzip d)) := by
  have hg : S.exec (.compress (s.vars "GZ").text) d s.world = (s.world, .gzip d, 0) := if_neg hv
  simp [feed, toFile, gz, eval, call, hp, hg, Server.write]

theorem setFile_file (w : World β) (l : Location) (d : Option (Data (List β))) :
    (w.setFile l d).file l = d :=
  Function.update_self _ _ _

theorem remove_host_file (w : World β) {p q : String} (h : q ≠ p) :
    (w.remove [.host p]).file (.host q) = w.file (.host q) := by
  simp [World.remove, World.setFile, World.setDir, h]

/-- One database: the dump goes straight into the compressor. -/
theorem single_dump_file {database : Database} {container filePath name : String} {t : Tool}
    (ht : dumpOne database container name = .ok t) {w : World β} (hdb : (w.db name).isSome) :
    (S.machine.start (.seq compressorSetup (feed (fun _ => t) filePath)) w).state.world.file (.host filePath) =
      some (.gzip (innerDump database.engine false name (content w name))) := by
  obtain ⟨hx, hw, hv⟩ := eval_setup_server (S := S) .empty (S.machine.fresh w)
  rw [start, Server.machine_empty, eval_seq _ _ hx, after_state]
  obtain ⟨-, -, -, hf⟩ := eval_feed_server (S := S) (p := fun _ => t) (i := .empty) filePath hv
    (by rw [hw]; exact dumpOne_exec ht hdb .empty)
  rw [hf, setFile_file]

theorem finish_world (i : Data (List β)) (s : State (Data (List β)) (World β)) :
    (S.machine.eval finish i s).state.world = s.world.remove [.host (s.vars "tmp").text] := by
  simp [finish, eval, call, quiet, after, Server.exec]

theorem mongo_dump_file {database : Database} (he : database.engine = .mongodb)
    {container filePath name : String}
    {t : Tool} (ht : dumpOne database container name = .ok t) (w : World β) :
    (S.machine.start (toFile (prog (withGzip t)) (.host filePath)) w).state.world.file (.host filePath) =
      some (.archive true name (content w name)) := by
  simp only [dumpOne, he, Except.ok.injEq] at ht
  subst ht
  exact setFile_file _ _ _

theorem eval_collect {database : Database} {container : String} {ds : List (String × Tool)} (hds : ds ≠ [])
    (s : State (Data (List β)) (World β))
    (h : ∀ d ∈ ds, dumpOne database container d.1 = .ok d.2 ∧ (s.world.db d.1).isSome ∧ isFileName d.1 = true)
    (i : Data (List β)) :
    let r := S.machine.eval (collect (innerExt database.engine) ds) i s
    r.exited = false ∧ r.state.status = 0 ∧
      r.state.vars = Function.update s.vars "tmp" (.word (S.tmp s.world)) ∧
      ∃ es, r.state.world.dir (S.tmp s.world) = some es ∧
        Archives database.engine s.world (ds.map Prod.fst) es := by
  have ha : S.machine.eval (.assign "tmp" (prog .mktemp)) i s =
      ⟨⟨Function.update s.vars "tmp" (.word (S.tmp s.world)), s.world.setDir (S.tmp s.world) (some []), 0⟩, .empty,
        [(.mktemp, 0)], false⟩ := rfl
  have hempty : Archives (β := β) database.engine s.world [] [] := by simp [Archives]
  obtain ⟨-, hs, hv, es, hdir, hes⟩ := eval_dumpAll (S := S) hds
    (s := ⟨Function.update s.vars "tmp" (.word (S.tmp s.world)), s.world.setDir (S.tmp s.world) (some []), 0⟩)
    (by simp [Data.text]) h (Function.update_self _ _ _) hempty i
  refine ⟨?_, ?_, ?_, es, ?_, hes⟩
  all_goals rw [collect, eval_and _ _ (by rw [ha]) (by rw [ha]), ha]
  · rfl
  · exact hs
  · rfl
  · exact hdir

/-- Several databases: the file is a tarball of their dumps. -/
theorem multi_dump_file {database : Database} {container filePath : String} {ds : List (String × Tool)}
    (hds : ds ≠ []) {w : World β}
    (h : ∀ d ∈ ds, dumpOne database container d.1 = .ok d.2 ∧ (w.db d.1).isSome ∧ isFileName d.1 = true)
    (hfile : filePath ≠ S.tmp w) :
    ∃ es, Archives database.engine w (ds.map Prod.fst) es ∧
      (S.machine.start (.seq compressorSetup (.seq
        (.and (collect (innerExt database.engine) ds) (feed (fun v => .tarCreate (v "tmp").text) filePath))
        finish)) w).state.world.file (.host filePath) = some (.gzip (.tarball es)) := by
  obtain ⟨hx, hw, hv⟩ := eval_setup_server (S := S) .empty (S.machine.fresh w)
  generalize hs : (S.machine.eval compressorSetup .empty (S.machine.fresh w)).state = s at hw hv
  have hw' : s.world = w := hw
  obtain ⟨hcx, hcs, hcv, es, hdir, hes⟩ := eval_collect (S := S) hds s (by rwa [hw']) .empty
  rw [hw'] at hcv hdir hes
  generalize hc : S.machine.eval (collect (innerExt database.engine) ds) .empty s = r at hcx hcs hcv hdir
  have htar : S.exec (.tarCreate (r.state.vars "tmp").text) .empty r.state.world =
      (r.state.world, .tarball es, 0) := by
    simp [hcv, Server.exec, Data.text, hdir]
  obtain ⟨hfx, -, hfv, hfw⟩ :=
    eval_feed_server (S := S) (p := fun v => .tarCreate (v "tmp").text) filePath
    (by simpa [hcv] using hv) htar
  refine ⟨es, hes, ?_⟩
  rw [start, Server.machine_empty, eval_seq _ _ hx, after_state, hs]
  have hand := eval_and S.machine (feed (fun v => .tarCreate (v "tmp").text) filePath)
    (a := collect (innerExt database.engine) ds) (i := .empty) (s := s) (by rw [hc, hcx]) (by rw [hc, hcs])
  rw [hc] at hand
  rw [eval_seq _ _ (by rw [hand]; exact hfx), after_state, hand, after_state, finish_world, hfw, hfv, hcv]
  have htmp : (Function.update s.vars "tmp" (Data.word (S.tmp w) : Data (List β)) "tmp").text = S.tmp w := by
    simp [Data.text]
  rw [htmp, remove_host_file _ hfile, setFile_file]

end Yeah.Databases
