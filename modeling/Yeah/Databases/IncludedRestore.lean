import Yeah.Databases.Included
import Yeah.Databases.RestoreStatus

namespace Yeah.Databases

open Shell Machine Attempt

variable {β : Type} {S : Server β} {job : Job (List β)}

/-- The database that a program drops, cleans or loads. -/
def Tool.touches : Tool → Option String
  | .exec _ (.psql _ name .clean) => some name
  | .exec _ (.mysql _ _ (.recreate name _)) => some name
  | .exec _ (.psqlLoad _ name) | .exec _ (.mysqlLoad _ _ name) | .exec _ (.mongorestore _ _ _ _ name) => some name
  | _ => none

def Tool.loadsInto : Tool → Option String
  | .exec _ (.psqlLoad _ name) | .exec _ (.mysqlLoad _ _ name) | .exec _ (.mongorestore _ _ _ _ name) => some name
  | _ => none

/-- Each listed database got the dump of its name, and no other database was touched. -/
structure Agrees (names : List String) (dump : String → List β) (before : World β) (ran : List (Tool × Nat))
    (after : World β) : Prop where
  loaded : ∀ n ∈ names, (∃ t, (t, 0) ∈ ran ∧ t.loadsInto = some n) ∧
    ∃ c, after.db n = some c ∧ dump n <+: c
  spared : ∀ e ∈ ran, ∀ n, e.1.touches = some n → n ∈ names
  unchanged : ∀ n ∉ names, after.db n = before.db n

theorem setDb_db_self (w : World β) (n : String) (b : List β) : (w.setDb n b).db n = some b :=
  Function.update_self _ _ _

theorem setDb_db_of_ne (w : World β) {m n : String} (h : m ≠ n) (b : List β) :
    (w.setDb n b).db m = w.db m :=
  Function.update_of_ne h _ _

@[simp] theorem setDb_setDb (w : World β) (n : String) (b c : List β) :
    (w.setDb n b).setDb n c = w.setDb n c := by
  simp [World.setDb]

@[simp] theorem setDb_dir (w : World β) (n : String) (b : List β) : (w.setDb n b).dir = w.dir := rfl
@[simp] theorem setDb_file (w : World β) (n : String) (b : List β) : (w.setDb n b).file = w.file := rfl
@[simp] theorem setFile_db (w : World β) (l : Location) (d : Option (Data (List β))) :
    (w.setFile l d).db = w.db := rfl
@[simp] theorem setDir_db (w : World β) (p : String)
    (es : Option (List (String × String × Data (List β)))) :
    (w.setDir p es).db = w.db := rfl

theorem read_entry {engine : Engine} {w₀ w : World β} {names : List String} {dir : String}
    {es : List (String × String × Data (List β))} (hdir : w.dir dir = some es)
    (hes : Archives engine w₀ names es)
    {n : String} (hn : n ∈ names) :
    Server.read w (.entry dir n (innerExt engine)) = some (innerDump engine false n (content w₀ n)) := by
  have hf : es.find? (fun e => e.1 = n ∧ e.2.1 = innerExt engine) = some (entry engine w₀ n) := by
    have hs : (es.find? fun e => e.1 = n ∧ e.2.1 = innerExt engine).isSome := by
      rw [List.find?_isSome]
      exact ⟨_, (hes _).mpr ⟨n, hn, rfl⟩, by simp [entry]⟩
    obtain ⟨e, he⟩ := Option.isSome_iff_exists.mp hs
    obtain ⟨m, -, rfl⟩ := (hes e).mp (List.mem_of_find?_eq_some he)
    have hm : m = n := by simpa [entry] using List.find?_some he
    rw [he, hm]
  simp only [Bool.decide_and] at hf
  simp [Server.read, hdir, hf, entry]

@[simp] theorem read_setDb (w : World β) (n : String) (b : List β) (dir name ext : String) :
    Server.read (w.setDb n b) (.entry dir name ext) = Server.read w (.entry dir name ext) := rfl

/-- The statement that recreates a database is the one meant. -/
def Meant (S : Server β) (database : Database) (grantee name : String) : Prop :=
  database.engine = .mysql ∨ database.engine = .mariadb → S.altered (.recreate name grantee) = none

def quotedGrantee (database : Database) : String := "'" ++ database.user "app" ++ "'@'%'"

def bareGrantee (database : Database) : String := database.user "app" ++ "@\"%\""

/-- One turn of the loop over an archive. -/
theorem restoreLoop_turn {database : Database} (he : supportsMultiDatabase database.engine)
    (container : String)
    {w₀ : World β} {names : List String} {dir : String} {es : List (String × String × Data (List β))}
    {s : State (Data (List β)) (World β)} (hdir : s.world.dir dir = some es)
    (hes : Archives database.engine w₀ names es) {n : String} (hn : n ∈ names)
    (hm : Meant S database (quotedGrantee database) n) (i : Data (List β)) :
    let r :=
      S.machine.eval (.seq (.assign "n" (.run fun v => .basename (v "f").target ("." ++ innerExt database.engine)))
      (restoreLoopBody database container)) i (s.set "f" (.path (.entry dir n (innerExt database.engine))))
    r.exited = false ∧ r.state.status = 0 ∧
      (∃ c, r.state.world = s.world.setDb n c ∧ content w₀ n <+: c) ∧
      (∃ t, (t, 0) ∈ r.log ∧ t.loadsInto = some n) ∧ ∀ e ∈ r.log, ∀ m, e.1.touches = some m → m = n := by
  have hr := read_entry hdir hes hn
  cases hen : database.engine with
  | postgresql =>
      rw [hen] at hr
      refine ⟨?_, ?_, ⟨content w₀ n, ?_, List.prefix_refl _⟩, ?_⟩
      all_goals
        cases hdb : s.world.db n <;>
          simp [restoreLoopBody, hen, createMissing, prog, eval, call, after, Server.exec, Server.client, Server.sql,
            Server.load, Data.target, Data.text, hr, hdb, setDb_db_self, innerDump, Tool.touches, Tool.loadsInto]
  | mysql | mariadb =>
      have ha : S.altered (.recreate n ("'" ++ database.user "app" ++ "'@'%'")) = none :=
        hm (by simp [hen])
      rw [hen] at hr
      refine ⟨?_, ?_, ⟨content w₀ n, ?_, List.prefix_refl _⟩, ?_⟩
      all_goals
        simp [restoreLoopBody, hen, eval, call, after, Server.exec, Server.client, Server.sql, Server.load, Data.target,
          Data.text, hr, ha, setDb_db_self, innerDump, Tool.touches, Tool.loadsInto]
  | mongodb =>
      rw [hen] at hr
      refine ⟨?_, ?_, ⟨content w₀ n ++ S.survivors (content w₀ n) (content s.world n), ?_, List.prefix_append _ _⟩, ?_⟩
      all_goals
        simp [restoreLoopBody, hen, eval, call, after, Server.exec, Server.client, Server.restoreArchive, Data.target,
          Data.text, hr, innerDump, content, Tool.touches, Tool.loadsInto]
  | redis | keydb | dragonfly | clickhouse | sqlite => simp [supportsMultiDatabase, hen] at he

/-- What a loop over `ns` has done: every name got its dump, nothing else changed. -/
structure Loaded (dump : String → List β) (ns : List String) (before : World β) (log : List (Tool × Nat))
    (after : World β) : Prop where
  loaded : ∀ n ∈ ns, (∃ t, (t, 0) ∈ log ∧ t.loadsInto = some n) ∧ ∃ c, after.db n = some c ∧ dump n <+: c
  spared : ∀ e ∈ log, ∀ m, e.1.touches = some m → m ∈ ns
  unchanged : ∀ m ∉ ns, after.db m = before.db m

theorem Loaded.cons {dump : String → List β} {n : String} {ns : List String} {w w' w'' : World β}
    {log log' : List (Tool × Nat)} {c : List β} (hc : w' = w.setDb n c) (hd : dump n <+: c)
    (ht : ∃ t, (t, 0) ∈ log ∧ t.loadsInto = some n) (hs : ∀ e ∈ log, ∀ m, e.1.touches = some m → m = n)
    (h : Loaded dump ns w' log' w'') : Loaded dump (n :: ns) w (log ++ log') w'' where
  loaded := by
    intro m hm
    by_cases hmn : m ∈ ns
    · obtain ⟨⟨t, ht, hl⟩, hc⟩ := h.loaded m hmn
      exact ⟨⟨t, List.mem_append_right _ ht, hl⟩, hc⟩
    · obtain rfl : m = n := (List.mem_cons.mp hm).resolve_right hmn
      obtain ⟨t, ht, hl⟩ := ht
      refine ⟨⟨t, List.mem_append_left _ ht, hl⟩, c, ?_, hd⟩
      rw [h.unchanged m hmn, hc, setDb_db_self]
  spared := by
    intro e he m hm
    rcases List.mem_append.mp he with he | he
    · exact List.mem_cons.mpr (Or.inl (hs e he m hm))
    · exact List.mem_cons_of_mem _ (h.spared e he m hm)
  unchanged := by
    intro m hm
    rw [List.mem_cons, not_or] at hm
    rw [h.unchanged m hm.2, hc, setDb_db_of_ne _ hm.1]

theorem restoreLoop_names {database : Database} (he : supportsMultiDatabase database.engine)
    (container : String)
    {w₀ : World β} {names : List String} {dir : String} {es : List (String × String × Data (List β))}
    (hes : Archives database.engine w₀ names es)
    (hm : ∀ n ∈ names, Meant S database (quotedGrantee database) n)
    (i : Data (List β)) (ns : List String) (hns : ∀ n ∈ ns, n ∈ names) (s : State (Data (List β)) (World β))
    (hdir : s.world.dir dir = some es) (h0 : s.status = 0) :
    let r := S.machine.loop (fun d s' => S.machine.eval
        (.seq (.assign "n" (.run fun v => .basename (v "f").target ("." ++ innerExt database.engine)))
          (restoreLoopBody database container)) i (s'.set "f" d))
      (ns.map fun n => .path (.entry dir n (innerExt database.engine))) s
    r.state.status = 0 ∧ Loaded (content w₀) ns s.world r.log r.state.world := by
  induction ns generalizing s with
  | nil => exact ⟨h0, by simp [loop, quiet], by simp [loop, quiet], fun _ _ => rfl⟩
  | cons n ns ih =>
      obtain ⟨hx, hs, ⟨c, hw, hc⟩, ht, hl⟩ := restoreLoop_turn he container hdir hes (hns n (by simp))
        (hm n (hns n (by simp))) i
      rw [List.map_cons, loop, if_neg (by rw [hx]; exact Bool.false_ne_true)]
      obtain ⟨hs', hL⟩ := ih (fun m hm => hns m (by simp [hm])) _ (by rw [hw]; exact hdir) hs
      exact ⟨hs', Loaded.cons hw hc ht hl hL⟩

end Yeah.Databases
