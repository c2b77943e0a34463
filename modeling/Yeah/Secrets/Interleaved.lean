import Yeah.Runs
import Yeah.Secrets.Rotation
import Yeah.Secrets.Stored
import Yeah.Tables

namespace Yeah.Secrets.Interleaved

open Runs Text

/-- A database whose ids are keys. -/
structure Keyed where
  db : Db
  nodup : ∀ table, ((db table).map (·.id)).Nodup

/-- A pass on its way: the columns it has not come to, and the rows of the present one that it has not written. -/
structure Running where
  pass : Pass
  columns : List SecretColumn
  present : Option SecretColumn
  rows : List (Uuid × String)

/-- `expected` is what the last ordinary update of a column said, or the plaintext that it had at first. -/
structure State where
  db : Db
  running : List Running
  expected : SecretColumn → Uuid → Except String (Option String)

inductive Action
  /-- An ordinary update of a column, with a text or with null. -/
  | update (c : SecretColumn) (id : Uuid) (value : Option String) (iv : { l : List UInt8 // l.length = IV_BYTES })
  | start (pass : Pass)
  | select (i : Nat)
  /-- The next row of a pass; its update may fail. -/
  | write (i : Nat) (iv : { l : List UInt8 // l.length = IV_BYTES }) (error : Option String)

def once (iv : { l : List UInt8 // l.length = IV_BYTES }) (error : Option String) : World :=
  ⟨fun _ _ => error, fun _ _ => iv, fun _ _ => iv.2⟩

theorem once_iv (iv : { l : List UInt8 // l.length = IV_BYTES }) (error : Option String) (c : SecretColumn)
    (id : Uuid) :
    (once iv error).iv c id = iv := rfl

section Steps

variable {Key : Type} (cipher : Cipher Key) (lossy : List UInt8 → String) (history : List Config) (config : Config)

def reads (value : Option String) : Except String (Option String) :=
  match value with
  | none => .ok none
  | some stored => (decryptSecret cipher lossy (cacheAfter cipher history) config stored).map some

def original (db : Db) (c : SecretColumn) (id : Uuid) : Except String (Option String) :=
  match (db c.table).find? fun r => r.id = id with
  | none => .ok none
  | some r => reads cipher lossy history config (r.value c.column)

def start (keyed : Keyed) : State := ⟨keyed.db, [], original cipher lossy history config keyed.db⟩

def expect (s : State) (c : SecretColumn) (id : Uuid) (value : Option String) :
    SecretColumn → Uuid → Except String (Option String) :=
  fun d i => if d = c ∧ i = id then .ok value else s.expected d i

/-- A statement by one of the parties; all of them have the same keys. -/
def step (s : State) : Action → State
  | .update c id none _ => { s with db := s.db.set c id none, expected := expect s c id none }
  | .update c id (some text) iv =>
      match encryptSecret cipher (cacheAfter cipher history) config iv text with
      | .error _ => s
      | .ok stored => { s with db := s.db.set c id (some stored), expected := expect s c id (some text) }
  | .start pass => { s with running := s.running ++ [⟨pass, SECRET_COLUMNS, none, []⟩] }
  | .select i =>
      match s.running[i]? with
      | some ⟨pass, c :: cs, _, []⟩ =>
          match s.db.select (pass.statement c) with
          | .error _ => { s with running := s.running.eraseIdx i }
          | .ok rows => { s with running := s.running.set i ⟨pass, cs, some c, rows.filterMap fun r => r.2.map (r.1, ·)⟩ }
      | _ => s
  | .write i iv error =>
      match s.running[i]? with
      | some ⟨pass, cs, some c, row :: rows⟩ =>
          { s with
            db :=
              (pass.row cipher lossy (cacheAfter cipher history) config (once iv error) c (s.db, ⟨0, []⟩) row).1
            running := s.running.set i ⟨pass, cs, some c, rows⟩ }
      | _ => s

theorem step_select {s : State} {i : Nat} {pass : Pass} {c : SecretColumn} {cs : List SecretColumn}
    {last : Option SecretColumn}
    {rows : List (Uuid × Option String)} (hrunning : s.running[i]? = some ⟨pass, c :: cs, last, []⟩)
    (hselect : s.db.select (pass.statement c) = .ok rows) :
    step cipher lossy history config s (.select i) =
      { s with running := s.running.set i ⟨pass, cs, some c, rows.filterMap fun r => r.2.map (r.1, ·)⟩ } := by
  rw [step, hrunning]
  dsimp only
  rw [hselect]

def Faithful (s : State) : Prop :=
  ∀ c : SecretColumn, ∀ r ∈ s.db c.table, reads cipher lossy history config (r.value c.column) = s.expected c r.id

/-- The value that a pass writes back is still the plaintext of its column. -/
def Calm (s : State) : Action → Prop
  | .write i iv none =>
      ∀ pass cs c id value rows, s.running[i]? = some ⟨pass, cs, some c, (id, value) :: rows⟩ →
        ∀ text stored,
        pass.plaintext cipher lossy (cacheAfter cipher history) config value = .ok (some text) →
          encryptSecret cipher (cacheAfter cipher history) config iv text = .ok stored →
            ∀ r ∈ s.db c.table, r.id = id → reads cipher lossy history config (r.value c.column) = .ok (some text)
  | _ => True

/-- What is encrypted is read back: the ring that encrypts has its key. -/
theorem reads_encryptSecret {iv : List UInt8} (hiv : iv.length = IV_BYTES) {text stored : String}
    (h : encryptSecret cipher (cacheAfter cipher history) config iv text = .ok stored) :
    reads cipher lossy history config (some stored) = .ok (some text) := by
  have hread : Readable cipher lossy history history config config iv text :=
    (readable_iff cipher lossy history history config config hiv text).2 fun k hk => by simp [Config.keys, hk]
  rw [reads, hread stored h]
  rfl

theorem mem_set {db : Db} {c : SecretColumn} {id : Uuid} {value : Option String} {table : String}
    {r : Row} :
    r ∈ db.set c id value table ↔ ∃ u ∈ db table, r =
      if table = c.table ∧ u.id = id then { u with value := Function.update u.value c.column value } else u := by
  by_cases ht : table = c.table
  · simp only [Db.set, ht, if_true, true_and, List.mem_map, eq_comm]
  · simp [Db.set, ht]

theorem faithful_set_iff {s : State} {expected : SecretColumn → Uuid → Except String (Option String)}
    {running : List Running}
    (c : SecretColumn) (id : Uuid) (value : Option String)
    (h : ∀ d : SecretColumn, ∀ r ∈ s.db d.table, ¬ (d = c ∧ r.id = id) →
      reads cipher lossy history config (r.value d.column) = expected d r.id) :
    Faithful cipher lossy history config ⟨s.db.set c id value, running, expected⟩ ↔
      ((∃ r ∈ s.db c.table, r.id = id) → reads cipher lossy history config value = expected c id) := by
  constructor
  · rintro hf ⟨r, hr, rfl⟩
    have hcell := hf c _ (mem_set.2 ⟨r, hr, rfl⟩)
    simpa using hcell
  · intro hv d r hr
    obtain ⟨u, hu, rfl⟩ := mem_set.1 hr
    by_cases hcell : d = c ∧ u.id = id
    · obtain ⟨rfl, rfl⟩ := hcell
      simpa using hv ⟨u, hu, rfl⟩
    · have hother := h d u hu hcell
      split_ifs with hrow
      · have hcolumn : d.column ≠ c.column := fun hc => hcell ⟨by cases d; cases c; simp_all, hrow.2⟩
        simpa [Function.update_of_ne hcolumn] using hother
      · exact hother

theorem row_write {p : Pass} {w : World} {c : SecretColumn} {r : Uuid × String} {text stored : String}
    (htext : p.plaintext cipher lossy (cacheAfter cipher history) config r.2 = .ok (some text))
    (hstored : encryptSecret cipher (cacheAfter cipher history) config (w.iv c r.1) text = .ok stored)
    (herror : w.updateError c r.1 = none) (s : Db × Outcome) :
    (p.row cipher lossy (cacheAfter cipher history) config w c s r).1 = s.1.set c r.1 (some stored) := by
  simp only [Pass.row, htext, hstored, herror]

theorem row_skip {p : Pass} {w : World} {c : SecretColumn} {r : Uuid × String}
    (h : ∀ text stored, p.plaintext cipher lossy (cacheAfter cipher history) config r.2 = .ok (some text) →
      encryptSecret cipher (cacheAfter cipher history) config (w.iv c r.1) text = .ok stored → w.updateError c r.1 ≠ none)
    (s : Db × Outcome) : (p.row cipher lossy (cacheAfter cipher history) config w c s r).1 = s.1 := by
  rw [Pass.row]
  dsimp only
  split
  · rfl
  · rfl
  · next text htext =>
      split
      · rfl
      · rfl
      · next stored hstored herror => exact absurd herror (h text stored htext hstored)

theorem faithful_write_iff {s : State} (h : Faithful cipher lossy history config s) {i : Nat} {pass : Pass}
    {cs : List SecretColumn}
    {c : SecretColumn} {id : Uuid} {value : String} {rows : List (Uuid × String)}
    (hrunning : s.running[i]? = some ⟨pass, cs, some c, (id, value) :: rows⟩)
    (iv : { l : List UInt8 // l.length = IV_BYTES })
    (error : Option String) :
    Faithful cipher lossy history config
        { s with
          db :=
            (pass.row cipher lossy (cacheAfter cipher history) config (once iv error) c (s.db, ⟨0, []⟩) (id, value)).1
          running := s.running.set i ⟨pass, cs, some c, rows⟩ } ↔
      Calm cipher lossy history config s (.write i iv error) := by
  cases error with
  | some e =>
      rw [row_skip cipher lossy history config (by simp [once])]
      exact iff_of_true h trivial
  | none =>
      by_cases hw : ∃ text stored, pass.plaintext cipher lossy (cacheAfter cipher history) config value = .ok (some text) ∧
          encryptSecret cipher (cacheAfter cipher history) config iv text = .ok stored
      · obtain ⟨text, stored, htext, hstored⟩ := hw
        have hrow :=
          row_write cipher lossy history config (w := once iv none) (c := c) (r := (id, value)) htext
          (by rw [once_iv]; exact hstored) rfl (s.db, ⟨0, []⟩)
        rw [hrow, faithful_set_iff cipher lossy history config c id (some stored) fun d r hr _ => h d r hr,
          reads_encryptSecret cipher lossy history config iv.2 hstored]
        constructor
        · intro heq pass' cs' c' id' value' rows' hrunning' text' stored' htext' _ r hr hid
          obtain ⟨rfl, rfl, rfl, ⟨rfl, rfl⟩, rfl⟩ : pass = pass' ∧ cs = cs' ∧ c = c' ∧
            (id = id' ∧ value = value') ∧ rows = rows' := by
            simpa [hrunning] using hrunning'
          obtain rfl : text = text' := by simpa [htext] using htext'
          rw [h c r hr, hid, ← heq ⟨r, hr, hid⟩]
        · rintro hcalm ⟨r, hr, hid⟩
          rw [← hid, ← h c r hr, hcalm pass cs c id value rows hrunning text stored htext hstored r hr hid]
      · have hskip :=
          row_skip cipher lossy history config (w := once iv none) (c := c) (r := (id, value)) (p := pass)
          (fun text stored htext hstored _ => hw ⟨text, stored, htext, by rw [once_iv] at hstored; exact hstored⟩) (s.db, ⟨0, []⟩)
        rw [hskip]
        refine iff_of_true h ?_
        intro pass' cs' c' id' value' rows' hrunning' text' stored' htext' hstored'
        obtain ⟨rfl, -, -, ⟨-, rfl⟩, -⟩ : pass = pass' ∧ cs = cs' ∧ c = c' ∧ (id = id' ∧ value = value') ∧
          rows = rows' := by
          simpa [hrunning] using hrunning'
        exact absurd ⟨text', stored', htext', hstored'⟩ hw

/-- A step keeps every plaintext exactly if it is no late write of a pass. -/
theorem faithful_step_iff {s : State} (h : Faithful cipher lossy history config s) (a : Action) :
    Faithful cipher lossy history config (step cipher lossy history config s a) ↔
      Calm cipher lossy history config s a := by
  cases a with
  | update c id value iv =>
      refine iff_of_true ?_ trivial
      have hother (v : Option String) : ∀ d : SecretColumn, ∀ r ∈ s.db d.table, ¬ (d = c ∧ r.id = id) →
          reads cipher lossy history config (r.value d.column) = expect s c id v d r.id :=
            fun d r hr hne => by
        rw [expect, if_neg hne]
        exact h d r hr
      have hcell (v : Option String) : expect s c id v c id = .ok v := if_pos ⟨rfl, rfl⟩
      cases value with
      | none => exact (faithful_set_iff cipher lossy history config c id none (hother none)).2 fun _ => (hcell none).symm
      | some text =>
          rw [step]
          split
          · exact h
          · next stored hstored =>
              refine (faithful_set_iff cipher lossy history config c id (some stored) (hother (some text))).2 fun _ => ?_
              rw [reads_encryptSecret cipher lossy history config iv.2 hstored, hcell]
  | start pass => exact iff_of_true h trivial
  | select i =>
      refine iff_of_true ?_ trivial
      rw [step]
      repeat' split
      all_goals exact h
  | write i iv error =>
      rw [step]
      split
      · next pass cs c row rows hrunning =>
          obtain ⟨id, value⟩ := row
          exact faithful_write_iff cipher lossy history config h hrunning iv error
      · next hrunning =>
          refine iff_of_true h ?_
          cases error with
          | some e => trivial
          | none => exact fun pass cs c id value rows hr => absurd hr (hrunning pass cs c (id, value) rows)

theorem faithful_start (keyed : Keyed) :
    Faithful cipher lossy history config (start cipher lossy history config keyed) := by
  intro c r hr
  have hfind : (keyed.db c.table).find? (fun b => b.id = r.id) = some r :=
    Tables.find?_key (keyed.nodup c.table) hr
  change _ = original cipher lossy history config keyed.db c r.id
  rw [original, hfind]

/-- The passes on their way know only the columns of the list, and reencryptSecrets has no rows. -/
def Barren (p : Running) : Prop :=
  (∀ c ∈ p.columns, c ∈ SECRET_COLUMNS) ∧ (p.pass = .reencryptSecrets → p.rows = [])

theorem barren_step {s : State} (h : ∀ p ∈ s.running, Barren p) (a : Action) :
    ∀ p ∈ (step cipher lossy history config s a).running, Barren p := by
  cases a with
  | update c id value iv =>
      cases value with
      | none => exact h
      | some text =>
          rw [step]
          split <;> exact h
  | start pass =>
      intro p hp
      rcases List.mem_append.1 hp with hp | hp
      · exact h p hp
      · obtain rfl := List.mem_singleton.1 hp
        exact ⟨fun _ hc => hc, fun _ => rfl⟩
  | select i =>
      rw [step]
      split
      · next pass c cs present hrunning =>
          obtain ⟨hcolumns, -⟩ := h _ (List.mem_of_getElem? hrunning)
          split
          · exact fun p hp => h p (List.mem_of_mem_eraseIdx hp)
          · next rows hselect =>
              intro p hp
              rcases List.mem_or_eq_of_mem_set hp with hp | rfl
              · exact h p hp
              · refine ⟨fun d hd => hcolumns d (List.mem_cons_of_mem _ hd), ?_⟩
                rintro rfl
                rw [Db.select, parse_reencrypt (plain_of_mem (hcolumns c List.mem_cons_self))] at hselect
                cases hselect
      · exact h
  | write i iv error =>
      rw [step]
      split
      · next pass cs c row rows hrunning =>
          obtain ⟨hcolumns, hrows⟩ := h _ (List.mem_of_getElem? hrunning)
          intro p hp
          rcases List.mem_or_eq_of_mem_set hp with hp | rfl
          · exact h p hp
          · exact ⟨hcolumns, fun hpass => by cases hrows hpass⟩
      · exact h

/-- For every order of statements of passes and ordinary updates; and reencryptSecrets never has a row to write. -/
theorem run_faithful_iff (keyed : Keyed) (actions : List Action) :
    ((∀ before, before <+: actions →
        Faithful cipher lossy history config (run (step cipher lossy history config) (start cipher lossy history config keyed) before)) ↔
      Along (step cipher lossy history config) (Calm cipher lossy history config) (start cipher lossy history config keyed) actions) ∧
    ∀ p ∈ (run (step cipher lossy history config) (start cipher lossy history config keyed) actions).running,
      p.pass = .reencryptSecrets → p.rows = [] := by
  constructor
  · exact prefix_iff_along (G := Faithful cipher lossy history config)
      (I := fun _ => True) (fun _ _ _ _ => trivial)
      (fun _ a _ h => faithful_step_iff cipher lossy history config h a) trivial (faithful_start cipher lossy history config keyed) actions
  · intro p hp
    have hbarren := along_invariant (I := fun s : State => ∀ p ∈ s.running, Barren p)
      (fun s a h _ => barren_step cipher lossy history config h a) (s := start cipher lossy history config keyed) (by simp [start])
      (along_true _ actions)
    exact (hbarren p hp).2

end Steps

section Instances

def privateKey : SecretColumn := ⟨"servers", "private_key"⟩

def server : Row := ⟨.fill 'a' Text.Uuid.isAlphanum_a, fun _ => some "plain"⟩

/-- One server from the time before secrets were encrypted. -/
def legacyDb : Keyed where
  db table := if table = "servers" then [server] else []
  nodup table := by split_ifs <;> simp

def someIv : { l : List UInt8 // l.length = IV_BYTES } := ⟨List.replicate 12 0, List.length_replicate⟩

def keyed : Config := ⟨some "key", none, true⟩

theorem encrypts (text : String) :
    ∃ stored, encryptSecret tagged (cacheAfter tagged []) keyed someIv text = .ok stored := by
  have hcurrent : (served [] keyed).current = .ok "key" := by rfl
  rw [encryptSecret, keyring_served, ring_eq_ok tagged hcurrent]
  exact ⟨_, rfl⟩

/-- The key of the server is changed between the select and the update of the pass. -/
theorem update_lost :
    ¬ Faithful tagged (fun _ => "") [] keyed (run (step tagged (fun _ => "") [] keyed) (start tagged (fun _ => "") [] keyed legacyDb)
      [.start .encryptExistingSecrets, .select 0, .update privateKey server.id (some "changed") someIv, .write 0 someIv none]) := by
  obtain ⟨changed, hchanged⟩ := encrypts "changed"
  obtain ⟨again, hagain⟩ := encrypts "plain"
  obtain ⟨cs, hcolumns⟩ : ∃ cs, SECRET_COLUMNS = privateKey :: cs := ⟨_, rfl⟩
  have hencrypted : isEncrypted "plain" = false := by simp [isEncrypted, PREFIX, List.isPrefixOf]
  have hplain : Pass.encryptExistingSecrets.plaintext tagged (fun _ => "") (cacheAfter tagged []) keyed "plain" = .ok (some "plain") := by
    rw [Pass.plaintext, hencrypted]
    rfl
  have hselect : legacyDb.db.select (Pass.encryptExistingSecrets.statement privateKey) =
      .ok [(server.id, some "plain")] := by
    rw [select_encrypt (plain_of_mem (hcolumns ▸ List.mem_cons_self))]
    have hrows : legacyDb.db privateKey.table = [server] := rfl
    rw [hrows, List.filter_cons_of_pos]
    · rfl
    · simp [server, hencrypted]
  rw [run, List.foldl_cons, List.foldl_cons, List.foldl_cons, List.foldl_cons, List.foldl_nil]
  have hfaithful := faithful_start tagged (fun _ => "") [] keyed legacyDb
  rw [start] at hfaithful ⊢
  generalize original tagged (fun _ => "") [] keyed legacyDb.db = expected at hfaithful ⊢
  have hstep {s : State} (h : Faithful tagged (fun _ => "") [] keyed s) (a : Action) :=
    faithful_step_iff tagged (fun _ => "") [] keyed h a
  have hstarted : step tagged (fun _ => "") [] keyed ⟨legacyDb.db, [], expected⟩ (.start .encryptExistingSecrets) =
      ⟨legacyDb.db, [⟨.encryptExistingSecrets, privateKey :: cs, none, []⟩], expected⟩ := by
    rw [step, hcolumns]
    rfl
  have hselected : step tagged (fun _ => "") [] keyed ⟨legacyDb.db, [⟨.encryptExistingSecrets, privateKey :: cs, none, []⟩], expected⟩
      (.select 0) = ⟨legacyDb.db, [⟨.encryptExistingSecrets, cs, some privateKey, [(server.id, "plain")]⟩], expected⟩ :=
    step_select tagged (fun _ => "") [] keyed (s := ⟨legacyDb.db, [⟨.encryptExistingSecrets, privateKey :: cs, none, []⟩], expected⟩) rfl
      hselect
  have hf := (hstep hfaithful (.start .encryptExistingSecrets)).2 trivial
  rw [hstarted] at hf ⊢
  have hf := (hstep hf (.select 0)).2 trivial
  rw [hselected] at hf ⊢
  have hf := (hstep hf (.update privateKey server.id (some "changed") someIv)).2 trivial
  rw [hstep hf]
  simp only [step, hchanged]
  intro hcalm
  have hmem : (⟨server.id, Function.update server.value privateKey.column (some changed)⟩ : Row) ∈
      legacyDb.db.set privateKey server.id (some changed) privateKey.table :=
    mem_set.2 ⟨server, List.mem_singleton_self _, (if_pos ⟨rfl, rfl⟩).symm⟩
  have hread :=
    hcalm .encryptExistingSecrets cs privateKey server.id "plain" [] rfl "plain" again hplain hagain _ hmem rfl
  have hchanged' := reads_encryptSecret tagged (fun _ => "") [] keyed someIv.2 hchanged
  simp only [Function.update_self, hchanged'] at hread
  simp at hread

end Instances

end Yeah.Secrets.Interleaved
