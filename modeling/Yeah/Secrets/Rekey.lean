import Yeah.Secrets.Rotation
import Yeah.Secrets.Stored

namespace Yeah.Secrets

section Rekey

variable {Key : Type} (cipher : Cipher Key) (lossy : List UInt8 → String) (cache : Option (Ring Key)) (config : Config)

/-- Encrypted, but not under the current key. -/
def Stale (value : String) : Prop :=
  isEncrypted value = true ∧ usesCurrentKey cipher cache config value = false

instance (value : String) : Decidable (Stale cipher cache config value) :=
  inferInstanceAs (Decidable (_ ∧ _))

def Lost (value : String) : Prop :=
  Stale cipher cache config value ∧ (decryptSecret cipher lossy cache config value).isOk = false

instance (value : String) : Decidable (Lost cipher lossy cache config value) :=
  inferInstanceAs (Decidable (_ ∧ _))

def Db.values (db : Db) (c : SecretColumn) : List String :=
  (db c.table).filterMap fun r => r.value c.column

/-- The process after the old keys are dropped. -/
def Config.alone (c : Config) : Config := { c with previous := none }

/-- What a pass over all stored secrets is to do. -/
structure Covered (world : World) (db db' : Db) (outcome : Outcome) : Prop where
  rewritten : ∀ c ∈ SECRET_COLUMNS, ∀ (i : Nat) (r : Row), (db c.table)[i]? = some r →
    ∀ v, r.value c.column = some v →
    Stale cipher cache config v → ∀ t, decryptSecret cipher lossy cache config v = .ok t →
      ∃ r' : Row, (db' c.table)[i]? = some r' ∧ r'.id = r.id ∧ ∃ v', r'.value c.column = some v' ∧
        ¬ Stale cipher cache config v' ∧ decryptSecret cipher lossy none config.alone v' = .ok t
  kept : ∀ (table : String) (i : Nat) (r : Row), (db table)[i]? = some r →
    ∃ r' : Row, (db' table)[i]? = some r' ∧ r'.id = r.id ∧
    ∀ column, ((⟨table, column⟩ : SecretColumn) ∈ SECRET_COLUMNS → ∀ v ∈ r.value column, Stale cipher cache config v →
      Lost cipher lossy cache config v) → r'.value column = r.value column
  failed : outcome.failed.length = (SECRET_COLUMNS.map fun c => (db.values c).countP fun v => Lost cipher lossy cache config v).sum
  again : (Pass.reencryptSecrets.run cipher lossy cache config world db').2 = db'

theorem select_reencrypt {c : SecretColumn} (h : c.Plain) (db : Db) :
    db.select (Pass.reencryptSecrets.statement c) = .error "syntax error" := by
  rw [Db.select, parse_reencrypt h]

/-- The first statement already fails. -/
theorem run_reencrypt (world : World) (db : Db) :
    Pass.reencryptSecrets.run cipher lossy cache config world db = (.error "syntax error", db) := by
  obtain ⟨c, cs, hcolumns⟩ : ∃ c cs, SECRET_COLUMNS = c :: cs := ⟨_, _, rfl⟩
  have hselect := select_reencrypt (plain_of_mem (hcolumns ▸ List.mem_cons_self : c ∈ SECRET_COLUMNS)) db
  rw [Pass.run, hcolumns]
  rw [Pass.columns, hselect]

/-- For every content of the database, every key and every world. -/
theorem reencryptSecrets_not_covered (world : World) (db : Db) :
    ¬ ∃ outcome db', Pass.reencryptSecrets.run cipher lossy cache config world db = (.ok outcome, db') ∧
      Covered cipher lossy cache config world db db' outcome := by
  rintro ⟨outcome, db', hrun, -⟩
  rw [run_reencrypt] at hrun
  cases hrun

end Rekey

section Instances

def oldSecret : String := sealSecret tagged (utf8 "old") (List.replicate 12 0) "secret"

def rotatedDb : Db :=
  fun table => if table = "servers" then [⟨.fill 'a' Text.Uuid.isAlphanum_a, fun _ => some oldSecret⟩] else []

def calmWorld : World := ⟨fun _ _ => none, fun _ _ => List.replicate 12 0, fun _ _ => by rfl⟩

/-- One secret under the previous key: the pass throws and leaves it there. -/
theorem rotated_not_rewritten :
    ¬ ∃ outcome db', Pass.reencryptSecrets.run tagged (fun _ => "") none ⟨some "new", some "old", true⟩ calmWorld rotatedDb =
        (.ok outcome, db') ∧
      Covered tagged (fun _ => "") none ⟨some "new", some "old", true⟩ calmWorld rotatedDb db' outcome := by
  rintro ⟨outcome, db', hrun, -⟩
  rw [run_reencrypt] at hrun
  cases hrun

end Instances

end Yeah.Secrets
