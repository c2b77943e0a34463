import Yeah.Databases.Tool
import Yeah.Text.Space

namespace Yeah.Databases

open Shell

variable {β : Type}

def Engine.text : Engine → String
  | .postgresql => "postgresql"
  | .mysql => "mysql"
  | .mariadb => "mariadb"
  | .redis => "redis"
  | .keydb => "keydb"
  | .dragonfly => "dragonfly"
  | .clickhouse => "clickhouse"
  | .mongodb => "mongodb"
  | .sqlite => "sqlite"

def supportsMultiDatabase (engine : Engine) : Bool :=
  engine = .postgresql || engine = .mysql || engine = .mariadb || engine = .mongodb

/-- `list.split(/[,\s]+/)`, trimmed, without the empty pieces. -/
def words (list : String) : List String :=
  ((list.toList.splitOnP fun c => c == ',' || Text.isSpace c.toNat).map fun w => Text.trim (String.ofList w)).filter
    (· ≠ "")

def includedDatabases (database : Database) (list : Option String) : List String :=
  let unique := (words (list.getD "")).eraseDups
  if unique = [] ∨ supportsMultiDatabase database.engine = false then [database.primary] else unique

/-- `GZ=$(command -v pigz || command -v gzip)` -/
def compressorSetup : Script β :=
  .assign "GZ" (.or (.run fun _ => .commandV "pigz") (.run fun _ => .commandV "gzip"))

def gz : Script β := .run fun v => .compress (v "GZ").text

def prog (t : Tool) : Script β := .run fun _ => t

def toFile (a : Script β) (path : Location) : Script β := .out a fun _ => .file path

def fromFile (a : Script β) (path : Location) : Script β := .inp a fun _ => .file path

/-- `rc=$?; rm -rf "$tmp"; exit $rc` -/
def finish : Script β :=
  .seq (.status "rc") (.seq (.run fun v => .remove [.host (v "tmp").text]) (.exit fun v => (v "rc").code))

def dumpOne (database : Database) (container name : String) : Except String Tool :=
  match database.engine with
  | .postgresql => .ok (.exec container (.pgDump (database.user "postgres") name))
  | .mysql => .ok (.exec container (.mysqldump "mysqldump" database.password (database.user "app") name))
  | .mariadb => .ok (.exec container (.mysqldump "mariadb-dump" database.password (database.user "app") name))
  | .mongodb =>
      .ok (.exec container (.mongodump false database.ssl (database.user "root") database.password name))
  | engine => .error s!"dumpOne: {engine.text} has no per-database dump"

/-- `.replace("--archive ", "--archive --gzip ")` -/
def withGzip : Tool → Tool
  | .exec container (.mongodump _ ssl user password name) => .exec container (.mongodump true ssl user password name)
  | t => t

def innerExt (engine : Engine) : String := if engine = .mongodb then "archive" else "sql"

/-- `/\.tar\.gz$/` -/
def isMultiArchive (filePath : String) : Bool := ".tar.gz".toList <:+ filePath.toList

def dumpFileName (database : Database) (names : List String) (timestamp : String) : String :=
  let label := if 1 < names.length then "multi" else names.headD database.name
  if 1 < names.length then s!"{database.engine.text}-dump-{label}-{timestamp}.tar.gz"
  else
    match database.engine with
    | .postgresql => s!"pg-dump-{label}-{timestamp}.sql.gz"
    | .mysql => s!"mysql-dump-{label}-{timestamp}.sql.gz"
    | .mariadb => s!"mariadb-dump-{label}-{timestamp}.sql.gz"
    | .redis => s!"redis-dump-{label}-{timestamp}.rdb.gz"
    | .keydb => s!"keydb-dump-{label}-{timestamp}.rdb.gz"
    | .dragonfly => s!"dragonfly-dump-{label}-{timestamp}.rdb.gz"
    | .clickhouse => s!"clickhouse-backup-{label}-{timestamp}.zip"
    | .mongodb => s!"mongo-dump-{label}-{timestamp}.archive.gz"
    | .sqlite => s!"sqlite-dump-{label}-{timestamp}.sql.gz"

def sqliteMountDir : String := "/data"

def sqliteFileName (databaseName : Option String) : String :=
  let cleaned := String.ofList (((databaseName.getD "").toList.flatMap fun c =>
    if c.isAlphanum || c == '_' || c == '-' then [c]
    else List.replicate (if c.toNat < 0x10000 then 1 else 2) '_').take 63)
  (if cleaned = "" then "app" else cleaned) ++ ".db"

def sqliteFilePath (databaseName : Option String) : String :=
  s!"{sqliteMountDir}/{sqliteFileName databaseName}"

/-- `path.split("/").pop()` -/
def fileName (path : String) : String := String.ofList ((path.toList.splitOn '/').getLastD [])

def dumpNamed (database : Database) (container name : String) : Except String (String × Tool) := do
  return (name, ← dumpOne database container name)

/-- One dump of several: `… > "$tmp/name.ext" || exit 1`. -/
def dumpInto (ext : String) (d : String × Tool) : Script β :=
  .or (.out (prog d.2) fun v => .entry (v "tmp").text d.1 ext) (.exit fun _ => 1)

def dumpAll (ext : String) (ds : List (String × Tool)) : Script β := .sequence (ds.map (dumpInto ext))

theorem dumpAll_cons (ext : String) (d e : String × Tool) (ds : List (String × Tool)) :
    (dumpAll ext (d :: e :: ds) : Script β) = .seq (dumpInto ext d) (dumpAll ext (e :: ds)) := rfl

/-- `tmp=$(mktemp -d) && (…)` -/
def collect (ext : String) (ds : List (String × Tool)) : Script β :=
  .and (.assign "tmp" (prog .mktemp)) (.sub (dumpAll ext ds))

/-- `… | $GZ > file` -/
def feed (p : Vars (Data β) → Tool) (filePath : String) : Script β :=
  .pipe (.run p) (toFile gz (.host filePath))

/-- `… .dump > "$tmp" && $GZ < "$tmp" > file` -/
def sqliteDump (t : Tool) (filePath : String) : Script β :=
  .and (.out (prog t) fun v => (v "tmp").target) (toFile (.inp gz fun v => (v "tmp").target) (.host filePath))

def rdbTool (database : Database) (container : String) : Tool :=
  .exec container (.rdb (if database.engine = .redis then "redis-cli" else "keydb-cli") database.ssl
    database.password "/tmp/dump.rdb")

def buildDumpCommand (database : Database) (containerName filePath : String) (names : List String) :
    Except String (Script β) :=
  if 1 < names.length then do
    let ds ← names.mapM (dumpNamed database containerName)
    return .seq compressorSetup (.seq
      (.and (collect (innerExt database.engine) ds) (feed (fun v => .tarCreate (v "tmp").text) filePath))
      finish)
  else
    let name := names.headD database.primary
    match database.engine with
    | .postgresql | .mysql | .mariadb => do
        let t ← dumpOne database containerName name
        return .seq compressorSetup (feed (fun _ => t) filePath)
    | .mongodb => do return toFile (prog (withGzip (← dumpOne database containerName name))) (.host filePath)
    | .redis | .keydb =>
        .ok (.seq compressorSetup (.and (toFile (prog (rdbTool database containerName)) (.host "/dev/null"))
          (feed (fun _ => .exec containerName (.cat "/tmp/dump.rdb")) filePath)))
    | .sqlite =>
        .ok (.seq compressorSetup (.seq (.set "tmp" fun _ => .word (filePath ++ ".tmp")) (.seq
          (sqliteDump (.exec containerName (.sqliteDump (sqliteFilePath database.databaseName))) filePath)
          finish)))
    | .dragonfly => .error "Dragonfly has no client in its image — backup is not supported for this engine yet"
    | .clickhouse =>
        .ok (prog (.exec containerName (.clickhouse (database.user "app") database.password
          (.backup name (fileName filePath)))))

theorem mapM_dumpNamed {database : Database} {container : String} {names : List String}
    {ds : List (String × Tool)} (h : names.mapM (dumpNamed database container) = .ok ds) :
    ds.map Prod.fst = names ∧ ∀ d ∈ ds, dumpOne database container d.1 = .ok d.2 := by
  induction names generalizing ds with
  | nil =>
      obtain rfl : [] = ds := by simpa [pure, Except.pure] using h
      simp
  | cons n names ih =>
      rw [List.mapM_cons] at h
      cases ht : dumpOne database container n with
      | error m => simp [dumpNamed, ht, bind, Except.bind] at h
      | ok t =>
          have hn : dumpNamed database container n = .ok (n, t) := by
            simp [dumpNamed, ht, bind, Except.bind, pure, Except.pure]
          cases hm : names.mapM (dumpNamed database container) with
          | error m => simp [hn, hm, bind, Except.bind] at h
          | ok es =>
              obtain rfl : (n, t) :: es = ds := by
                simpa [hn, hm, bind, Except.bind, pure, Except.pure] using h
              obtain ⟨h₁, h₂⟩ := ih hm
              exact ⟨by simp [h₁], List.forall_mem_cons.mpr ⟨ht, h₂⟩⟩

end Yeah.Databases
