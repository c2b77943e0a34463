import Yeah.Databases.Dump
import Yeah.Attempt

namespace Yeah.Databases

open Shell Attempt

structure RestoreStep (β : Type) where
  label : String
  command : Script β
  /-- A failure here does not stop the restore. -/
  allowFailure : Bool := false

variable {β W : Type}

/-- Turns `file` into a plain `out`: gunzip when it starts with the gzip magic bytes, a copy otherwise. -/
def plainCopyCommand (file out : Location) : Script β :=
  .ite (prog (.isGzip file)) (toFile (prog (.gunzip file)) out) (prog (.copy file out))

/-- `psql … -tAc "SELECT 1 …" | grep -q 1 || psql … -c 'CREATE DATABASE …'` -/
def createMissing (database : Database) (container : String) (name : Vars (Data β) → String) : Script β :=
  .or (.pipe (.run fun v => .exec container (.psql (database.user "postgres") "postgres" (.find (name v))))
      (prog (.grep "1")))
    (.run fun v => .exec container (.psql (database.user "postgres") "postgres" (.create (name v))))

def mysqlClient (engine : Engine) : String := if engine = .mysql then "mysql" else "mariadb"

/-- Wipes a database so the dump can be loaded into a clean one. -/
def resetDatabase (database : Database) (container name : String) : List (RestoreStep β) :=
  match database.engine with
  | .postgresql =>
      let reset : RestoreStep β :=
        { label := s!"cleaning the schema of {name}"
          command := prog (.exec container (.psql (database.user "postgres") name .clean)) }
      if name = database.primary then [reset]
      else
        [{ label := s!"creating database {name}"
           command := createMissing database container fun _ => name }, reset]
  | .mysql | .mariadb =>
      [{ label := s!"recreating database {name}"
         command := prog (.exec container (.mysql (mysqlClient database.engine) database.password
           (.recreate name (database.user "app" ++ "@\"%\"")))) }]
  | _ => []

/-- Loads one plain dump into `name`. -/
def loadOne (database : Database) (container name plainFile : String) : Except String (Script β) :=
  match database.engine with
  | .postgresql => .ok (fromFile (prog (.exec container (.psqlLoad (database.user "postgres") name))) (.host plainFile))
  | .mysql => .ok (fromFile (prog (.exec container (.mysqlLoad "mysql" database.password name))) (.host plainFile))
  | .mariadb => .ok (fromFile (prog (.exec container (.mysqlLoad "mariadb" database.password name))) (.host plainFile))
  | .mongodb =>
      .ok (fromFile (prog (.exec container
        (.mongorestore false database.ssl (database.user "root") database.password name))) (.host plainFile))
  | engine => .error s!"loadOne: {engine.text}"

/-- Body of the loop over an unpacked archive: `$f` is the dump, `$n` its name. -/
def restoreLoopBody (database : Database) (container : String) : Script β :=
  match database.engine with
  | .postgresql =>
      .seq (.or (createMissing database container fun v => (v "n").text) (.exit fun _ => 1))
        (.or (.and (.run fun v => .exec container (.psql (database.user "postgres") (v "n").text .clean))
            (.inp (.run fun v => .exec container (.psqlLoad (database.user "postgres") (v "n").text))
              fun v => (v "f").target))
          (.exit fun _ => 1))
  | .mysql | .mariadb =>
      .or (.and (.run fun v => .exec container (.mysql (mysqlClient database.engine) database.password
            (.recreate (v "n").text ("'" ++ database.user "app" ++ "'@'%'"))))
          (.inp (.run fun v => .exec container
              (.mysqlLoad (mysqlClient database.engine) database.password (v "n").text))
            fun v => (v "f").target))
        (.exit fun _ => 1)
  | .mongodb =>
      .or (.inp (.run fun v => .exec container
            (.mongorestore false database.ssl (database.user "root") database.password (v "n").text))
          fun v => (v "f").target)
        (.exit fun _ => 1)
  | _ => .nop

/-- Every file of the archive is one database, named after the file. -/
def restoreLoop (database : Database) (container dir : String) : Script β :=
  .each "f" (fun _ => .entry dir "*" (innerExt database.engine))
    (.seq (.assign "n" (.run fun v => .basename (v "f").target ("." ++ innerExt database.engine)))
      (restoreLoopBody database container))

/-- The script that loads a dump into a file next to the SQLite database and moves it over it. -/
def sqliteScript (dbFile : String) : Script β :=
  .seq (.set "t" fun _ => .word (dbFile ++ ".restore"))
    (.seq (.run fun v => .remove [.inside (v "t").text, .inside ((v "t").text ++ "-journal")])
      (.ite (.and (.run fun v => .sqliteLoad (.inside (v "t").text))
          (.run fun v => .chmod "666" (.inside (v "t").text)))
        (.and (prog (.remove [.inside (dbFile ++ "-wal"), .inside (dbFile ++ "-shm"), .inside (dbFile ++ "-journal")]))
          (.run fun v => .move (.inside (v "t").text) (.inside dbFile)))
        (.seq (.status "rc")
          (.seq (.run fun v => .remove [.inside (v "t").text, .inside ((v "t").text ++ "-journal")]) (.exit fun v => (v "rc").code)))))

def removeAof : Tool := .remove [.inside "/data/appendonlydir", .inside "/data/appendonly.aof"]

def copyAof : Tool := .copy (.inside "/data/dump.rdb") (.inside "/data/appendonly.aof")

/-- The script that puts a dump in the place of the files of a Redis data volume. -/
def redisScript : Script β :=
  .seq
    (.and (.and (.and (prog removeAof) (plainCopyCommand (.inside "/restore.rdb") (.inside "/data/dump.rdb")))
        (prog copyAof))
      (prog (.chown (.inside "/data") [.inside "/data/dump.rdb", .inside "/data/appendonly.aof"])))
    .nop

/-- `/\.gz$/` -/
def isGz (filePath : String) : Bool := ".gz".toList <:+ filePath.toList

/-- The path inside the backups folder, unless it is empty. -/
def inBackups (filePath backupsDir : String) : Option String :=
  if (backupsDir ++ "/").toList <+: filePath.toList then
    let rest := String.ofList (filePath.toList.drop (backupsDir ++ "/").length)
    if rest = "" then none else some rest
  else none

def multiSteps (database : Database) (containerName filePath : String) : List (RestoreStep β) :=
  let plain := filePath ++ ".plain"
  let dir := filePath ++ ".d"
  [{ label := "extracting the multi-database archive"
     command :=
       .and (.and (.and (plainCopyCommand (.host filePath) (.host plain)) (prog (.remove [.host dir]))) (prog (.mkdir dir)))
       (prog (.tarExtract plain dir)) },
   { label := "restoring each database"
     command := restoreLoop database containerName dir },
   { label := "cleaning up temporary files"
     command := prog (.remove [.host plain, .host dir])
     allowFailure := true }]

/-- Stops the container, replaces its files and starts it again. -/
def replaceSteps (database : Database) (container volume file : String) : List (RestoreStep β) :=
  [{ label := "stopping the database", command := prog (.dockerStop container) },
    { label := "placing the dump in the data volume"
      command := .within (fun _ => .dockerRun volume file database.image) redisScript },
    { label := "starting the database", command := prog (.dockerStart container) }]

/-- Steps that put `filePath` back into the database, replacing what is there. -/
def buildRestoreSteps (database : Database) (containerName filePath volumeName backupsDir now : String) :
    Except String (List (RestoreStep β)) :=
  let plain := filePath ++ ".plain"
  let cleanup : RestoreStep β :=
    { label := "cleaning up temporary files"
      command := prog (.remove [.host plain, .host (filePath ++ ".d")])
      allowFailure := true }
  match database.engine with
  | .postgresql | .mysql | .mariadb =>
      if isMultiArchive filePath then .ok (multiSteps database containerName filePath)
      else do
        let name := database.primary
        return { label := "preparing the dump", command := plainCopyCommand (.host filePath) (.host plain) } ::
          (resetDatabase database containerName name ++
            [{ label := s!"loading the dump into {name}"
               command := ← loadOne database containerName name plain }, cleanup])
  | .mongodb =>
      if isMultiArchive filePath then .ok (multiSteps database containerName filePath)
      else
        let name := database.primary
        .ok [{ label := s!"restoring {name}"
               command := fromFile (prog (.exec containerName (.mongorestore (isGz filePath) database.ssl
                 (database.user "root") database.password name))) (.host filePath) }]
  | .sqlite =>
      let dbFile := sqliteFilePath database.databaseName
      .ok [{ label := "preparing the dump", command := plainCopyCommand (.host filePath) (.host plain) },
        { label := s!"replacing {dbFile} with the dump"
          command := fromFile (.within (fun _ => .exec containerName .sh) (sqliteScript dbFile)) (.host plain) },
        cleanup]
  | .redis | .keydb | .dragonfly =>
      .ok (replaceSteps database containerName volumeName filePath)
  | .clickhouse =>
      let name := database.primary
      let archive := (inBackups filePath backupsDir).getD s!"restore-{now}.zip"
      let target := s!"{backupsDir}/{archive}"
      let query (sql : Sql) : Script β :=
        prog (.exec containerName (.clickhouse (database.user "app") database.password sql))
      .ok ((if inBackups filePath backupsDir = none then
          [{ label := "copying the file into the backups folder"
             command := .and (prog (.copy (.host filePath) (.host target))) (prog (.chmod "644" (.host target))) }]
        else []) ++
        [{ label := s!"dropping the current database {name}", command := query (.drop name) },
          { label := s!"restoring {name}", command := query (.restore name archive) }])

inductive Status
  | running
  | success
  | failed
  deriving DecidableEq

/-- A finished or unfinished backup, with the database that its schedule points at. -/
structure Execution where
  filePath : Option String
  success : Bool
  databaseId : Option String
  s3StorageId : Option String

inductive Source
  | upload (path : String)
  | execution (found : Option Execution)

/-- A restore and what lies outside the server's shell: whether the connection is made, the
name of an S3 destination that still exists, and what a download delivers or how it fails. -/
structure Job (β : Type) where
  database : Database
  databaseId : String
  source : Source
  now : String
  connect : Option String
  storageName : String → Option String
  download : String → String → Except String (Data β)
  /-- The text of a command's output. -/
  render : Data β → String

/-- The row's status and log, the file that is restored and the one to remove at the end,
the server, and the programs that ran with their exit statuses. -/
structure Progress (W : Type) where
  status : Status
  log : String
  filePath : String
  tempFile : Option String
  world : W
  ran : List (Tool × Nat)

namespace Progress

variable (p : Progress W)

def append (text : String) : Progress W := { p with log := p.log ++ text }

def advance (r : Result Tool (Data β) W) : Progress W :=
  { p with world := r.state.world, ran := p.ran ++ r.log }

def withFile (filePath : String) : Progress W := { p with filePath := filePath }

def withTemp (filePath : String) : Progress W :=
  { p with filePath := filePath, tempFile := some filePath }

def withStatus (status : Status) : Progress W := { p with status := status }

def withWorld (world : W) : Progress W := { p with world := world }

end Progress

def containerNameForDatabase (databaseId : String) : String := s!"yeah-db-{databaseId}"

def dbBackupsDir (databaseId : String) : String := s!"/opt/yeah-backups/{databaseId}"

variable (M : Machine Tool Path (Data β) W) (job : Job β)

def recordOutput (output : String) (p : Progress W) : Progress W :=
  if Text.trim output = "" then p else p.append (if output.endsWith "\n" then output else output ++ "\n")

def stepped (step : RestoreStep β) (p : Progress W) : Progress W :=
  let r := M.start step.command p.world
  recordOutput (job.render r.out) ((p.append s!"\x1b[36m$ {step.label}\x1b[0m\n").advance r)

def runStep (step : RestoreStep β) (p : Progress W) : Attempt (Progress W) :=
  let status := (M.start step.command p.world).state.status
  if status ≠ 0 ∧ step.allowFailure = false then
    .threw s!"\"{step.label}\" exited with code {status}" (stepped M job step p)
  else .done (stepped M job step p)

def runSteps : List (RestoreStep β) → Progress W → Attempt (Progress W)
  | [], p => .done p
  | step :: steps, p => (runStep M job step p).andThen (runSteps steps)

/-- The file of a backup, brought to the server when it lies in S3. -/
def fetchExecution (execution : Execution) (p : Progress W) : Attempt (Progress W) :=
  match execution.filePath with
  | none => .threw "this backup does not exist or did not finish successfully" p
  | some filePath =>
      if filePath = "" ∨ execution.success = false then
        .threw "this backup does not exist or did not finish successfully" p
      else if execution.databaseId ≠ some job.databaseId then .threw "this backup belongs to another database" p
      else
        match execution.s3StorageId with
        | none =>
            runStep M job { label := "checking the backup file", command := prog (.isFile filePath) }
              (p.withFile filePath)
        | some storage =>
            match job.storageName storage with
            | none => .threw "this backup's S3 destination no longer exists" p
            | some name =>
                let target := s!"{dbBackupsDir job.databaseId}/restore-{job.now}-{fileName filePath}"
                let p := p.append s!"\x1b[36m$ downloading from S3 ({name})\x1b[0m\n"
                match job.download storage filePath with
                | .error m => .threw m p
                | .ok d => .done ((p.withWorld (M.write p.world (.file (.host target)) d)).withTemp target)

def fetch (p : Progress W) : Attempt (Progress W) :=
  match job.source with
  | .upload path => .done (p.withTemp path)
  | .execution none => .threw "this backup does not exist or did not finish successfully" p
  | .execution (some execution) => fetchExecution M job execution p

def restoreSteps (p : Progress W) : Attempt (Progress W) :=
  match buildRestoreSteps job.database (containerNameForDatabase job.databaseId) p.filePath
      s!"{containerNameForDatabase job.databaseId}-data" (dbBackupsDir job.databaseId) job.now with
  | .error m => .threw m p
  | .ok steps => runSteps M job steps p

def prepare (p : Progress W) : Attempt (Progress W) :=
  ((await job.connect id p).andThen (runStep M job
    { label := "preparing the backups folder", command := prog (.mkdir (dbBackupsDir job.databaseId)) })).andThen
    (fetch M job)

def complete (p : Progress W) : Progress W :=
  (p.append "\n\x1b[32mRestore completed.\x1b[0m\n").withStatus .success

def handler (message : String) (p : Progress W) : Progress W :=
  (p.append s!"\n\x1b[31mRestore failed: {message}\x1b[0m\n").withStatus .failed

/-- `finally`: the fetched file goes. -/
def removeTemp (p : Progress W) : Progress W :=
  match p.tempFile with
  | none => p
  | some file => p.advance (M.start (prog (.remove [.host file])) p.world)

/-- The run of a restore whose row could be marked as running. -/
def restoreDatabase (w : W) : Progress W :=
  let p : Progress W := ⟨.running, "", "", none, w, []⟩
  removeTemp M ((((prepare M job p).andThen (restoreSteps M job)).andThen fun p => .done (complete p)).rescue
    fun m p => .done (handler m p)).state

end Yeah.Databases
