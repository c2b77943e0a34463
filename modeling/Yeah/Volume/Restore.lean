import Yeah.Attempt
import Yeah.Compose.NamedVolumes
import Yeah.Shell.Command
import Yeah.Volume.Backups
import Yeah.Volume.Mounts

namespace Yeah.Volume.Restore

open Shell Attempt Backups

inductive LifecycleAction
  | start
  | stop
  | restart
  deriving DecidableEq

/-- A path on the server, or inside the helper container. -/
inductive Location
  | host (path : String)
  | inside (path : String)
  deriving DecidableEq

/-- The programs of the commands with their arguments. -/
inductive Tool
  | mkdir (dir : String)
  /-- `find … -mindepth 1 -delete` -/
  | empty (dir : Location)
  /-- `tar -xzf … -C …` -/
  | untar (archive dir : Location)
  | dockerRun (volume archive image : String)
  | dockerStop (container : String)
  | dockerStart (container : String)
  | dockerPs (project : String)
  /-- `[ -n "…" ]` -/
  | test (word : String)
  | echo (text : String)
  /-- `docker start`, `stop` or `restart` of the containers whose ids are in a word. -/
  | lifecycle (action : LifecycleAction) (grace : Option Nat) (ids : String)
  deriving DecidableEq

abbrev Script := Cmd Tool String String

def prog (t : Tool) : Script := .run fun _ => t

/-- `>/dev/null 2>&1` -/
def silent (s : Script) : Script := .out s fun _ => "/dev/null"

/-- `s || true`, which goes with the last command of a list. -/
def orTrue : Script → Script
  | .seq a b => .seq a (orTrue b)
  | s => .or s .nop

def composeLifecycleCommand (action : LifecycleAction) (project : String) (graceSeconds : Int) : Script :=
  let grace := graceSeconds.toNat
  .seq (.assign "ids" (prog (.dockerPs project)))
    (.seq (.or (.run fun v => .test (v "ids"))
        (.seq (prog (.echo "no container for the compose project")) (.exit fun _ => 1)))
      (match action with
        | .start => .run fun v => .lifecycle .start none (v "ids")
        | .stop => .run fun v => .lifecycle .stop (some grace) (v "ids")
        | .restart => .run fun v => .lifecycle .restart (some grace) (v "ids")))

def volumeHelperImage : String := "alpine:latest"

structure VolumeSource where
  kind : VolumeKind
  id : Text.Uuid
  hostPath : Option String
  applicationId : Text.Uuid

structure RestoreCommands where
  stop : Script
  replace : Script
  start : Script

/-- Replaces a docker volume's contents with the archive. -/
def buildNamedVolumeRestoreCommand (dockerName archivePath : String) : Script :=
  .within (fun _ => .dockerRun dockerName archivePath volumeHelperImage)
    (.and (prog (.empty (.inside "/data"))) (prog (.untar (.inside "/backup.tar.gz") (.inside "/data"))))

def sourceVolumeName (source : VolumeSource) : Except String String :=
  if source.kind = .database then
    match source.hostPath.filter (· ≠ "") with
    | none => .error "volume has no database volume"
    | some hostPath => .ok hostPath
  else .ok (volumeName source.id)

/-- `file.slice(0, file.lastIndexOf("/"))` -/
def dirOf (file : String) : String := String.ofList (file.toList.rdropWhile (· ≠ '/')).dropLast

/-- Replaces the volume's contents with the archive; the application container is stopped around it. -/
def buildVolumeRestoreCommands (source : VolumeSource) (archivePath containerName : String) :
    Except String RestoreCommands :=
  let stop := orTrue (silent (prog (.dockerStop containerName)))
  let start := orTrue (silent (prog (.dockerStart containerName)))
  match source.kind with
  | .bind =>
      match source.hostPath.filter (· ≠ "") with
      | none => .error "volume has no server directory"
      | some dir =>
          .ok ⟨stop, .and (.and (prog (.mkdir dir)) (prog (.empty (.host dir)))) (prog (.untar (.host archivePath) (.host dir))),
            start⟩
  | .file =>
      .ok ⟨stop, prog (.untar (.host archivePath) (.host (dirOf (volumeFilePath source.applicationId source.id)))), start⟩
  | .volume | .database => do
      return ⟨stop, buildNamedVolumeRestoreCommand (← sourceVolumeName source) archivePath, start⟩

/-! ### The server -/

/-- What a directory or a volume holds, by relative paths. -/
abbrev Contents := String → Option String

inductive Place
  | dir (path : String)
  | volume (name : String)
  deriving DecidableEq

/-- An archive, which cannot be read to its end if it is damaged. -/
structure Archive where
  entries : List (String × String)
  damaged : Bool
  deriving DecidableEq

/-- `mounts` is what the helper container has at `/data` and at `/backup.tar.gz`. -/
structure World where
  tree : Place → Contents
  archives : String → Option Archive
  mounts : String × String

namespace World

variable (w : World)

def place : Location → Place
  | .host path => .dir path
  | .inside _ => .volume w.mounts.1

def archive : Location → Option Archive
  | .host path => w.archives path
  | .inside _ => w.archives w.mounts.2

def setTree (p : Place) (c : Contents) : World := { w with tree := Function.update w.tree p c }

def setArchive (path : String) (a : Option Archive) : World :=
  { w with archives := Function.update w.archives path a }

end World

/-- The commands of a restore, with those that come before. -/
inductive Phase
  | prepare
  | stop
  | replace
  | start
  deriving DecidableEq

/-- How the programs end and what they print, and what the others that the job asks do. A
deletion that fails leaves the paths in `spared`, an unpacking that fails has
unpacked the first `unpacked` entries. -/
structure Outcomes where
  status : Phase → Tool → Nat
  prints : Phase → Tool → String
  spared : String → Bool
  unpacked : Nat
  connect : Option String
  download : String → String → Except String Archive

namespace Outcomes

variable (o : Outcomes)

def extract (entries : List (String × String)) (c : Contents) : Contents :=
  entries.foldl (fun c e => Function.update c e.1 (some e.2)) c

def emptied (n : Nat) (c : Contents) : Contents :=
  fun path => if n ≠ 0 ∧ o.spared path then c path else none

/-- No archive is unpacked that is not there or that is damaged. -/
def untarStatus (ph : Phase) (t : Tool) (a : Option Archive) : Nat :=
  match a with
  | none => 2
  | some a => if o.status ph t = 0 ∧ a.damaged then 2 else o.status ph t

/-- The entries that are unpacked. -/
def readEntries (n : Nat) (a : Option Archive) : List (String × String) :=
  match a with
  | none => []
  | some a => if n = 0 then a.entries else a.entries.take o.unpacked

def exec (ph : Phase) (t : Tool) (w : World) : World × String × Nat :=
  match t with
  | .test word => (w, "", if word = "" then 1 else 0)
  | .echo text => (w, text, 0)
  | .empty dir => (w.setTree (w.place dir) (o.emptied (o.status ph t) (w.tree (w.place dir))), o.prints ph t, o.status ph t)
  | .untar archive dir =>
      let n := o.untarStatus ph t (w.archive archive)
      (w.setTree (w.place dir) (extract (o.readEntries n (w.archive archive)) (w.tree (w.place dir))), o.prints ph t, n)
  | .dockerRun volume archive _ => ({ w with mounts := (volume, archive) }, o.prints ph t, o.status ph t)
  | t => (w, o.prints ph t, o.status ph t)

def machine (ph : Phase) : Machine Tool String String World where
  empty := ""
  append := (· ++ ·)
  number := toString
  exec t _ w := o.exec ph t w
  read _ _ := none
  write w _ _ := w
  glob _ _ := []

end Outcomes

/-! ### The job -/

structure Service where
  id : Text.Uuid
  serverId : String
  composeContent : Option String

/-- What the job's selects find. -/
structure Tables where
  backup : String → Option Row
  application : String → Option Application
  volume : String → Option ApplicationVolume
  service : String → Option Service
  server : String → Bool
  storageName : String → Option String
  parser : Compose.NamedVolumes.Parser

/-- Where the contents of a volume are; the code has it in its commands only. -/
inductive Held
  | dir (path : String)
  | file (dir name : String)
  | docker (name : String)

structure Target where
  serverId : String
  ownerId : String
  label : String
  held : Held
  restore : String → Except String RestoreCommands
  stopLabel : String
  startLabel : String

/-- A command that was run, the programs that it ran with their exit statuses, and its own. -/
structure Ran where
  phase : Phase
  programs : List (Tool × Nat)
  status : Nat

structure Progress where
  status : Status
  log : String
  filePath : Option String
  world : World
  ran : List Ran

def heldOf (source : VolumeSource) : Held :=
  match source.kind with
  | .bind => .dir (source.hostPath.getD "")
  | .file => .file (dirOf (volumeFilePath source.applicationId source.id)) source.id.text
  | .volume => .docker (volumeName source.id)
  | .database => .docker (source.hostPath.getD "")

def applicationTarget (db : Tables) (row sourceRow : Row) : Except String Target :=
  match db.application row.ownerId with
  | none => .error "the application or server no longer exists"
  | some application =>
      match ((sourceRow.volumeId.filter (· ≠ "")).bind db.volume).filter (·.applicationId = application.id) with
      | none => .error "the volume no longer exists (it was removed from the application)"
      | some volume =>
          let source : VolumeSource := ⟨volume.kind, volume.id, volume.hostPath, application.id⟩
          .ok
            { serverId := application.serverId
              ownerId := application.id.text
              label := volume.mountPath
              held := heldOf source
              restore := fun archive => buildVolumeRestoreCommands source archive ("yeah-app-" ++ application.id.text)
              stopLabel := "stopping the application"
              startLabel := "starting the application" }

def serviceTarget (db : Tables) (row sourceRow : Row) : Except String Target :=
  match (db.service row.ownerId).bind fun service => (service.composeContent.filter (· ≠ "")).map (service, ·) with
  | none => .error "the service no longer exists"
  | some (service, composeContent) =>
      let project := Compose.stackProject service.id
      match (Compose.NamedVolumes.composeNamedVolumes db.parser composeContent project).find? (·.key = sourceRow.label) with
      | none => .error ("the volume \"" ++ sourceRow.label ++ "\" is no longer in the service's compose file")
      | some volume =>
          .ok
            { serverId := service.serverId
              ownerId := service.id.text
              label := volume.key
              held := .docker volume.dockerName
              restore := fun archive =>
                .ok ⟨orTrue (composeLifecycleCommand .stop project 10), buildNamedVolumeRestoreCommand volume.dockerName archive,
                  orTrue (composeLifecycleCommand .start project 10)⟩
              stopLabel := "stopping the containers"
              startLabel := "starting the containers" }

def target (db : Tables) (row sourceRow : Row) : Except String Target :=
  match row.ownerType with
  | .service => serviceTarget db row sourceRow
  | .application => applicationTarget db row sourceRow

/-- A restore names its source archive. -/
def sourceRow (db : Tables) (row : Row) : Option Row :=
  ((row.sourceBackupId.filter (· ≠ "")).bind db.backup).filter fun src =>
    src.ownerId = row.ownerId ∧ (src.filePath.filter (· ≠ "")).isSome

namespace Progress

variable (p : Progress)

def append (text : String) : Progress := { p with log := p.log ++ text }

def advance (ph : Phase) (r : Result Tool String World) : Progress :=
  { p with world := r.state.world, ran := p.ran ++ [⟨ph, r.log, r.state.status⟩] }

def write (path : String) (a : Option Archive) : Progress := { p with world := p.world.setArchive path a }

end Progress

variable (o : Outcomes)

def recordOutput (output : String) (p : Progress) : Progress :=
  if Text.trim output = "" then p else p.append (if output.endsWith "\n" then output else output ++ "\n")

def ended (ph : Phase) (command : Script) (label : String) (p : Progress) : Progress :=
  let r := (o.machine ph).start command p.world
  recordOutput r.out ((p.append ("\x1b[36m$ " ++ label ++ "\x1b[0m\n")).advance ph r)

def run (ph : Phase) (command : Script) (label : String) (p : Progress) : Attempt Progress :=
  let status := ((o.machine ph).start command p.world).state.status
  if status ≠ 0 then .threw ("\"" ++ label ++ "\" exited with code " ++ toString status) (ended o ph command label p)
  else .done (ended o ph command label p)

/-- The archive on the server, and the one that was fetched for it from S3. -/
structure Fetched where
  archive : String
  staged : Option String
  progress : Progress

def fetchArchive (db : Tables) (row sourceRow : Row) (target : Target) (p : Progress) :
    Except (String × Progress) Fetched :=
  let filePath := sourceRow.filePath.getD ""
  match sourceRow.s3StorageId.filter (· ≠ "") with
  | none => .ok ⟨filePath, none, p⟩
  | some storage =>
      match db.storageName storage with
      | none => .error ("this backup's S3 destination no longer exists", p)
      | some name =>
          let dir := volumeBackupsDir target.ownerId
          let staged := dir ++ "/restore-" ++ row.id ++ ".tar.gz"
          match run o .prepare (prog (.mkdir dir)) "preparing the folder" p with
          | .threw m q => .error (m, q)
          | .done q =>
              let q := q.append ("\x1b[36m$ downloading from S3 (" ++ name ++ ")\x1b[0m\n")
              match o.download storage filePath with
              | .error m => .error (m, q)
              | .ok a => .ok ⟨staged, some staged, q.write staged (some a)⟩

/-- The job up to the stop command: the volume, its commands and the archive. -/
def prepare (db : Tables) (row : Row) (p : Progress) : Except (String × Progress) (Target × RestoreCommands × Fetched) :=
  match sourceRow db row with
  | none => .error ("the source backup no longer exists", p)
  | some src =>
      match target db row src with
      | .error m => .error (m, p)
      | .ok target =>
          if db.server target.serverId = false then .error ("the server no longer exists", p)
          else
            match o.connect with
            | some m => .error (m, p)
            | none =>
                match fetchArchive o db row src target p with
                | .error e => .error e
                | .ok f =>
                    match target.restore f.archive with
                    | .error m => .error (m, f.progress)
                    | .ok commands => .ok (target, commands, f)

def removeStaged (staged : Option String) (p : Progress) : Attempt Progress :=
  match staged with
  | none => .done p
  | some file => .done (p.write file none)

def replaceVolume (target : Target) (commands : RestoreCommands) (f : Fetched) : Attempt Progress :=
  ((run o .stop commands.stop target.stopLabel f.progress).andThen fun p =>
      (run o .replace commands.replace ("restoring " ++ target.label) p).ensure
        (run o .start commands.start target.startLabel)).ensure
    (removeStaged f.staged)

def complete (filePath : Option String) (p : Progress) : Progress :=
  { (p.append "\n\x1b[32mRestore completed.\x1b[0m\n") with status := .success, filePath := filePath }

def handler (message : String) (p : Progress) : Progress :=
  { (p.append ("\n\x1b[31mFailed: " ++ message ++ "\x1b[0m\n")) with status := .failed }

def begin (row : Row) (w : World) : Progress := ⟨.running, "", row.filePath, w, []⟩

/-- The restore of a row that could be marked as running. -/
def volumeBackup (db : Tables) (row : Row) (w : World) : Progress :=
  match prepare o db row (begin row w) with
  | .error (m, p) => handler m p
  | .ok (target, commands, f) =>
      ((replaceVolume o target commands f).andThen fun p =>
          .done (complete ((sourceRow db row).bind Row.filePath) p)).rescue (fun m p => .done (handler m p)) |>.state

/-! ### What a restore keeps to -/

namespace Held

def place : Held → Place
  | dir path => .dir path
  | file d _ => .dir d
  | docker name => .volume name

def contents (h : Held) (w : World) : Contents :=
  match h with
  | file d name => fun path => if path = name then w.tree (.dir d) path else none
  | h => w.tree h.place

/-- The replace command of each kind of volume. -/
def replace (archive : String) : Held → Script
  | dir path =>
      .and (.and (prog (.mkdir path)) (prog (.empty (.host path)))) (prog (.untar (.host archive) (.host path)))
  | file d _ => prog (.untar (.host archive) (.host d))
  | docker name => buildNamedVolumeRestoreCommand name archive

/-- What may be there when the archive was not unpacked: a file's directory with the entries that were, and
otherwise a part of what was there before, or these entries alone. -/
def Remains (h : Held) (a : Option Archive) (before after : Contents) : Prop :=
  ∃ entries, entries <+: (a.map Archive.entries).getD [] ∧
    match h with
    | file _ _ => after = Outcomes.extract entries before
    | _ => (∀ path, after path = before path ∨ after path = none) ∨ after = Outcomes.extract entries fun _ => none

end Held

def Unpacked (ran : List (Tool × Nat)) : Prop := ∃ archive dir, (Tool.untar archive dir, 0) ∈ ran

/-- What the replace command of a volume does. -/
structure Replaced (h : Held) (a : Option Archive) (w : World) (r : Result Tool String World) : Prop where
  frame : ∀ place, place ≠ h.place → r.state.world.tree place = w.tree place
  unpacked : r.state.status = 0 ↔ Unpacked r.log
  remains : ¬ Unpacked r.log → h.Remains a (w.tree h.place) (r.state.world.tree h.place)

section Replace

open Machine

variable {o}

theorem readEntries_le (n : Nat) (a : Option Archive) : o.readEntries n a <+: (a.map Archive.entries).getD [] := by
  cases a with
  | none => exact List.prefix_rfl
  | some a =>
      rw [Outcomes.readEntries]
      split_ifs
      · exact List.prefix_rfl
      · exact List.take_prefix _ _

@[simp] theorem emptied_zero (c : Contents) : o.emptied 0 c = fun _ => none := by
  funext path
  simp [Outcomes.emptied]

theorem emptied_cases (n : Nat) (c : Contents) (path : String) :
    o.emptied n c path = c path ∨ o.emptied n c path = none := by
  rw [Outcomes.emptied]
  split_ifs
  · exact Or.inl rfl
  · exact Or.inr rfl

/-- The deletion went as far as it went. -/
theorem Held.remains_part {h : Held} (hh : ∀ d name, h ≠ .file d name) (a : Option Archive) {before after : Contents}
    (hpart : ∀ path, after path = before path ∨ after path = none) :
    h.Remains a before after := by
  cases h with
  | file d name => exact absurd rfl (hh d name)
  | dir | docker => exact ⟨[], List.nil_prefix, Or.inl hpart⟩

theorem Held.remains_entries {h : Held} (hh : ∀ d name, h ≠ .file d name) (n : Nat) (a : Option Archive) (before : Contents) :
    h.Remains a before (Outcomes.extract (o.readEntries n a) fun _ => none) := by
  cases h with
  | file d name => exact absurd rfl (hh d name)
  | dir | docker => exact ⟨_, readEntries_le n a, Or.inr rfl⟩

theorem Replaced.emptied {h : Held} (hh : ∀ d name, h ≠ .file d name) (a : Option Archive) {w : World}
    {r : Result Tool String World} (hs : r.state.status ≠ 0) (hu : ¬ Unpacked r.log)
    (htree : r.state.world.tree = w.tree ∨
      ∃ n, r.state.world.tree = Function.update w.tree h.place (o.emptied n (w.tree h.place))) :
    Replaced h a w r where
  frame := by
    intro place hne
    rcases htree with htree | ⟨n, htree⟩
    · rw [htree]
    · rw [htree, Function.update_of_ne hne]
  unpacked := iff_of_false hs hu
  remains := by
    intro _
    refine h.remains_part hh a fun path => ?_
    rcases htree with htree | ⟨n, htree⟩
    · exact Or.inl (by rw [htree])
    · rw [htree, Function.update_self]
      exact emptied_cases n _ path

theorem Replaced.filled {h : Held} (hh : ∀ d name, h ≠ .file d name) (a : Option Archive) {w : World}
    {r : Result Tool String World} (hu : r.state.status = 0 ↔ Unpacked r.log)
    (htree : ∃ n, r.state.world.tree =
      Function.update w.tree h.place (Outcomes.extract (o.readEntries n a) fun _ => none)) :
    Replaced h a w r where
  frame := by
    obtain ⟨n, htree⟩ := htree
    intro place hne
    rw [htree, Function.update_of_ne hne]
  unpacked := hu
  remains := by
    obtain ⟨n, htree⟩ := htree
    intro _
    rw [htree, Function.update_self]
    exact h.remains_entries hh n a _

attribute [local simp] Machine.eval Machine.start Machine.fresh Machine.call Machine.after Machine.quiet
  State.withWorld State.withStatus State.withVars prog Outcomes.machine Outcomes.exec World.place World.archive World.setTree

variable (o) (w : World) (archive : String)

theorem replaced_file (d name : String) :
    Replaced (.file d name) (w.archives archive) w ((o.machine .replace).start ((Held.file d name).replace archive) w) where
  frame := fun place hne => Function.update_of_ne hne _ _
  unpacked := by simp [Held.replace, Unpacked, eq_comm]
  remains := fun _ => ⟨_, readEntries_le _ _, Function.update_self (f := w.tree) _ _⟩

theorem replaced_dir (path : String) :
    Replaced (.dir path) (w.archives archive) w ((o.machine .replace).start ((Held.dir path).replace archive) w) := by
  have hh : ∀ d name, Held.dir path ≠ .file d name := by simp
  by_cases hdir : o.status .replace (.mkdir path) = 0
  · by_cases hempty : o.status .replace (.empty (.host path)) = 0
    · refine .filled (o := o) hh _ ?_
        ⟨o.untarStatus .replace (.untar (.host archive) (.host path)) (w.archives archive), ?_⟩
      all_goals simp [Held.replace, hdir, hempty, Unpacked, eq_comm]
      rfl
    · refine .emptied (o := o) hh _ ?_ ?_ (Or.inr ⟨o.status .replace (.empty (.host path)), ?_⟩)
      all_goals simp [Held.replace, hdir, hempty, Unpacked]
      rfl
  · refine .emptied (o := o) hh _ ?_ ?_ (Or.inl ?_)
    all_goals simp [Held.replace, hdir, Unpacked]

theorem replaced_docker (name : String) :
    Replaced (.docker name) (w.archives archive) w ((o.machine .replace).start ((Held.docker name).replace archive) w) := by
  have hh : ∀ d n, Held.docker name ≠ .file d n := by simp
  by_cases hrun : o.status .replace (.dockerRun name archive volumeHelperImage) = 0
  · by_cases hempty : o.status .replace (.empty (.inside "/data")) = 0
    · refine .filled (o := o) hh _ ?_
        ⟨o.untarStatus .replace (.untar (.inside "/backup.tar.gz") (.inside "/data")) (w.archives archive), ?_⟩
      all_goals simp [Held.replace, buildNamedVolumeRestoreCommand, hrun, hempty, Unpacked, eq_comm]
      rfl
    · refine .emptied (o := o) hh _ ?_ ?_ (Or.inr ⟨o.status .replace (.empty (.inside "/data")), ?_⟩)
      all_goals simp [Held.replace, buildNamedVolumeRestoreCommand, hrun, hempty, Unpacked]
      rfl
  · refine .emptied (o := o) hh _ ?_ ?_ (Or.inl ?_)
    all_goals simp [Held.replace, buildNamedVolumeRestoreCommand, hrun, Unpacked]

theorem replaced (h : Held) :
    Replaced h (w.archives archive) w ((o.machine .replace).start (h.replace archive) w) := by
  cases h with
  | dir path => exact replaced_dir o w archive path
  | file d name => exact replaced_file o w archive d name
  | docker name => exact replaced_docker o w archive name

theorem container_lifecycle (ph : Phase) {t : Tool} (ht : ∀ w, o.exec ph t w = (w, o.prints ph t, o.status ph t))
    (w : World) :
    let r := (o.machine ph).start (orTrue (silent (prog t))) w
    r.state.status = 0 ∧ r.state.world = w := by
  by_cases hs : o.status ph t = 0
  all_goals simp [-Outcomes.exec, orTrue, silent, ht, hs]

theorem compose_lifecycle (ph : Phase) (action : LifecycleAction) (project : String) (graceSeconds : Int) (w : World) :
    let r := (o.machine ph).start (orTrue (composeLifecycleCommand action project graceSeconds)) w
    (r.state.status = 0 ↔ o.prints ph (.dockerPs project) ≠ "") ∧ r.state.world = w := by
  by_cases hids : o.prints ph (.dockerPs project) = ""
  · cases action <;> simp [orTrue, composeLifecycleCommand, hids]
  · cases action with
    | start =>
        by_cases hs : o.status ph (.lifecycle .start none (o.prints ph (.dockerPs project))) = 0
        all_goals simp [orTrue, composeLifecycleCommand, hids, hs]
    | stop =>
        by_cases hs : o.status ph (.lifecycle .stop (some graceSeconds.toNat) (o.prints ph (.dockerPs project))) = 0
        all_goals simp [orTrue, composeLifecycleCommand, hids, hs]
    | restart =>
        by_cases hs : o.status ph (.lifecycle .restart (some graceSeconds.toNat) (o.prints ph (.dockerPs project))) = 0
        all_goals simp [orTrue, composeLifecycleCommand, hids, hs]

end Replace

section Job

variable {o} {db : Tables} {row : Row}

@[simp] theorem recordOutput_world (output : String) (p : Progress) : (recordOutput output p).world = p.world := by
  rw [recordOutput]
  split_ifs <;> rfl

@[simp] theorem recordOutput_ran (output : String) (p : Progress) : (recordOutput output p).ran = p.ran := by
  rw [recordOutput]
  split_ifs <;> rfl

@[simp] theorem ended_world (ph : Phase) (command : Script) (label : String) (p : Progress) :
    (ended o ph command label p).world = ((o.machine ph).start command p.world).state.world :=
  recordOutput_world _ _

def ranOf (o : Outcomes) (ph : Phase) (command : Script) (w : World) : Ran :=
  ⟨ph, ((o.machine ph).start command w).log, ((o.machine ph).start command w).state.status⟩

@[simp] theorem ended_ran (ph : Phase) (command : Script) (label : String) (p : Progress) :
    (ended o ph command label p).ran = p.ran ++ [ranOf o ph command p.world] :=
  recordOutput_ran _ _

theorem run_done {ph : Phase} {command : Script} {p : Progress} (label : String)
    (h : ((o.machine ph).start command p.world).state.status = 0) :
    run o ph command label p = .done (ended o ph command label p) :=
  if_neg (not_not.2 h)

theorem run_threw {ph : Phase} {command : Script} {p : Progress} (label : String)
    (h : ((o.machine ph).start command p.world).state.status ≠ 0) :
    ∃ m, run o ph command label p = .threw m (ended o ph command label p) :=
  ⟨_, if_pos h⟩

/-- Up to `q` nothing was done but to fetch the archive. -/
structure Fetching (p q : Progress) : Prop where
  tree : q.world.tree = p.world.tree
  phases : ∀ e ∈ q.ran, e ∈ p.ran ∨ e.phase = .prepare

theorem Fetching.refl (p : Progress) : Fetching p p := ⟨rfl, fun _ he => Or.inl he⟩

theorem Fetching.append {p q : Progress} (h : Fetching p q) (text : String) : Fetching p (q.append text) :=
  ⟨h.tree, h.phases⟩

theorem Fetching.write {p q : Progress} (h : Fetching p q) (path : String) (a : Option Archive) :
    Fetching p (q.write path a) :=
  ⟨h.tree, h.phases⟩

theorem Fetching.mkdir (d label : String) (p : Progress) :
    Fetching p (ended o .prepare (prog (.mkdir d)) label p) where
  tree := by rw [ended_world]; rfl
  phases := by
    intro e he
    rw [ended_ran] at he
    rcases List.mem_append.1 he with he | he
    · exact Or.inl he
    · rw [List.mem_singleton.1 he]
      exact Or.inr rfl

theorem fetchArchive_fetching (o : Outcomes) (db : Tables) (row src : Row) (t : Target) (p : Progress) :
    (∀ e, fetchArchive o db row src t p = .error e → Fetching p e.2) ∧
      ∀ f, fetchArchive o db row src t p = .ok f → Fetching p f.progress := by
  cases hstorage : src.s3StorageId.filter (· ≠ "") with
  | none =>
      simp only [fetchArchive, hstorage, reduceCtorEq, false_imp_iff, implies_true, true_and, Except.ok.injEq]
      rintro f rfl
      exact .refl p
  | some storage =>
      cases hname : db.storageName storage with
      | none =>
          simp only [fetchArchive, hstorage, hname, reduceCtorEq, false_imp_iff, implies_true, and_true, Except.error.injEq]
          rintro e rfl
          exact .refl p
      | some name =>
          have hd := Fetching.mkdir (o := o) (volumeBackupsDir t.ownerId) "preparing the folder" p
          have happend := hd.append ("\x1b[36m$ downloading from S3 (" ++ name ++ ")\x1b[0m\n")
          by_cases hs : ((o.machine .prepare).start (prog (.mkdir (volumeBackupsDir t.ownerId))) p.world).state.status = 0
          · cases hload : o.download storage (src.filePath.getD "") with
            | error m =>
                simp only [fetchArchive, hstorage, hname, run_done _ hs, hload, reduceCtorEq, false_imp_iff, implies_true,
                  and_true, Except.error.injEq]
                rintro e rfl
                exact happend
            | ok a =>
                simp only [fetchArchive, hstorage, hname, run_done _ hs, hload, reduceCtorEq, false_imp_iff, implies_true,
                  true_and, Except.ok.injEq]
                rintro f rfl
                exact happend.write (volumeBackupsDir t.ownerId ++ "/restore-" ++ row.id ++ ".tar.gz") (some a)
          · obtain ⟨m, hm⟩ := run_threw "preparing the folder" hs
            simp only [fetchArchive, hstorage, hname, hm, reduceCtorEq, false_imp_iff, implies_true, and_true,
              Except.error.injEq]
            rintro e rfl
            dsimp only
            exact hd

/-- The commands that go with a volume. -/
structure Commanded (db : Tables) (row : Row) (held : Held) (archive : String) (commands : RestoreCommands) : Prop where
  replace : commands.replace = held.replace archive
  lifecycle : (∃ container, commands.stop = orTrue (silent (prog (.dockerStop container))) ∧
      commands.start = orTrue (silent (prog (.dockerStart container)))) ∨
    ∃ service, db.service row.ownerId = some service ∧
      commands.stop = orTrue (composeLifecycleCommand .stop (Compose.stackProject service.id) 10) ∧
      commands.start = orTrue (composeLifecycleCommand .start (Compose.stackProject service.id) 10)

theorem buildVolumeRestoreCommands_ok {source : VolumeSource} {archive container : String} {commands : RestoreCommands}
    (h : buildVolumeRestoreCommands source archive container = .ok commands) :
    Commanded db row (heldOf source) archive commands := by
  obtain ⟨kind, id, hostPath, applicationId⟩ := source
  cases kind with
  | file =>
      cases h
      exact ⟨rfl, Or.inl ⟨container, rfl, rfl⟩⟩
  | volume =>
      cases h
      exact ⟨rfl, Or.inl ⟨container, rfl, rfl⟩⟩
  | bind | database =>
      cases hostPath with
      | none => cases h
      | some path =>
          by_cases hpath : path = ""
          · subst hpath
            cases h
          · simp [buildVolumeRestoreCommands, sourceVolumeName, Option.filter_some, hpath] at h
            cases h
            exact ⟨rfl, Or.inl ⟨container, rfl, rfl⟩⟩

theorem applicationTarget_ok {src : Row} {t : Target} {archive : String} {commands : RestoreCommands}
    (ht : applicationTarget db row src = .ok t) (h : t.restore archive = .ok commands) :
    Commanded db row t.held archive commands := by
  cases happ : db.application row.ownerId with
  | none => simp [applicationTarget, happ] at ht
  | some application =>
      cases hvol : ((src.volumeId.filter (· ≠ "")).bind db.volume).filter (·.applicationId = application.id) with
      | none => simp only [applicationTarget, happ, hvol, reduceCtorEq] at ht
      | some volume =>
          simp only [applicationTarget, happ, hvol, Except.ok.injEq] at ht
          subst ht
          exact buildVolumeRestoreCommands_ok h

theorem serviceTarget_ok {src : Row} {t : Target} {archive : String} {commands : RestoreCommands}
    (ht : serviceTarget db row src = .ok t) (h : t.restore archive = .ok commands) :
    Commanded db row t.held archive commands := by
  cases hservice : (db.service row.ownerId).bind fun service =>
      (service.composeContent.filter (· ≠ "")).map (service, ·) with
  | none => simp only [serviceTarget, hservice, reduceCtorEq] at ht
  | some found =>
      obtain ⟨service, composeContent⟩ := found
      obtain ⟨s, hs, hmap⟩ := Option.bind_eq_some_iff.1 hservice
      obtain ⟨c, -, heq⟩ := Option.map_eq_some_iff.1 hmap
      cases heq
      cases hvol : (Compose.NamedVolumes.composeNamedVolumes db.parser composeContent (Compose.stackProject service.id)).find?
          (·.key = src.label) with
      | none => simp only [serviceTarget, hservice, hvol, reduceCtorEq] at ht
      | some volume =>
          simp only [serviceTarget, hservice, hvol, Except.ok.injEq] at ht
          subst ht
          cases h
          exact ⟨rfl, Or.inr ⟨service, hs, rfl, rfl⟩⟩

theorem target_ok {src : Row} {t : Target} {archive : String} {commands : RestoreCommands}
    (ht : target db row src = .ok t) (h : t.restore archive = .ok commands) :
    Commanded db row t.held archive commands := by
  rw [target] at ht
  cases howner : row.ownerType with
  | application =>
      rw [howner] at ht
      exact applicationTarget_ok ht h
  | service =>
      rw [howner] at ht
      exact serviceTarget_ok ht h

def Prepared (db : Tables) (row : Row) (p : Progress) : Except (String × Progress) (Target × RestoreCommands × Fetched) → Prop
  | .error e => Fetching p e.2
  | .ok r => Fetching p r.2.2.progress ∧ Commanded db row r.1.held r.2.2.archive r.2.1

theorem prepared (o : Outcomes) (db : Tables) (row : Row) (p : Progress) : Prepared db row p (prepare o db row p) := by
  cases hsrc : sourceRow db row with
  | none => simpa only [Prepared, prepare, hsrc] using Fetching.refl p
  | some src =>
      cases ht : target db row src with
      | error m => simpa only [Prepared, prepare, hsrc, ht] using Fetching.refl p
      | ok t =>
          by_cases hserver : db.server t.serverId = false
          · simpa only [Prepared, prepare, hsrc, ht, if_pos hserver] using Fetching.refl p
          · cases hconnect : o.connect with
            | some m => simpa only [Prepared, prepare, hsrc, ht, if_neg hserver, hconnect] using Fetching.refl p
            | none =>
                have hfetch := fetchArchive_fetching o db row src t p
                cases hf : fetchArchive o db row src t p with
                | error e => simpa only [Prepared, prepare, hsrc, ht, if_neg hserver, hconnect, hf] using hfetch.1 e hf
                | ok f =>
                    cases hc : t.restore f.archive with
                    | error m => simpa only [Prepared, prepare, hsrc, ht, if_neg hserver, hconnect, hf, hc] using hfetch.2 f hf
                    | ok commands =>
                        simp only [prepare, hsrc, ht, if_neg hserver, hconnect, hf, hc]
                        exact ⟨hfetch.2 f hf, target_ok ht hc⟩

/-- What the stop and the start command leave alone, and when the first one fails. -/
theorem Commanded.idle {held : Held} {archive : String} {commands : RestoreCommands} (h : Commanded db row held archive commands)
    (w : World) :
    ((o.machine .stop).start commands.stop w).state.world = w ∧ ((o.machine .start).start commands.start w).state.world = w ∧
      (((o.machine .stop).start commands.stop w).state.status ≠ 0 →
        ∃ service, db.service row.ownerId = some service ∧ o.prints .stop (.dockerPs (Compose.stackProject service.id)) = "") := by
  rcases h.lifecycle with ⟨container, hstop, hstart⟩ | ⟨service, hservice, hstop, hstart⟩
  · have h1 := container_lifecycle o .stop (t := .dockerStop container) (fun _ => rfl) w
    have h2 := container_lifecycle o .start (t := .dockerStart container) (fun _ => rfl) w
    rw [hstop, hstart]
    exact ⟨h1.2, h2.2, fun hne => absurd h1.1 hne⟩
  · have h1 := compose_lifecycle o .stop .stop (Compose.stackProject service.id) 10 w
    have h2 := compose_lifecycle o .start .start (Compose.stackProject service.id) 10 w
    rw [hstop, hstart]
    exact ⟨h1.2, h2.2, fun hne => ⟨service, hservice, not_not.1 fun hids => hne (h1.1.2 hids)⟩⟩

end Job

def Progress.Unpacked (p : Progress) : Prop := ∃ e ∈ p.ran, e.phase = .replace ∧ Restore.Unpacked e.programs

/-- How a restore goes whose archive was fetched into `f`. -/
structure Attempted (o : Outcomes) (db : Tables) (row : Row) (w : World) (held : Held) (f : Fetched) (p : Progress) : Prop where
  /-- The containers are started again, unless the stop failed; then nothing was replaced. -/
  commands : (∃ stop replace start, p.ran = f.progress.ran ++ [stop, replace, start] ∧
      stop.phase = .stop ∧ stop.status = 0 ∧ replace.phase = .replace ∧ start.phase = .start) ∨
    p.world.tree = w.tree ∧ (∃ stop, p.ran = f.progress.ran ++ [stop] ∧ stop.phase = .stop ∧ stop.status ≠ 0) ∧
      ∃ service, db.service row.ownerId = some service ∧ o.prints .stop (.dockerPs (Compose.stackProject service.id)) = ""
  frame : ∀ place, place ≠ held.place → p.world.tree place = w.tree place
  remains : ¬ p.Unpacked → held.Remains (f.progress.world.archives f.archive) (w.tree held.place) (p.world.tree held.place)

section Outcome

variable {o} {db : Tables} {row : Row} {w : World}

theorem Progress.unpacked_iff {p : Progress} {l : List Ran} {stop replace start : Ran} (hl : ∀ e ∈ l, e.phase = .prepare)
    (h : p.ran = l ++ [stop, replace, start]) (hstop : stop.phase = .stop) (hreplace : replace.phase = .replace)
    (hstart : start.phase = .start) :
    p.Unpacked ↔ Restore.Unpacked replace.programs := by
  constructor
  · rintro ⟨e, he, hphase, hu⟩
    rw [h, List.mem_append] at he
    rcases he with he | he
    · rw [hl e he] at hphase
      cases hphase
    · simp only [List.mem_cons, List.not_mem_nil, or_false] at he
      rcases he with rfl | rfl | rfl
      · rw [hstop] at hphase
        cases hphase
      · exact hu
      · rw [hstart] at hphase
        cases hphase
  · intro hu
    exact ⟨replace, by simp [h], hreplace, hu⟩

theorem removeStaged_done (staged : Option String) (p : Progress) :
    ∃ q, removeStaged staged p = .done q ∧ q.ran = p.ran ∧ q.world.tree = p.world.tree := by
  cases staged with
  | none => exact ⟨p, rfl, rfl, rfl⟩
  | some file => exact ⟨_, rfl, rfl, rfl⟩

theorem ends_removeStaged {r : Attempt Progress} {P R : Progress → Prop} (staged : Option String)
    (hP : ∀ p q, q.ran = p.ran → q.world.tree = p.world.tree → P p → P q)
    (hR : ∀ p q, q.ran = p.ran → q.world.tree = p.world.tree → R p → R q) (h : r.Ends P R) :
    (r.ensure (removeStaged staged)).Ends P R := by
  refine ends_ensure_iff.2 (h.imp (fun p hp => ?_) fun p hp => ?_)
  · obtain ⟨q, hq, hran, htree⟩ := removeStaged_done staged p
    rw [hq]
    exact hP p q hran htree hp
  · obtain ⟨q, hq, hran, htree⟩ := removeStaged_done staged p
    rw [hq]
    exact hR p q hran htree hp

theorem Held.remains_refl (h : Held) (a : Option Archive) (c : Contents) : h.Remains a c c := by
  cases h with
  | file => exact ⟨[], List.nil_prefix, rfl⟩
  | dir | docker => exact ⟨[], List.nil_prefix, Or.inl fun _ => Or.inl rfl⟩

variable {held : Held} {f : Fetched} {commands : RestoreCommands}

theorem Attempted.congr {p q : Progress} (h : Attempted o db row w held f p) (hran : q.ran = p.ran)
    (htree : q.world.tree = p.world.tree) :
    Attempted o db row w held f q where
  commands := by
    rw [hran, htree]
    exact h.commands
  frame := by
    rw [htree]
    exact h.frame
  remains := by
    rw [Progress.Unpacked, hran, htree]
    exact h.remains

theorem attempted_stopped (hf : Fetching (begin row w) f.progress) (hc : Commanded db row held f.archive commands)
    (label : String) (hs : ((o.machine .stop).start commands.stop f.progress.world).state.status ≠ 0) :
    Attempted o db row w held f (ended o .stop commands.stop label f.progress) := by
  have htree : (ended o .stop commands.stop label f.progress).world.tree = w.tree := by
    rw [ended_world, (hc.idle f.progress.world).1]
    exact hf.tree
  exact
    { commands := Or.inr ⟨htree, ⟨_, ended_ran _ _ _ _, rfl, hs⟩, (hc.idle _).2.2 hs⟩
      frame := fun place _ => by rw [htree]
      remains := fun _ => by
        rw [htree]
        exact held.remains_refl _ _ }

/-- The three commands. -/
def threefold (o : Outcomes) (commands : RestoreCommands) (label label' label'' : String) (p : Progress) : Progress :=
  ended o .start commands.start label'' (ended o .replace commands.replace label' (ended o .stop commands.stop label p))

theorem attempted_threefold (hf : Fetching (begin row w) f.progress) (hc : Commanded db row held f.archive commands)
    (label label' label'' : String) (hs : ((o.machine .stop).start commands.stop f.progress.world).state.status = 0) :
    Attempted o db row w held f (threefold o commands label label' label'' f.progress) ∧
      ((threefold o commands label label' label'' f.progress).Unpacked ↔
        ((o.machine .replace).start commands.replace f.progress.world).state.status = 0) := by
  have hstop : (ended o .stop commands.stop label f.progress).world = f.progress.world := by
    rw [ended_world, (hc.idle f.progress.world).1]
  have hreplace := replaced o f.progress.world f.archive held
  rw [← hc.replace] at hreplace
  have hworld : (threefold o commands label label' label'' f.progress).world =
      ((o.machine .replace).start commands.replace f.progress.world).state.world := by
    rw [threefold, ended_world, (hc.idle _).2.1, ended_world, hstop]
  have hran : (threefold o commands label label' label'' f.progress).ran = f.progress.ran ++
      [ranOf o .stop commands.stop f.progress.world, ranOf o .replace commands.replace f.progress.world,
        ranOf o .start commands.start (ended o .replace commands.replace label'
          (ended o .stop commands.stop label f.progress)).world] := by
    rw [threefold, ended_ran, ended_ran, ended_ran, hstop]
    simp only [List.append_assoc, List.cons_append, List.nil_append]
  have hprepare : ∀ e ∈ f.progress.ran, e.phase = .prepare := by
    intro e he
    exact (hf.phases e he).resolve_left (by simp [begin])
  have hunpacked := Progress.unpacked_iff hprepare hran rfl rfl rfl
  have htree : f.progress.world.tree = w.tree := hf.tree
  refine ⟨⟨Or.inl ⟨_, _, _, hran, rfl, hs, rfl, rfl⟩, fun place hne => ?_, fun hn => ?_⟩, hunpacked.trans hreplace.unpacked.symm⟩
  · rw [hworld, hreplace.frame place hne, htree]
  · rw [hworld, ← htree]
    exact hreplace.remains fun hu => hn (hunpacked.2 hu)

theorem replaceVolume_ends (hf : Fetching (begin row w) f.progress) (t : Target)
    (hc : Commanded db row held f.archive commands) :
    (replaceVolume o t commands f).Ends (fun p => Attempted o db row w held f p ∧ p.Unpacked) (Attempted o db row w held f) := by
  refine ends_removeStaged f.staged
    (fun p q hran htree hp => ⟨hp.1.congr hran htree, by rw [Progress.Unpacked, hran]; exact hp.2⟩)
    (fun p q hran htree hp => hp.congr hran htree) ?_
  by_cases hs : ((o.machine .stop).start commands.stop f.progress.world).state.status = 0
  case neg =>
    obtain ⟨m, hm⟩ := run_threw t.stopLabel hs
    rw [hm]
    exact attempted_stopped hf hc t.stopLabel hs
  obtain ⟨hall, hu⟩ := attempted_threefold hf hc t.stopLabel ("restoring " ++ t.label) t.startLabel hs
  have hstop : (ended o .stop commands.stop t.stopLabel f.progress).world = f.progress.world := by
    rw [ended_world, (hc.idle f.progress.world).1]
  rw [run_done t.stopLabel hs, done_andThen]
  -- The start command runs after either end of the replacement.
  have hstart (r : Attempted o db row w held f (threefold o commands t.stopLabel ("restoring " ++ t.label) t.startLabel f.progress))
      (P : Progress → Prop) (hP : P (threefold o commands t.stopLabel ("restoring " ++ t.label) t.startLabel f.progress)) :
      (run o .start commands.start t.startLabel (ended o .replace commands.replace ("restoring " ++ t.label)
        (ended o .stop commands.stop t.stopLabel f.progress))).Ends P (Attempted o db row w held f) := by
    rw [run]
    split_ifs
    · exact r
    · exact hP
  by_cases hr : ((o.machine .replace).start commands.replace
      (ended o .stop commands.stop t.stopLabel f.progress).world).state.status = 0
  · rw [run_done _ hr]
    rw [hstop] at hr
    exact hstart hall _ ⟨hall, hu.2 hr⟩
  · obtain ⟨m, hm⟩ := run_threw ("restoring " ++ t.label) hr
    rw [hm]
    exact (hstart hall _ hall).andThen fun p hp => hp

end Outcome

end Yeah.Volume.Restore
