import Yeah.Databases.Tool
import Mathlib.Data.List.Sort

namespace Yeah.Databases

open Shell

/-- What the dump and restore commands see of a server: files, directories with their
entries, and what each database holds. -/
structure World (β : Type) where
  file : Location → Option (Data (List β))
  dir : String → Option (List (String × String × Data (List β)))
  db : String → Option (List β)

namespace World

variable {β : Type} (w : World β)

def setFile (l : Location) (d : Option (Data (List β))) : World β :=
  { w with file := Function.update w.file l d }

def setDir (p : String) (es : Option (List (String × String × Data (List β)))) : World β :=
  { w with dir := Function.update w.dir p es }

def setDb (name : String) (b : List β) : World β := { w with db := Function.update w.db name (some b) }

/-- `rm -rf` -/
def remove : List Location → World β
  | [] => w
  | .host p :: ls => remove ls |>.setFile (.host p) none |>.setDir p none
  | .inside p :: ls => remove ls |>.setFile (.inside p) none

end World

/-- A name that a file in a directory can have and a glob finds. -/
def isFileName (name : String) : Bool :=
  name.toList.all (· ≠ '/') && name.toList.headD '.' ≠ '.'

/-- What the documentation of the programs leaves open: whether `pigz` is there, the name that
`mktemp` picks, what survives of a database that `mongorestore --drop` loads a dump into, and the
effect of a statement that is not the one meant once a name is spliced into its text. -/
structure Server (β : Type) where
  pigz : Bool
  unique : World β → String
  survivors : List β → List β → List β
  altered : Sql → Option (World β → World β × Nat)

namespace Server

variable {β : Type} (S : Server β)

def tmp (w : World β) : String := "/tmp/tmp." ++ S.unique w

/-- Loads `content` into a database that exists. -/
def load (name : String) (d : Data (List β)) (w : World β) : World β × Nat :=
  match d, w.db name with
  | .dump _ content, some old => (w.setDb name (old ++ content), 0)
  | _, _ => (w, 1)

def restoreArchive (gzip : Bool) (name : String) (d : Data (List β)) (w : World β) : World β × Nat :=
  match d with
  | .archive gzip' name' content =>
      if gzip' ≠ gzip then (w, 1)
      else if name' ≠ name then (w, 0)
      else (w.setDb name (content ++ S.survivors content ((w.db name).getD [])), 0)
  | _ => (w, 1)

/-- A statement with what it prints. -/
def sql (name : String) (s : Sql) (w : World β) : World β × Data (List β) × Nat :=
  match s with
  | .find n => (w, if (w.db n).isSome then .word "1" else .empty, 0)
  | .create n => if (w.db n).isSome then (w, .empty, 1) else (w.setDb n [], .empty, 0)
  | .clean => if (w.db name).isSome then (w.setDb name [], .empty, 0) else (w, .empty, 2)
  | .recreate n grantee =>
      match S.altered (.recreate n grantee) with
      | none => (w.setDb n [], .empty, 0)
      | some effect => ((effect w).1, .empty, (effect w).2)
  | _ => (w, .empty, 1)

def client (c : Client) (d : Data (List β)) (w : World β) : World β × Data (List β) × Nat :=
  match c with
  | .pgDump _ name | .mysqldump _ _ _ name =>
      match w.db name with
      | none => (w, .empty, 1)
      | some content => (w, .dump name content, 0)
  | .mongodump gzip _ _ _ name => (w, .archive gzip name ((w.db name).getD []), 0)
  | .psql _ name s => S.sql name s w
  | .mysql _ _ s => S.sql "" s w
  | .psqlLoad _ name | .mysqlLoad _ _ name => ((load name d w).1, .empty, (load name d w).2)
  | .mongorestore gzip _ _ _ name => ((S.restoreArchive gzip name d w).1, .empty, (S.restoreArchive gzip name d w).2)
  | _ => (w, .empty, 1)

def exec (t : Tool) (d : Data (List β)) (w : World β) : World β × Data (List β) × Nat :=
  match t with
  | .commandV program =>
      if program = "gzip" ∨ program = "pigz" ∧
        S.pigz = true then (w, .word program, 0) else (w, .empty, 127)
  | .compress program => if program = "" then (w, .empty, 0) else (w, .gzip d, 0)
  | .mktemp => (w.setDir (S.tmp w) (some []), .word (S.tmp w), 0)
  | .tarCreate dir =>
      match w.dir dir with
      | none => (w, .empty, 2)
      | some es => (w, .tarball es, 0)
  | .tarExtract archive dir =>
      match w.file (.host archive), w.dir dir with
      | some (.tarball es), some old => (w.setDir dir (some (old ++ es)), .empty, 0)
      | _, _ => (w, .empty, 2)
  | .remove paths => (w.remove paths, .empty, 0)
  | .mkdir dir => (w.setDir dir (some ((w.dir dir).getD [])), .empty, 0)
  | .isGzip path =>
      match w.file path with
      | some (.gzip _) => (w, .empty, 0)
      | _ => (w, .empty, 1)
  | .gunzip path =>
      match w.file path with
      | some (.gzip plain) => (w, plain, 0)
      | _ => (w, .empty, 1)
  | .copy source target =>
      match w.file source with
      | some content => (w.setFile target (some content), .empty, 0)
      | none => (w, .empty, 1)
  | .basename (.entry _ name ext) suffix =>
      (w, .word (if suffix = "." ++ ext then name else s!"{name}.{ext}"), 0)
  | .grep _ => (w, .empty, if d.text = "1" then 0 else 1)
  | .exec _ c => S.client c d w
  | _ => (w, .empty, 1)

/-- The programs whose behaviour `exec` states. -/
def Documented : Tool → Bool
  | .commandV _ | .compress _ | .mktemp | .tarCreate _ | .tarExtract _ _ | .remove _ | .mkdir _ => true
  | .isGzip _ | .gunzip _ | .copy _ _ | .basename (.entry _ _ _) _ | .grep _ => true
  | .exec _ (.pgDump _ _) | .exec _ (.mysqldump _ _ _ _) | .exec _ (.mongodump _ _ _ _ _) => true
  | .exec _ (.psql _ _ _) | .exec _ (.mysql _ _ (.recreate _ _)) => true
  | .exec _ (.psqlLoad _ _) | .exec _ (.mysqlLoad _ _ _) | .exec _ (.mongorestore _ _ _ _ _) => true
  | _ => false

def read (w : World β) : Path → Option (Data (List β))
  | .file l => w.file l
  | .entry dir name ext => do
      let es ← w.dir dir
      let e ← es.find? fun e => e.1 = name ∧ e.2.1 = ext
      return e.2.2

def write (w : World β) (p : Path) (d : Data (List β)) : World β :=
  match p with
  | .file l => w.setFile l (some d)
  | .entry dir name ext =>
      match w.dir dir with
      | none => w
      | some es =>
          if isFileName name then
            w.setDir dir (some (es.filter (fun e => ¬ (e.1 = name ∧ e.2.1 = ext)) ++ [(name, ext, d)]))
          else w

/-- The entries `dir/*.ext` in the order of their names, or the pattern itself. -/
def glob (w : World β) : Path → List (Data (List β))
  | .file l => [.path (.file l)]
  | .entry dir name ext =>
      let found := (((w.dir dir).getD []).filter fun e => e.2.1 = ext).mergeSort fun e f => e.1 ≤ f.1
      if found = [] then [.path (.entry dir name ext)] else found.map fun e => .path (.entry dir e.1 ext)

def machine : Machine Tool Path (Data (List β)) (World β) where
  empty := .empty
  append := Data.append
  number := .number
  exec := S.exec
  read := read
  write := write
  glob := glob

end Server

end Yeah.Databases
