import Yeah.Shell.Command

namespace Yeah.Databases

open Shell

inductive Engine
  | postgresql
  | mysql
  | mariadb
  | redis
  | keydb
  | dragonfly
  | clickhouse
  | mongodb
  | sqlite
  deriving DecidableEq

/-- The columns of a database that its dump and restore commands read. -/
structure Database where
  engine : Engine
  name : String
  image : String
  username : Option String
  password : String
  databaseName : Option String
  ssl : Bool

namespace Database

variable (database : Database)

def user (fallback : String) : String := database.username.getD fallback

/-- The database that the resource was created with. -/
def primary : String := database.databaseName.getD "app"

end Database

/-- Statements for a database client. -/
inductive Sql
  /-- `SELECT 1 FROM pg_database WHERE datname='…'` -/
  | find (name : String)
  /-- `CREATE DATABASE "…"` -/
  | create (name : String)
  /-- `DROP SCHEMA public CASCADE; CREATE SCHEMA public;` -/
  | clean
  /-- ``DROP DATABASE IF EXISTS `…`; CREATE DATABASE `…`; GRANT ALL ON `…`.* TO …;`` -/
  | recreate (name grantee : String)
  /-- ``BACKUP DATABASE `…` TO File('/backups/…')`` -/
  | backup (name archive : String)
  /-- ``DROP DATABASE IF EXISTS `…` SYNC`` -/
  | drop (name : String)
  /-- ``RESTORE DATABASE `…` FROM File('/backups/…')`` -/
  | restore (name archive : String)
  deriving DecidableEq

/-- What runs inside a container. -/
inductive Client
  | pgDump (user name : String)
  | mysqldump (program password user name : String)
  | mongodump (gzip ssl : Bool) (user password name : String)
  | rdb (program : String) (ssl : Bool) (password target : String)
  | cat (path : String)
  | sqliteDump (path : String)
  | psql (user name : String) (sql : Sql)
  | psqlLoad (user name : String)
  | mysql (program password : String) (sql : Sql)
  | mysqlLoad (program password name : String)
  | mongorestore (gzip ssl : Bool) (user password name : String)
  | clickhouse (user password : String) (sql : Sql)
  | sh
  deriving DecidableEq

/-- A path on the server, or inside a container. -/
inductive Location
  | host (path : String)
  | inside (path : String)
  deriving DecidableEq

/-- A file by its path, or as the entry `dir/name.ext` of a directory on the server. -/
inductive Path
  | file (path : Location)
  | entry (dir name ext : String)
  deriving DecidableEq

/-- The programs of the commands with their arguments. Every argument that the source
passes through `shellQuote` reaches its program unchanged. -/
inductive Tool
  | commandV (program : String)
  /-- `$GZ`, the compressor that was found; no program at all when the word is empty. -/
  | compress (program : String)
  | mktemp
  | tarCreate (dir : String)
  | tarExtract (archive dir : String)
  | remove (paths : List Location)
  | mkdir (dir : String)
  /-- The test of the first two bytes: `[ "$(head -c 2 … | od -An -tx1 | tr -d ' \n')" = 1f8b ]`. -/
  | isGzip (path : Location)
  | gunzip (path : Location)
  | copy (source target : Location)
  | move (source target : Location)
  | chmod (mode : String) (path : Location)
  | chown (reference : Location) (paths : List Location)
  | basename (path : Path) (suffix : String)
  | grep (pattern : String)
  | isFile (path : String)
  | sqliteLoad (path : Location)
  | exec (container : String) (client : Client)
  | dockerStop (container : String)
  | dockerRun (volume file image : String)
  | dockerStart (container : String)
  deriving DecidableEq

/-- What files, pipes and shell variables hold, over the contents `β` of a database. -/
inductive Data (β : Type)
  | empty
  | word (s : String)
  | number (n : Nat)
  | path (p : Path)
  | dump (name : String) (content : β)
  | archive (gzip : Bool) (name : String) (content : β)
  | tarball (entries : List (String × String × Data β))
  | gzip (d : Data β)
  | both (a b : Data β)

abbrev Script (β : Type) := Cmd Tool Path (Data β)

namespace Data

variable {β : Type}

def text : Data β → String
  | word s => s
  | _ => ""

def target : Data β → Path
  | path p => p
  | d => .file (.host d.text)

def code : Data β → Nat
  | number n => n
  | _ => 0

def append : Data β → Data β → Data β
  | empty, d => d
  | d, empty => d
  | a, b => both a b

@[simp] theorem empty_append (d : Data β) : append empty d = d := by cases d <;> rfl
@[simp] theorem append_empty (d : Data β) : append d empty = d := by cases d <;> rfl

end Data

end Yeah.Databases
