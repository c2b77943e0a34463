import Yeah.Databases.Dump
import Yeah.Databases.Ports
import Yeah.Previews.Domain
import Yeah.Text.Percent
import Yeah.Text.Url

namespace Yeah.Databases.Connect

open Environments Text Percent

structure ConnectionParams where
  engine : Engine
  host : String
  port : Nat
  username : Option String
  password : String
  databaseName : Option String
  ssl : Bool

def enc (text : String) : String := String.ofList (encodeURIComponent text.toList)

/-- `mountPath.replace(/\/+$/, "")` -/
def withoutSlashes (mountPath : String) : String := String.ofList (mountPath.toList.rdropWhile (· = '/'))

def sqliteConnectionUrl (databaseName : Option String) (mountPath : String) : String :=
  "file:" ++ withoutSlashes mountPath ++ "/" ++ sqliteFileName databaseName

section Url

variable (c : ConnectionParams)

/-- The redis family has no login user, but every client accepts "default". -/
def auth : String :=
  match c.username.filter (· ≠ "") with
  | some username => enc username ++ ":" ++ enc c.password
  | none => "default:" ++ enc c.password

def hostport : String := c.host ++ ":" ++ toString c.port

def databaseConnectionUrl : String :=
  match c.engine with
  | .sqlite => sqliteConnectionUrl c.databaseName sqliteMountDir
  | .postgresql =>
      "postgresql://" ++ auth c ++ "@" ++ hostport c ++ "/" ++ enc (c.databaseName.getD "postgres") ++
        (if c.ssl then "?sslmode=require" else "")
  | .mysql | .mariadb =>
      "mysql://" ++ auth c ++ "@" ++ hostport c ++ "/" ++ enc (c.databaseName.getD "") ++
        (if c.ssl then "?ssl-mode=REQUIRED" else "")
  | .mongodb =>
      "mongodb://" ++ auth c ++ "@" ++ hostport c ++ "/" ++ enc (c.databaseName.getD "") ++ "?authSource=admin" ++
        (if c.ssl then "&tls=true&tlsAllowInvalidCertificates=true" else "")
  | .redis | .keydb | .dragonfly => (if c.ssl then "rediss" else "redis") ++ "://" ++ auth c ++ "@" ++ hostport c
  | .clickhouse =>
      (if c.ssl then "https" else "http") ++ "://" ++ auth c ++ "@" ++ hostport c ++ "/?database=" ++
        enc (c.databaseName.getD "default")

example : databaseConnectionUrl ⟨.postgresql, "db", 5432, some "app", "p@ss", some "shop", true⟩ =
    "postgresql://app:p%40ss@db:5432/shop?sslmode=require" := by decide

/-! ### What a client makes of a URL -/

/-- Where a client gets to, and as whom. -/
structure Connection where
  scheme : String
  user : String
  password : String
  host : String
  port : Nat
  path : String
  options : List (String × String)
  deriving DecidableEq

def component (t : List Char) : Option String := (decodeURIComponent t).map String.ofList

def option (p : List Char × List Char) : Option (String × String) :=
  (component p.1).bind fun key => (component p.2).map fun value => (key, value)

/-- The parts of the URL, percent-decoded. -/
def readConnection (url : String) : Option Connection :=
  (Url.read url.toList).bind fun u => (component u.user).bind fun user => (component u.password).bind fun password =>
    (component u.path).bind fun path => (u.query.mapM option).map fun options =>
      ⟨String.ofList u.scheme, user, password, String.ofList u.host, u.port, path, options⟩

/-! ### What it is to make of it -/

def scheme : String :=
  match c.engine with
  | .sqlite => "file"
  | .postgresql => "postgresql"
  | .mysql | .mariadb => "mysql"
  | .mongodb => "mongodb"
  | .redis | .keydb | .dragonfly => if c.ssl then "rediss" else "redis"
  | .clickhouse => if c.ssl then "https" else "http"

def login : String := (c.username.filter (· ≠ "")).getD "default"

/-- The database in the path; `none` is no path at all. -/
def inPath : Option String :=
  match c.engine with
  | .postgresql => some (c.databaseName.getD "postgres")
  | .mysql | .mariadb | .mongodb => some (c.databaseName.getD "")
  | .clickhouse => some ""
  | .redis | .keydb | .dragonfly | .sqlite => none

def options : List (String × String) :=
  match c.engine with
  | .postgresql => if c.ssl then [("sslmode", "require")] else []
  | .mysql | .mariadb => if c.ssl then [("ssl-mode", "REQUIRED")] else []
  | .mongodb => ("authSource", "admin") :: if c.ssl then [("tls", "true"), ("tlsAllowInvalidCertificates", "true")] else []
  | .clickhouse => [("database", c.databaseName.getD "default")]
  | .redis | .keydb | .dragonfly | .sqlite => []

def meant : Connection :=
  ⟨scheme c, login c, c.password, c.host, c.port, (inPath c).elim "" fun name => "/" ++ name, options c⟩

/-! ### The parts -/

def urlOf : Url where
  scheme := (scheme c).toList
  user := encodeURIComponent (login c).toList
  password := encodeURIComponent c.password.toList
  host := c.host.toList
  port := c.port
  path := (inPath c).elim [] fun name => '/' :: encodeURIComponent name.toList
  query := (options c).map fun p => (encodeURIComponent p.1.toList, encodeURIComponent p.2.toList)

variable {c}

theorem toList_enc (text : String) : (enc text).toList = encodeURIComponent text.toList := String.toList_ofList

theorem toList_auth : (auth c).toList = (urlOf c).user ++ ':' :: (urlOf c).password := by
  rw [auth, urlOf, login]
  cases c.username.filter (· ≠ "") with
  | none =>
      rw [String.toList_append, toList_enc]
      rfl
  | some username =>
      rw [String.toList_append, String.toList_append, toList_enc, toList_enc, List.append_assoc]
      rfl

theorem toList_hostport : (hostport c).toList = (urlOf c).host ++ ':' :: Nat.toDigits 10 (urlOf c).port := by
  have hport : (toString c.port).toList = Nat.toDigits 10 c.port := Nat.toList_repr
  rw [hostport, String.toList_append, String.toList_append, hport, List.append_assoc]
  rfl

theorem text_urlOf : (urlOf c).text = (scheme c).toList ++ ("://".toList ++ ((auth c).toList ++ ("@".toList ++
    ((hostport c).toList ++ ((urlOf c).path ++ Url.queryText (urlOf c).query))))) := by
  rw [toList_auth, toList_hostport, Url.text]
  simp only [List.append_assoc, List.cons_append]
  rfl

/-- What `databaseConnectionUrl` writes in one piece, as the parts it is made of. -/
theorem pieces :
    "postgresql://".toList = "postgresql".toList ++ "://".toList ∧ "mysql://".toList = "mysql".toList ++ "://".toList ∧
      "mongodb://".toList = "mongodb".toList ++ "://".toList ∧ "/".toList = ['/'] ∧ "".toList = [] ∧
      "?sslmode=require".toList = '?' :: (encodeURIComponent "sslmode".toList ++ '=' :: encodeURIComponent "require".toList) ∧
      "?ssl-mode=REQUIRED".toList = '?' :: (encodeURIComponent "ssl-mode".toList ++ '=' :: encodeURIComponent "REQUIRED".toList) ∧
      "?authSource=admin".toList = '?' :: (encodeURIComponent "authSource".toList ++ '=' :: encodeURIComponent "admin".toList) ∧
      "&tls=true&tlsAllowInvalidCertificates=true".toList =
        '&' :: (encodeURIComponent "tls".toList ++ '=' :: (encodeURIComponent "true".toList ++
          '&' :: (encodeURIComponent "tlsAllowInvalidCertificates".toList ++ '=' :: encodeURIComponent "true".toList))) ∧
      "/?database=".toList = '/' :: '?' :: (encodeURIComponent "database".toList ++ ['=']) := by
  decide

theorem toList_url (hengine : c.engine ≠ .sqlite) : (databaseConnectionUrl c).toList = (urlOf c).text := by
  obtain ⟨hpostgres, hmysql, hmongo, hslash, hempty, hsslmode, hsslMode, hauthSource, htls, hdatabase⟩ := pieces
  rw [text_urlOf]
  obtain ⟨engine, host, port, username, password, databaseName, ssl⟩ := c
  cases engine with
  | sqlite => exact absurd rfl hengine
  | redis | keydb | dragonfly =>
      simp only [databaseConnectionUrl, String.toList_append, List.append_assoc, scheme, urlOf, inPath, options, Option.elim_none,
        List.map_nil, Url.queryText, List.append_nil]
  | clickhouse =>
      simp only [databaseConnectionUrl, String.toList_append, toList_enc, hdatabase, List.append_assoc, List.cons_append,
        List.nil_append, scheme, urlOf, inPath, options, Option.elim_some, hempty, List.map_nil, List.map_cons, Url.queryText,
        List.intercalate_singleton]
      rfl
  | _ =>
      cases ssl <;>
        simp only [databaseConnectionUrl, String.toList_append, toList_enc, hpostgres, hmysql, hmongo, hslash, hempty, hsslmode,
          hsslMode, hauthSource, htls, List.append_assoc, List.cons_append, List.nil_append, List.append_nil, scheme, urlOf, inPath,
          options, Option.elim_some, List.map_nil, List.map_cons, Url.queryText, List.intercalate_singleton,
          List.intercalate_cons_cons, if_true, Bool.false_eq_true, if_false]

theorem plain_encode {text : String} {d : Char} {ds : List Char} (hd : d ∈ encodeURIComponent text.toList)
    (hds : (ds.all fun e => !isUnreserved e && e != '%') = true) : d ∉ ds := by
  intro hmem
  have hout := List.all_eq_true.1 hds d hmem
  simp only [Bool.and_eq_true, Bool.not_eq_true', bne_iff_ne] at hout
  exact notMem_encode hout hd

theorem plain_urlOf (hhost : ∀ d ∈ c.host.toList, d ∉ [':', '@', '/', '?', '#']) : (urlOf c).Plain where
  scheme := by
    have hcolon : ∀ s ∈ ["file", "postgresql", "mysql", "mongodb", "rediss", "redis", "https", "http"], ':' ∉ s.toList := by decide
    refine hcolon (scheme c) ?_
    rw [scheme]
    cases c.engine <;> cases c.ssl <;> simp
  user d hd := plain_encode hd rfl
  password d hd := plain_encode hd rfl
  host := hhost
  path := by
    rw [urlOf]
    cases inPath c with
    | none => exact fun d hd => by cases hd
    | some name =>
        intro d hd
        rcases List.mem_cons.1 hd with rfl | hd
        · rfl
        · have hnot : d ∉ ['?', '#'] := plain_encode hd rfl
          simpa [Url.endsPath] using hnot
  rooted := by
    rw [urlOf]
    cases inPath c with
    | none => exact fun h => absurd rfl h
    | some name => exact fun _ => rfl
  key p hp d hd := by
    obtain ⟨q, -, rfl⟩ := List.mem_map.1 hp
    exact plain_encode hd rfl
  value p hp d hd := by
    obtain ⟨q, -, rfl⟩ := List.mem_map.1 hp
    exact plain_encode hd rfl

theorem component_encode (text : String) : component (encodeURIComponent text.toList) = some text := by
  rw [component, decode_encode, Option.map_some, String.ofList_toList]

theorem component_path : component (urlOf c).path = some ((inPath c).elim "" fun name => "/" ++ name) := by
  rw [urlOf]
  cases inPath c with
  | none => rfl
  | some name =>
      have hslash : decodeURIComponent ('/' :: encodeURIComponent name.toList) = some ('/' :: name.toList) := by
        rw [decodeURIComponent, readBytes_cons (by decide), readBytes_encode, Option.map_some, Option.map_some, Utf8.decode_char,
          Utf8.decode_encode]
      have htext : String.ofList ('/' :: name.toList) = "/" ++ name := by
        apply String.toList_inj.1
        rw [String.toList_ofList, String.toList_append]
        rfl
      dsimp only [Option.elim]
      rw [component, hslash, Option.map_some, htext]

theorem options_encode (l : List (String × String)) :
    (l.map fun p => (encodeURIComponent p.1.toList, encodeURIComponent p.2.toList)).mapM option = some l := by
  induction l with
  | nil => rfl
  | cons p l ih =>
      have hp : option (encodeURIComponent p.1.toList, encodeURIComponent p.2.toList) = some p := by
        rw [option, component_encode, component_encode]
        rfl
      rw [List.map_cons, List.mapM_cons, hp, ih]
      rfl

theorem readConnection_url (hengine : c.engine ≠ .sqlite) (hhost : ∀ d ∈ c.host.toList, d ∉ [':', '@', '/', '?', '#']) :
    readConnection (databaseConnectionUrl c) = some (meant c) := by
  have hscheme : String.ofList (urlOf c).scheme = scheme c := String.ofList_toList
  have hhostText : String.ofList (urlOf c).host = c.host := String.ofList_toList
  have huser : component (urlOf c).user = some (login c) := component_encode _
  have hpassword : component (urlOf c).password = some c.password := component_encode _
  have hoptions : (urlOf c).query.mapM option = some (options c) := options_encode _
  rw [readConnection, toList_url hengine, Url.read_text (plain_urlOf hhost), Option.bind_some, huser, Option.bind_some, hpassword,
    Option.bind_some, component_path, Option.bind_some, hoptions, Option.map_some, hscheme, hhostText]
  rfl

/-- Whatever the login, the password and the name of the database hold, a client reads them back; of the host, which is
written as it is, it does so unless a character ends it early (the colons of an IPv6 address do). -/
theorem readConnection_iff (hengine : c.engine ≠ .sqlite) :
    readConnection (databaseConnectionUrl c) = some (meant c) ↔ ∀ d ∈ c.host.toList, d ∉ [':', '@', '/', '?', '#'] := by
  refine ⟨fun h => ?_, readConnection_url hengine⟩
  obtain ⟨u, hu, h⟩ := Option.bind_eq_some_iff.1 h
  obtain ⟨user, -, h⟩ := Option.bind_eq_some_iff.1 h
  obtain ⟨password, -, h⟩ := Option.bind_eq_some_iff.1 h
  obtain ⟨path, -, h⟩ := Option.bind_eq_some_iff.1 h
  obtain ⟨options, -, h⟩ := Option.map_eq_some_iff.1 h
  have hhost : String.ofList u.host = c.host := congrArg Connection.host h
  rw [← hhost, String.toList_ofList]
  exact Url.host_of_read hu

end Url

/-! ### The credentials of a database -/

/-- The columns of a database that `GET /:databaseId/connection` reads. -/
structure Row where
  name : String
  engine : Engine
  username : Option String
  password : String
  databaseName : Option String
  ssl : Bool
  publicAccess : Bool
  port : Nat

structure Endpoint where
  host : String
  port : Nat
  url : String

/-- A field that an answer leaves out is `false` or `none`. -/
structure Credentials where
  fileBased : Bool
  username : Option String
  password : String
  internal : Endpoint
  external : Option Endpoint
  mountPath : Option String

def internalPort : Engine → Nat
  | .postgresql => 5432
  | .mysql | .mariadb => 3306
  | .redis | .keydb | .dragonfly => 6379
  | .mongodb => 27017
  | .clickhouse => 8123
  | .sqlite => 0

variable (d : Row)

def params (host : String) (port : Nat) : ConnectionParams := ⟨d.engine, host, port, d.username, d.password, d.databaseName, d.ssl⟩

def endpoint (host : String) (port : Nat) : Endpoint := ⟨host, port, databaseConnectionUrl (params d host port)⟩

/-- What the route answers for a database that it finds; `serverHost` is the host of its server, if that is found. -/
def connection (serverHost : Option String) : Credentials :=
  if d.engine.fileBased then
    ⟨true, none, "", ⟨internalHostName d.name, 0, sqliteConnectionUrl d.databaseName sqliteMountDir⟩, none, some sqliteMountDir⟩
  else
    ⟨false, d.username, d.password, endpoint d (internalHostName d.name) (internalPort d.engine),
      if d.publicAccess then serverHost.map fun host => endpoint d host d.port else none, none⟩

theorem internalHostName_plain (name : String) : ∀ c ∈ (internalHostName name).toList, c ∉ [':', '@', '/', '?', '#'] := by
  intro c hc hmem
  simp only [List.mem_cons, List.not_mem_nil, or_false] at hmem
  rw [internalHostName] at hc
  split at hc
  · rcases hmem with rfl | rfl | rfl | rfl | rfl <;> exact absurd hc (by decide)
  · have hhost := (Previews.resourceSlug_mem hc).1
    rcases hmem with rfl | rfl | rfl | rfl | rfl <;> cases hhost

variable {d}

end Yeah.Databases.Connect
