import Yeah.Yaml.Block

namespace Yeah.Proxy

/-- A router of Traefik, whichever provider it comes from; its priority is left aside. -/
structure Router where
  rule : Option String
  entryPoints : List String
  certResolver : Option String
  service : Option String
  middlewares : List String
  deriving DecidableEq

structure Redirect where
  regex : Option String
  replacement : Option String
  permanent : Bool
  deriving DecidableEq

/-- What Traefik is told: its routers, the URL of each service's server, and its redirects, by name. -/
@[ext]
structure Config where
  router : String → Option Router
  service : String → Option String
  middleware : String → Option Redirect

/-! ### Labels -/

/-- A label with its key cut at the dots. -/
abbrev Entry := List String × String

def readLabel (label : String) : Entry :=
  (((label.toList.takeWhile (· ≠ '=')).splitOn '.').map String.ofList, String.ofList ((label.toList.dropWhile (· ≠ '=')).drop 1))

def lookup (entries : List Entry) (path : List String) : Option String :=
  ((entries.filter fun e => e.1 = path).getLast?).map (·.2)

def below (entries : List Entry) (path : List String) : List Entry := entries.filter fun e => path <+: e.1

def listOf (value : Option String) : List String :=
  match value with
  | none => []
  | some s => (s.toList.splitOn ',').map String.ofList

def serviceName (e : Entry) : Option String :=
  match e.1 with
  | "traefik" :: "http" :: "services" :: name :: _ => some name
  | _ => none

def declared (entries : List Entry) : List String := (entries.filterMap serviceName).eraseDups

/-- The service of a router that names none: the only one that its container declares. -/
def onlyService (entries : List Entry) : Option String :=
  match declared entries with
  | [name] => some name
  | _ => none

def labelRouter (entries : List Entry) (name : String) : Option Router :=
  let value (rest : List String) := lookup entries (["traefik", "http", "routers", name] ++ rest)
  if below entries ["traefik", "http", "routers", name] = [] then none
  else some {
    rule := value ["rule"]
    entryPoints := listOf (value ["entrypoints"])
    certResolver := value ["tls", "certresolver"]
    service := (value ["service"]).orElse fun _ => onlyService entries
    middlewares := listOf (value ["middlewares"]) }

/-- A service declared by labels is served by the container that carries them. -/
def labelService (container : String) (entries : List Entry) (name : String) : Option String :=
  (lookup entries ["traefik", "http", "services", name, "loadbalancer", "server", "port"]).map fun port =>
    "http://" ++ container ++ ":" ++ port

def labelMiddleware (entries : List Entry) (name : String) : Option Redirect :=
  let value (key : String) :=
    lookup entries ["traefik", "http", "middlewares", name, "redirectregex", key]
  if below entries ["traefik", "http", "middlewares", name, "redirectregex"] = [] then none
  else some ⟨value "regex", value "replacement", value "permanent" = some "true"⟩

/-- What the docker provider makes of the labels of a container. -/
def fromLabels (container : String) (labels : List String) : Config :=
  let entries := labels.map readLabel
  ⟨labelRouter entries, labelService container entries, labelMiddleware entries⟩

/-! ### Files -/

open Yaml

def fileRouter (t : Node) : Router where
  rule := (t.get "rule").bind Node.str
  entryPoints := ((t.get "entryPoints").bind Node.strs).getD []
  certResolver := ((t.get "tls").bind (·.get "certResolver")).bind Node.str
  service := (t.get "service").bind Node.str
  middlewares := ((t.get "middlewares").bind Node.strs).getD []

/-- The URL of the first server of a load balancer. -/
def fileService (t : Node) : Option String :=
  match (t.get "loadBalancer").bind (·.get "servers") with
  | some (.seq (.cons server _)) => (server.get "url").bind Node.str
  | _ => none

def fileRedirect (t : Node) : Option Redirect :=
  (t.get "redirectRegex").map fun r =>
    ⟨(r.get "regex").bind Node.str, (r.get "replacement").bind Node.str,
      (r.get "permanent").bind Node.value = some (.other "true")⟩

/-- What the file provider makes of a document. -/
def fromFile (t : Node) : Config :=
  let part (kind name : String) := ((t.get "http").bind (·.get kind)).bind (·.get name)
  { router := fun name => (part "routers" name).map fileRouter
    service := fun name => (part "services" name).bind fileService
    middleware := fun name => (part "middlewares" name).bind fileRedirect }

end Yeah.Proxy
