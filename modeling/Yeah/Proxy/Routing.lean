import Yeah.Text.Space

namespace Yeah.Proxy

inductive WwwRedirect
  | none
  | wwwToRoot
  | rootToWww
  deriving DecidableEq

structure Routing where
  /-- Every hostname the app answers on (canonical first). -/
  hosts : List String
  canonical : String
  /-- The hostname that only redirects to canonical, when a www redirect is configured. -/
  redirectFrom : Option String
  deriving DecidableEq

def isHostChar (c : Char) : Bool := c.isLower || c.isDigit || c = '-'

/-- One label of a hostname: `[a-z0-9]([a-z0-9-]{0,61}[a-z0-9])?`. -/
def isLabel (l : List Char) : Bool :=
  l ≠ [] && l.length ≤ 63 && l.all isHostChar && l.head? ≠ some '-' && l.getLast? ≠ some '-'

/-- `[a-z]{2,63}` -/
def isTopLevel (l : List Char) : Bool := 2 ≤ l.length && l.length ≤ 63 && l.all Char.isLower

def isValidHostname (host : String) : Bool :=
  let labels := host.toList.splitOn '.'
  host.length ≤ 253 && labels.dropLast ≠ [] && labels.dropLast.all isLabel && labels.getLast?.any isTopLevel

/-- `replace(/[/?#].*$/, "")`; `.` is no line break. -/
def dropPath : List Char → List Char
  | [] => []
  | c :: cs => if c ∈ ['/', '?', '#'] ∧ cs.all (fun d => d.toNat ∉ [0x0A, 0x0D, 0x2028, 0x2029]) then [] else c :: dropPath cs

/-- Lowercases, drops a pasted scheme, path and trailing dot; `lower` is `toLowerCase`. -/
def normalizeHost (lower : String → String) (input : String) : String :=
  let text := (lower (Text.trim input)).toList
  let scheme := text.takeWhile Char.isLower
  let rest := text.dropWhile Char.isLower
  let bare := dropPath (if scheme ≠ [] ∧ "://".toList <+: rest then rest.drop 3 else text)
  String.ofList (if bare.getLast? = some '.' then bare.dropLast else bare)

/-- `replace(/^www\./, "")` -/
def dropWww (host : String) : String :=
  if "www.".toList <+: host.toList then String.ofList (host.toList.drop 4) else host

def computeRouting (primary : String) (extras : List String) (redirect : WwwRedirect) : Routing :=
  let base := dropWww primary
  let canonical :=
    match redirect with
    | .none => primary
    | .wwwToRoot => base
    | .rootToWww => "www." ++ base
  let redirectFrom :=
    match redirect with
    | .none => none
    | .wwwToRoot => some ("www." ++ base)
    | .rootToWww => some base
  ⟨(canonical :: extras.filter fun e => some e ≠ redirectFrom).eraseDups, canonical, redirectFrom⟩

def regexSpecial (c : Char) : Bool := c ∈ ".*+?^$\x7b\x7d()|[]\\".toList

def regexEscape (s : String) : String :=
  String.ofList (s.toList.flatMap fun c => if regexSpecial c then ['\\', c] else [c])

/-- The redirect of a routing; an empty string is none. -/
def Routing.redirect (routing : Routing) : Option String := routing.redirectFrom.filter (· ≠ "")

def PROXY_NETWORK_NAME : String := "yeah-proxy-net"

def ruleOf (hosts : List String) : String := " || ".intercalate (hosts.map fun h => "Host(`" ++ h ++ "`)")

/-- `key=value` Traefik labels for a container `name` (router/service names) listening on `port`. -/
def traefikLabels (name : String) (routing : Routing) (port : Nat) : List String :=
  [ "traefik.enable=true",
    "traefik.docker.network=" ++ PROXY_NETWORK_NAME,
    "traefik.http.routers." ++ name ++ ".rule=" ++ ruleOf routing.hosts,
    "traefik.http.routers." ++ name ++ ".entrypoints=websecure",
    "traefik.http.routers." ++ name ++ ".tls.certresolver=letsencrypt",
    "traefik.http.services." ++ name ++ ".loadbalancer.server.port=" ++ port.repr ] ++
  match routing.redirect with
  | none => []
  | some redirectFrom =>
      let r := name ++ "-redir"
      [ "traefik.http.routers." ++ r ++ ".rule=Host(`" ++ redirectFrom ++ "`)",
        "traefik.http.routers." ++ r ++ ".entrypoints=websecure",
        "traefik.http.routers." ++ r ++ ".tls.certresolver=letsencrypt",
        "traefik.http.routers." ++ r ++ ".service=" ++ name,
        "traefik.http.routers." ++ r ++ ".middlewares=" ++ r,
        "traefik.http.middlewares." ++ r ++ ".redirectregex.regex=^https?://" ++
          regexEscape redirectFrom ++ "/(.*)",
        "traefik.http.middlewares." ++ r ++ ".redirectregex.replacement=https://" ++ routing.canonical ++
          "/$\x7b1\x7d",
        "traefik.http.middlewares." ++ r ++ ".redirectregex.permanent=true" ]

/-- `hash` is a bcrypt hash (htpasswd style). -/
structure BasicAuth where
  user : String
  hash : String

structure DynamicConfigOptions where
  /-- Where Traefik forwards to instead of the container itself. -/
  backendUrl : Option String
  basicAuth : Option BasicAuth

/-- `replace(/^\$2[abx]\$/, "$2y$")`; in the replacement `$2` and `$` stand for themselves. -/
def htpasswdHash (bcryptHash : String) : String :=
  if "$2a$".toList <+: bcryptHash.toList ∨ "$2b$".toList <+: bcryptHash.toList ∨
    "$2x$".toList <+: bcryptHash.toList then
    "$2y$" ++ String.ofList (bcryptHash.toList.drop 4)
  else bcryptHash

/-- Traefik File Provider YAML equivalent of `traefikLabels`. -/
def traefikDynamicLines (name : String) (routing : Routing) (port : Nat) (opts : DynamicConfigOptions) :
    List String :=
  let authName := name ++ "-auth"
  let r := name ++ "-redir"
  [ "http:",
    "  routers:",
    "    " ++ name ++ ":",
    "      rule: \"" ++ ruleOf routing.hosts ++ "\"",
    "      entryPoints:",
    "        - websecure",
    "      tls:",
    "        certResolver: letsencrypt",
    "      service: " ++ name ] ++
  (match opts.basicAuth with
    | none => []
    | some _ => ["      middlewares:", "        - " ++ authName]) ++
  ["      priority: 1000"] ++
  (match routing.redirect with
    | none => []
    | some redirectFrom =>
        [ "    " ++ r ++ ":",
          "      rule: \"Host(`" ++ redirectFrom ++ "`)\"",
          "      entryPoints:",
          "        - websecure",
          "      tls:",
          "        certResolver: letsencrypt",
          "      service: " ++ name,
          "      middlewares:",
          "        - " ++ r,
          "      priority: 1000" ]) ++
  [ "  services:",
    "    " ++ name ++ ":",
    "      loadBalancer:",
    "        servers:",
    "          - url: \"" ++ opts.backendUrl.getD ("http://" ++ name ++ ":" ++ port.repr) ++ "\"" ] ++
  (if opts.basicAuth.isSome ∨ routing.redirect.isSome then ["  middlewares:"] else []) ++
  (match opts.basicAuth with
    | none => []
    | some auth =>
        [ "    " ++ authName ++ ":",
          "      basicAuth:",
          "        removeHeader: true",
          "        users:",
          "          - \"" ++ auth.user ++ ":" ++ htpasswdHash auth.hash ++ "\"" ]) ++
  match routing.redirect with
  | none => []
  | some redirectFrom =>
      [ "    " ++ r ++ ":",
        "      redirectRegex:",
        "        regex: \"^https?://" ++ regexEscape redirectFrom ++ "/(.*)\"",
        "        replacement: \"https://" ++ routing.canonical ++ "/$\x7b1\x7d\"",
        "        permanent: true" ]

def traefikDynamicConfig (name : String) (routing : Routing) (port : Nat)
    (opts : DynamicConfigOptions) : String :=
  "\n".intercalate (traefikDynamicLines name routing port opts) ++ "\n"

end Yeah.Proxy
