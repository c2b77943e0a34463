import Yeah.Proxy.Routing
import Yeah.Proxy.Traefik
import Yeah.Text.Lines

namespace Yeah.Proxy

open Text

/-- The names of containers: one word, no dots. -/
structure Named (name : String) : Prop where
  chars : ∀ c ∈ name.toList, c.isAlphanum = true ∨ c = '-'
  first : name.toList.head? = some 'y'

/-- Text that keeps to its place in a label's key. -/
def Segment (s : String) : Prop := '.' ∉ s.toList ∧ '=' ∉ s.toList

theorem Named.notMem {name : String} (h : Named name) {c : Char} (hc : c.isAlphanum = false)
    (hd : c ≠ '-') : c ∉ name.toList :=
  fun hm => (h.chars c hm).elim (fun ha => by simp [hc] at ha) hd

theorem Named.segment {name : String} (h : Named name) : Segment name :=
  ⟨h.notMem (by decide) (by decide), h.notMem (by decide) (by decide)⟩

theorem Named.append {name : String} (h : Named name) {s : String}
    (hs : ∀ c ∈ s.toList, c.isAlphanum = true ∨ c = '-') :
    Named (name ++ s) := by
  refine ⟨fun c hc => ?_, ?_⟩
  · rw [String.toList_append, List.mem_append] at hc
    exact hc.elim (h.chars c) (hs c)
  · rw [String.toList_append, List.head?_append, h.first]
    rfl

theorem Named.redir {name : String} (h : Named name) : Named (name ++ "-redir") := h.append (by simp)

theorem append_ne (name : String) {s : String} (hs : s.toList ≠ []) : name ++ s ≠ name := fun h => hs (by
  have := congrArg String.toList h
  simpa using this)

def label (path : List String) (value : String) : String := ".".intercalate path ++ "=" ++ value

theorem readLabel_label {path : List String} (hne : path ≠ []) (h : ∀ s ∈ path, Segment s)
    (value : String) :
    readLabel (label path value) = (path, value) := by
  have hkey : ∀ c ∈ ['.'].intercalate (path.map String.toList), decide (c ≠ '=') = true := by
    rintro c hc
    rw [decide_eq_true_eq]
    rintro rfl
    rcases mem_intercalate hc with hm | ⟨l, hl, hm⟩
    · simp at hm
    · obtain ⟨s, hs, rfl⟩ := List.mem_map.1 hl
      exact (h s hs).2 hm
  have htext : (label path value).toList = ['.'].intercalate (path.map String.toList) ++
    '=' :: value.toList := by simp [label]
  have hsplit : (['.'].intercalate (path.map String.toList)).splitOn '.' = path.map String.toList := by
    refine List.splitOn_intercalate _ (fun l hl => ?_) (by simpa using hne)
    obtain ⟨s, hs, rfl⟩ := List.mem_map.1 hl
    exact (h s hs).1
  rw [readLabel, htext, List.takeWhile_append_of_pos hkey, List.dropWhile_append_of_pos hkey]
  simp [hsplit, Function.comp_def]

/-- The labels of a routing as their reader sees them. -/
def routingEntries (name : String) (routing : Routing) (port : Nat) : List Entry :=
  [ (["traefik", "enable"], "true"),
    (["traefik", "docker", "network"], PROXY_NETWORK_NAME),
    (["traefik", "http", "routers", name, "rule"], ruleOf routing.hosts),
    (["traefik", "http", "routers", name, "entrypoints"], "websecure"),
    (["traefik", "http", "routers", name, "tls", "certresolver"], "letsencrypt"),
    (["traefik", "http", "services", name, "loadbalancer", "server", "port"], port.repr) ] ++
  match routing.redirect with
  | none => []
  | some redirectFrom =>
      let r := name ++ "-redir"
      [ (["traefik", "http", "routers", r, "rule"], "Host(`" ++ redirectFrom ++ "`)"),
        (["traefik", "http", "routers", r, "entrypoints"], "websecure"),
        (["traefik", "http", "routers", r, "tls", "certresolver"], "letsencrypt"),
        (["traefik", "http", "routers", r, "service"], name),
        (["traefik", "http", "routers", r, "middlewares"], r),
        (["traefik", "http", "middlewares", r, "redirectregex", "regex"], "^https?://" ++ regexEscape redirectFrom ++ "/(.*)"),
        (["traefik", "http", "middlewares", r, "redirectregex", "replacement"], "https://" ++ routing.canonical ++ "/$\x7b1\x7d"),
        (["traefik", "http", "middlewares", r, "redirectregex", "permanent"], "true") ]

theorem traefikLabels_eq (name : String) (routing : Routing) (port : Nat) :
    traefikLabels name routing port = (routingEntries name routing port).map fun e => label e.1 e.2 := by
  cases hr : routing.redirect with
  | none =>
      simp only [traefikLabels, routingEntries, hr, List.append_nil, List.map_cons, List.map_nil, List.cons.injEq, and_true,
        ← String.toList_inj]
      simp [label]
  | some redirectFrom =>
      simp only [traefikLabels, routingEntries, hr, List.map_cons, List.map_nil, List.cons_append, List.nil_append,
        List.cons.injEq, and_true, ← String.toList_inj]
      simp [label]

theorem segments_routing {name : String} (h : Segment name) (routing : Routing) (port : Nat) :
    ∀ e ∈ routingEntries name routing port, e.1 ≠ [] ∧ ∀ s ∈ e.1, Segment s := by
  obtain ⟨hdot, heq⟩ := h
  cases hredirect : routing.redirect <;> simp [routingEntries, hredirect, Segment, hdot, heq]

theorem map_readLabel {name : String} (h : Segment name) (routing : Routing) (port : Nat) :
    (traefikLabels name routing port).map readLabel = routingEntries name routing port := by
  rw [traefikLabels_eq, List.map_map]
  refine (List.map_congr_left fun e he => ?_).trans (List.map_id _)
  obtain ⟨hne, hs⟩ := segments_routing h routing port e he
  exact readLabel_label hne hs e.2

/-- What a routing is meant to tell Traefik; `guards` are the middlewares before the app itself. -/
def routingConfig (name url : String) (guards : List String) (routing : Routing) : Config where
  router n :=
    if n = name then some ⟨some (ruleOf routing.hosts), ["websecure"], some "letsencrypt", some name, guards⟩
    else if n = name ++ "-redir" then
      routing.redirect.map fun redirectFrom =>
        ⟨some ("Host(`" ++ redirectFrom ++ "`)"), ["websecure"], some "letsencrypt", some name,
          [name ++ "-redir"]⟩
    else none
  service n := if n = name then some url else none
  middleware n :=
    if n = name ++ "-redir" then
      routing.redirect.map fun redirectFrom =>
        ⟨some ("^https?://" ++ regexEscape redirectFrom ++ "/(.*)"),
          some ("https://" ++ routing.canonical ++ "/$\x7b1\x7d"), true⟩
    else none

theorem listOf_single {s : String} (h : ',' ∉ s.toList) : listOf (some s) = [s] := by
  simp [listOf, List.splitOn_eq_singleton h]

theorem onlyService_routing (name : String) (routing : Routing) (port : Nat) :
    onlyService (routingEntries name routing port) = some name := by
  have hd : declared (routingEntries name routing port) = [name] := by
    cases hr : routing.redirect <;> simp [declared, routingEntries, hr, serviceName, List.eraseDups_cons]
  rw [onlyService, hd]

/-- The labels say what the routing means. -/
theorem fromLabels_routing {name : String} (h : Named name) (routing : Routing) (port : Nat) :
    fromLabels name (traefikLabels name routing port) = routingConfig name ("http://" ++ name ++ ":" ++ port.repr) [] routing := by
  have hne : name ++ "-redir" ≠ name := append_ne name (by simp)
  have hweb : listOf (some "websecure") = ["websecure"] := listOf_single (by simp)
  have hcomma := listOf_single (h.redir.notMem (c := ',') (by decide) (by decide))
  have honly := onlyService_routing name routing port
  have hnone : listOf none = [] := rfl
  rw [fromLabels, map_readLabel h.segment]
  ext1
  · funext n
    simp only [routingConfig, labelRouter, honly]
    by_cases hn : n = name
    · subst hn
      cases hr : routing.redirect <;> simp [below, lookup, routingEntries, hr, hne, hweb, hnone]
    · by_cases hn' : n = name ++ "-redir"
      · subst hn'
        cases hr : routing.redirect <;> simp [below, lookup, routingEntries, hr, hne, hweb, hcomma]
      · cases hr : routing.redirect <;> simp [below, routingEntries, hr, hn, hn']
  · funext n
    simp only [routingConfig, labelService]
    by_cases hn : n = name
    · subst hn
      cases hr : routing.redirect <;> simp [lookup, routingEntries, hr]
    · have hn' : name ≠ n := Ne.symm hn
      cases hr : routing.redirect <;> simp [lookup, routingEntries, hr, hn, hn']
  · funext n
    simp only [routingConfig, labelMiddleware]
    by_cases hn : n = name ++ "-redir"
    · subst hn
      cases hr : routing.redirect <;> simp [below, lookup, routingEntries, hr]
    · cases hr : routing.redirect <;> simp [below, routingEntries, hr, hn]

end Yeah.Proxy
