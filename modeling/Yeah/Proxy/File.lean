import Yeah.Proxy.Labels

namespace Yeah.Proxy

open Yaml

def routerDoc (rule service : String) (middlewares : List String) : Node :=
  .mapOf ([("rule", .text rule), ("entryPoints", .seqOf [.word "websecure"]), ("tls", .mapOf [("certResolver", .word "letsencrypt")]),
      ("service", .word service)] ++
    (if middlewares = [] then [] else [("middlewares", .seqOf (middlewares.map .word))]) ++ [("priority", .word "1000")])

def serviceDoc (url : String) : Node :=
  .mapOf [("loadBalancer", .mapOf [("servers", .seqOf [.mapOf [("url", .text url)]])])]

def redirectDoc (redirectFrom canonical : String) : Node :=
  .mapOf [("redirectRegex", .mapOf
    [("regex", .text ("^https?://" ++ regexEscape redirectFrom ++ "/(.*)")), ("replacement", .text ("https://" ++ canonical ++ "/$\x7b1\x7d")),
      ("permanent", .word "true")])]

def authDoc (auth : BasicAuth) : Node :=
  .mapOf [("basicAuth", .mapOf [("removeHeader", .word "true"), ("users", .seqOf [.text (auth.user ++ ":" ++ htpasswdHash auth.hash)])])]

def routersOf (name : String) (routing : Routing) (basicAuth : Option BasicAuth) : List (String × Node) :=
  (name, routerDoc (ruleOf routing.hosts) name (if basicAuth.isSome then [name ++ "-auth"] else [])) ::
    (routing.redirect.toList.map fun redirectFrom =>
      (name ++ "-redir", routerDoc ("Host(`" ++ redirectFrom ++ "`)") name [name ++ "-redir"]))

def middlewaresOf (name : String) (routing : Routing) (basicAuth : Option BasicAuth) :
    List (String × Node) :=
  (basicAuth.toList.map fun auth => (name ++ "-auth", authDoc auth)) ++
    (routing.redirect.toList.map fun redirectFrom => (name ++ "-redir", redirectDoc redirectFrom routing.canonical))

def partsOf (name : String) (routing : Routing) (url : String) (basicAuth : Option BasicAuth) :
    List (String × Node) :=
  [("routers", .mapOf (routersOf name routing basicAuth)), ("services", .mapOf [(name, serviceDoc url)])] ++
    if middlewaresOf name routing basicAuth = [] then [] else [("middlewares", .mapOf (middlewaresOf name routing basicAuth))]

/-- The document that the lines of `traefikDynamicConfig` write. -/
def dynamicDoc (name : String) (routing : Routing) (url : String) (basicAuth : Option BasicAuth) : Node :=
  .mapOf [("http", .mapOf (partsOf name routing url basicAuth))]

theorem lines_dynamicDoc (name : String) (routing : Routing) (port : Nat) (opts : DynamicConfigOptions) :
    (traefikDynamicLines name routing port opts).map String.toList =
      ((dynamicDoc name routing (opts.backendUrl.getD ("http://" ++ name ++ ":" ++ port.repr)) opts.basicAuth).lines 0).map lineText := by
  cases hr : routing.redirect <;> cases ha : opts.basicAuth <;>
    simp [traefikDynamicLines, dynamicDoc, partsOf, routersOf, middlewaresOf, hr, ha, Node.mapOf, Fields.ofList, Node.lines, Fields.lines, head, Raw.text, routerDoc,
      redirectDoc, serviceDoc, authDoc, Node.text, Node.word, Node.seqOf, Items.ofList, Items.lines, lineText, List.replicate]

theorem Named.word {name : String} (h : Named name) : Word name := by
  obtain ⟨cs, hcs⟩ : ∃ cs, name.toList = 'y' :: cs := by
    cases hn : name.toList with
    | nil => simpa [hn] using h.first
    | cons c cs => exact ⟨cs, by simpa [hn] using h.first⟩
  refine ⟨isPlain_of_word (fun c hc => ?_) (by simp [hcs]), ?_⟩
  · rcases h.chars c hc with ha | rfl
    · simp [isWordChar, ha]
    · decide
  · rw [hcs]
    simp [isOther, dropSign, isNumber]

theorem word_of {s : String} (h : (isPlain s.toList && !isOther s.toList) = true) : Word s :=
  Word.of_all (l := [s]) (by simpa using h) s (by simp)

theorem fileRouter_routerDoc {rule service : String} {middlewares : List String} (hrule : Literal rule)
    (hservice : Word service)
    (hm : ∀ m ∈ middlewares, Word m) :
    fileRouter (routerDoc rule service middlewares) = ⟨some rule, ["websecure"], some "letsencrypt", some service, middlewares⟩ := by
  have hweb : (Node.seqOf [.word "websecure"]).strs = some ["websecure"] :=
    strs_words (l := ["websecure"]) (Word.of_all (by decide))
  have htls : ((Node.mapOf [("certResolver", .word "letsencrypt")]).get "certResolver").bind Node.str =
      some "letsencrypt" := by
    rw [get_mapOf (Word.keys ["certResolver"] rfl (by decide))]
    exact (word_of (s := "letsencrypt") (by decide)).node_str
  by_cases hnil : middlewares = []
  · subst hnil
    have hget := get_mapOf (l := [("rule", .text rule), ("entryPoints", .seqOf [.word "websecure"]),
      ("tls", .mapOf [("certResolver", .word "letsencrypt")]), ("service", .word service), ("priority", .word "1000")])
      (Word.keys ["rule", "entryPoints", "tls", "service", "priority"] rfl (by decide))
    simp [fileRouter, routerDoc, hget, hrule.str, hweb, htls, hservice.node_str]
  · have hget := get_mapOf (l := [("rule", .text rule), ("entryPoints", .seqOf [.word "websecure"]),
      ("tls", .mapOf [("certResolver", .word "letsencrypt")]), ("service", .word service),
      ("middlewares", .seqOf (middlewares.map .word)), ("priority", .word "1000")])
      (Word.keys ["rule", "entryPoints", "tls", "service", "middlewares", "priority"] rfl (by decide))
    simp [fileRouter, routerDoc, hnil, hget, hrule.str, hweb, htls, hservice.node_str, strs_words hm]

theorem fileService_serviceDoc {url : String} (h : Literal url) :
    fileService (serviceDoc url) = some url := by
  have hurl : (Node.mapOf [("url", .text url)]).get "url" = some (.text url) :=
    get_mapOf (Word.keys ["url"] rfl (by decide)) _
  have hservers : (serviceDoc url).get "loadBalancer" =
      some (.mapOf [("servers", .seqOf [.mapOf [("url", .text url)]])]) :=
    get_mapOf (Word.keys ["loadBalancer"] rfl (by decide)) _
  have hseq : (Node.mapOf [("servers", .seqOf [.mapOf [("url", .text url)]])]).get "servers" =
      some (.seqOf [.mapOf [("url", .text url)]]) :=
    get_mapOf (Word.keys ["servers"] rfl (by decide)) _
  rw [fileService, hservers, Option.bind_some, hseq]
  change ((Node.mapOf [("url", .text url)]).get "url").bind Node.str = _
  rw [hurl]
  exact h.str

theorem fileRedirect_redirectDoc {redirectFrom canonical : String}
    (hr : Literal ("^https?://" ++ regexEscape redirectFrom ++ "/(.*)"))
    (hc : Literal ("https://" ++ canonical ++ "/$\x7b1\x7d")) :
    fileRedirect (redirectDoc redirectFrom canonical) =
      some ⟨some ("^https?://" ++ regexEscape redirectFrom ++ "/(.*)"), some ("https://" ++ canonical ++ "/$\x7b1\x7d"), true⟩ := by
  have hr' : (redirectDoc redirectFrom canonical).get "redirectRegex" = _ :=
    get_mapOf (Word.keys ["redirectRegex"] rfl (by decide)) _
  have hget :=
    get_mapOf (l := [("regex", Node.text ("^https?://" ++ regexEscape redirectFrom ++ "/(.*)")),
    ("replacement", .text ("https://" ++ canonical ++ "/$\x7b1\x7d")), ("permanent", .word "true")])
    (Word.keys ["regex", "replacement", "permanent"] rfl (by decide))
  rw [fileRedirect, hr']
  simp only [List.find?_cons, decide_true, Option.map_some, hget]
  simp only [String.reduceEq, decide_false, Option.map_some, Option.bind_some, hr.str, hc.str]
  have htrue : (Node.word "true").value = some (.other "true") := by decide
  simp [htrue]

theorem fileRedirect_authDoc (auth : BasicAuth) : fileRedirect (authDoc auth) = none := by
  rw [fileRedirect, authDoc, get_mapOf (Word.keys ["basicAuth"] rfl (by decide))]
  simp

/-- What the quotes of the document enclose may stand there as it is. -/
structure Quotable (routing : Routing) (url : String) (basicAuth : Option BasicAuth) : Prop where
  rule : Literal (ruleOf routing.hosts)
  redirect : ∀ r, routing.redirect = some r → Literal ("Host(`" ++ r ++ "`)") ∧
    Literal ("^https?://" ++ regexEscape r ++ "/(.*)")
  canonical : Literal ("https://" ++ routing.canonical ++ "/$\x7b1\x7d")
  url : Literal url
  auth : ∀ a, basicAuth = some a → Literal (a.user ++ ":" ++ htpasswdHash a.hash)

theorem Named.auth {name : String} (h : Named name) : Named (name ++ "-auth") := h.append (by simp)

theorem Named.guard {name : String} (h : Named name) (basicAuth : Option BasicAuth) (m : String)
    (hm : m ∈ if basicAuth.isSome then [name ++ "-auth"] else []) : Word m := by
  split_ifs at hm
  · rw [List.mem_singleton.1 hm]
    exact h.auth.word
  · cases hm

section Reading

variable {name : String} (h : Named name) (routing : Routing) (url : String) (basicAuth : Option BasicAuth)

include h

theorem keys_routersOf : ∀ e ∈ routersOf name routing basicAuth, Word e.1 := fun e he => by
  rcases List.mem_cons.1 he with rfl | he
  · exact h.word
  · obtain ⟨r, -, rfl⟩ := List.mem_map.1 he
    exact h.redir.word

theorem keys_middlewaresOf : ∀ e ∈ middlewaresOf name routing basicAuth, Word e.1 := fun e he => by
  rcases List.mem_append.1 he with he | he
  · obtain ⟨a, -, rfl⟩ := List.mem_map.1 he
    exact h.auth.word
  · obtain ⟨r, -, rfl⟩ := List.mem_map.1 he
    exact h.redir.word

omit h in
theorem keys_partsOf : ∀ e ∈ partsOf name routing url basicAuth, Word e.1 := by
  by_cases hm : middlewaresOf name routing basicAuth = []
  · exact Word.keys ["routers", "services"] (by simp [partsOf, hm]) (by decide)
  · exact Word.keys ["routers", "services", "middlewares"] (by simp [partsOf, hm]) (by decide)

omit h in
theorem get_parts (kind : String) :
    ((dynamicDoc name routing url basicAuth).get "http").bind (·.get kind) =
    ((partsOf name routing url basicAuth).find? fun e => e.1 = kind).map (·.2) := by
  have hhttp : (dynamicDoc name routing url basicAuth).get "http" =
      some (.mapOf (partsOf name routing url basicAuth)) :=
    get_mapOf (Word.keys ["http"] rfl (by decide)) _
  rw [hhttp, Option.bind_some, get_mapOf (keys_partsOf routing url basicAuth)]

theorem get_router (n : String) :
    (((dynamicDoc name routing url basicAuth).get "http").bind (·.get "routers")).bind (·.get n) =
    ((routersOf name routing basicAuth).find? fun e => e.1 = n).map (·.2) := by
  rw [get_parts, partsOf, List.cons_append, List.find?_cons]
  exact get_mapOf (keys_routersOf h routing basicAuth) n

theorem get_service (n : String) :
    (((dynamicDoc name routing url basicAuth).get "http").bind (·.get "services")).bind (·.get n) =
    if n = name then some (serviceDoc url) else none := by
  have hname : ∀ e ∈ [(name, serviceDoc url)], Word e.1 := fun e he => by
    rw [List.mem_singleton.1 he]
    exact h.word
  have hparts : ((partsOf name routing url basicAuth).find? fun e => e.1 = "services").map (·.2) =
      some (.mapOf [(name, serviceDoc url)]) := by
    simp [partsOf]
  rw [get_parts, hparts, Option.bind_some, get_mapOf hname]
  by_cases hn : n = name
  · simp [hn]
  · simp [hn, Ne.symm hn]

theorem get_middleware (n : String) :
    (((dynamicDoc name routing url basicAuth).get "http").bind (·.get "middlewares")).bind (·.get n) =
    ((middlewaresOf name routing basicAuth).find? fun e => e.1 = n).map (·.2) := by
  rw [get_parts]
  by_cases hm : middlewaresOf name routing basicAuth = []
  · simp [partsOf, hm]
  · have hparts : ((partsOf name routing url basicAuth).find? fun e => e.1 = "middlewares").map (·.2) =
        some (.mapOf (middlewaresOf name routing basicAuth)) := by simp [partsOf, hm]
    rw [hparts, Option.bind_some, get_mapOf (keys_middlewaresOf h routing basicAuth)]

/-- The file says what the routing means. -/
theorem fromFile_dynamicDoc {routing : Routing} {url : String} {basicAuth : Option BasicAuth}
    (hq : Quotable routing url basicAuth) :
    fromFile (dynamicDoc name routing url basicAuth) =
      routingConfig name url (if basicAuth.isSome then [name ++ "-auth"] else []) routing := by
  have hne : name ++ "-redir" ≠ name := append_ne name (by simp)
  have hauth : name ++ "-auth" ≠ name ++ "-redir" := fun he => by
    have := congrArg String.toList he
    simp at this
  have hmain := fileRouter_routerDoc hq.rule h.word (h.guard basicAuth)
  have hredir (r : String) (hr : routing.redirect = some r) :
      fileRouter (routerDoc ("Host(`" ++ r ++ "`)") name [name ++ "-redir"]) = _ :=
    fileRouter_routerDoc (hq.redirect r hr).1 h.word (fun m hm => by rw [List.mem_singleton.1 hm]; exact h.redir.word)
  ext1
  · funext n
    simp only [fromFile, routingConfig, get_router h]
    by_cases hn : n = name
    · subst hn
      simp [routersOf, hmain]
    · cases hr : routing.redirect with
      | none => simp [routersOf, hr, hn, Ne.symm hn]
      | some r =>
          have hfile := hredir r hr
          by_cases hn' : n = name ++ "-redir"
          · subst hn'
            simp [routersOf, hr, hne, hne.symm, hfile]
          · simp [routersOf, hr, hn, Ne.symm hn, hn', Ne.symm hn']
  · funext n
    simp only [fromFile, routingConfig, get_service h]
    split_ifs
    · exact fileService_serviceDoc hq.url
    · rfl
  · funext n
    simp only [fromFile, routingConfig, get_middleware h]
    cases hr : routing.redirect with
    | none =>
        cases basicAuth with
        | none => simp [middlewaresOf, hr]
        | some auth => by_cases hn : name ++ "-auth" = n <;> simp [middlewaresOf, hr, hn, fileRedirect_authDoc]
    | some r =>
        have hfile := fileRedirect_redirectDoc (hq.redirect r hr).2 hq.canonical
        by_cases hn : n = name ++ "-redir"
        · subst hn
          cases basicAuth <;> simp [middlewaresOf, hr, hauth, hfile]
        · cases basicAuth with
          | none => simp [middlewaresOf, hr, hn, Ne.symm hn]
          | some auth => by_cases hn' : name ++ "-auth" = n <;> simp [middlewaresOf, hr, hn, Ne.symm hn, hn', fileRedirect_authDoc]

def regexText (r : String) : String := "^https?://" ++ regexEscape r ++ "/(.*)"

/-- What the quotes enclose ends at the closing ones; escapes stand in the redirect's expression only. -/
structure Writable (routing : Routing) (url : String) (basicAuth : Option BasicAuth) : Prop where
  rule : Literal (ruleOf routing.hosts)
  redirect : ∀ r, routing.redirect = some r → Literal ("Host(`" ++ r ++ "`)") ∧
    (Raw.quoted (regexText r).toList).Good
  canonical : Literal ("https://" ++ routing.canonical ++ "/$\x7b1\x7d")
  url : Literal url
  auth : ∀ a, basicAuth = some a → Literal (a.user ++ ":" ++ htpasswdHash a.hash)

omit h in
theorem printable_routerDoc {rule service : String} {middlewares : List String} (hrule : Literal rule)
    (hservice : Word service)
    (hm : ∀ m ∈ middlewares, Word m) : (routerDoc rule service middlewares).Printable := by
  have hweb : (Node.seqOf [.word "websecure"]).Printable :=
    printable_words (l := ["websecure"]) (by decide) (by simp)
  have htls : (Node.mapOf [("certResolver", .word "letsencrypt")]).Printable :=
    printable_mapOf fun e he => by
    rw [List.mem_singleton.1 he]
    exact ⟨(by decide : isPlain "certResolver".toList = true),
      (by decide : isPlain "letsencrypt".toList = true)⟩
  have hlist : middlewares ≠ [] → (Node.seqOf (middlewares.map .word)).Printable :=
    printable_words fun m hm' => (hm m hm').plain
  refine printable_mapOf fun e he => ?_
  simp only [List.mem_append, List.mem_cons, List.not_mem_nil, or_false] at he
  rcases he with ((rfl | rfl | rfl | rfl) | he) | rfl
  · exact ⟨(by decide : isPlain "rule".toList = true), hrule.good⟩
  · exact ⟨(by decide : isPlain "entryPoints".toList = true), hweb⟩
  · exact ⟨(by decide : isPlain "tls".toList = true), htls⟩
  · exact ⟨(by decide : isPlain "service".toList = true), hservice.plain⟩
  · split_ifs at he with hnil
    · cases he
    · rw [List.mem_singleton.1 he]
      exact ⟨(by decide : isPlain "middlewares".toList = true), hlist hnil⟩
  · exact ⟨(by decide : isPlain "priority".toList = true), (by decide : isPlain "1000".toList = true)⟩

omit h in
theorem printable_single {key : String} {t : Node} (hk : isPlain key.toList = true) (ht : t.Printable) :
    (Node.mapOf [(key, t)]).Printable := printable_mapOf fun e he => by
  rw [List.mem_singleton.1 he]
  exact ⟨hk, ht⟩

theorem printable_dynamicDoc {routing : Routing} {url : String} {basicAuth : Option BasicAuth}
    (hw : Writable routing url basicAuth) :
    (dynamicDoc name routing url basicAuth).Printable := by
  have hrouters : (Node.mapOf (routersOf name routing basicAuth)).Printable :=
    printable_mapOf fun e he => by
    refine ⟨(keys_routersOf h routing basicAuth e he).plain, ?_⟩
    rcases List.mem_cons.1 he with rfl | he
    · exact printable_routerDoc hw.rule h.word (h.guard basicAuth)
    · obtain ⟨r, hr, rfl⟩ := List.mem_map.1 he
      exact printable_routerDoc (hw.redirect r (by simpa using hr)).1 h.word fun m hm => by
        rw [List.mem_singleton.1 hm]
        exact h.redir.word
  have hservice : (serviceDoc url).Printable :=
    printable_single (by decide) (printable_single (by decide) ⟨⟨(by decide : isPlain "url".toList = true), hw.url.good, trivial, trivial⟩, by intro hnil; cases hnil⟩)
  have hmiddlewares : (Node.mapOf (middlewaresOf name routing basicAuth)).Printable :=
    printable_mapOf fun e he => by
    refine ⟨(keys_middlewaresOf h routing basicAuth e he).plain, ?_⟩
    rcases List.mem_append.1 he with he | he
    · obtain ⟨a, ha, rfl⟩ := List.mem_map.1 he
      refine printable_single (by decide) (printable_mapOf fun e he => ?_)
      simp only [List.mem_cons, List.not_mem_nil, or_false] at he
      rcases he with rfl | rfl
      · exact ⟨(by decide : isPlain "removeHeader".toList = true),
          (by decide : isPlain "true".toList = true)⟩
      · exact ⟨(by decide : isPlain "users".toList = true),
          ⟨(hw.auth a (by simpa using ha)).good, trivial⟩, by intro hnil; cases hnil⟩
    · obtain ⟨r, hr, rfl⟩ := List.mem_map.1 he
      refine printable_single (by decide) (printable_mapOf fun e he => ?_)
      simp only [List.mem_cons, List.not_mem_nil, or_false] at he
      rcases he with rfl | rfl | rfl
      · exact ⟨(by decide : isPlain "regex".toList = true), (hw.redirect r (by simpa using hr)).2⟩
      · exact ⟨(by decide : isPlain "replacement".toList = true), hw.canonical.good⟩
      · exact ⟨(by decide : isPlain "permanent".toList = true),
          (by decide : isPlain "true".toList = true)⟩
  refine printable_single (by decide) (printable_mapOf fun e he => ⟨(keys_partsOf routing url basicAuth e he).plain, ?_⟩)
  simp only [partsOf, List.mem_append, List.mem_cons, List.not_mem_nil, or_false] at he
  rcases he with (rfl | rfl) | he
  · exact hrouters
  · exact printable_single h.word.plain hservice
  · split_ifs at he
    · cases he
    · rw [List.mem_singleton.1 he]
      exact hmiddlewares

omit h in
theorem sound_routerDoc {rule service : String} {middlewares : List String} (hrule : Literal rule)
    (hservice : Word service)
    (hm : ∀ m ∈ middlewares, Word m) : (routerDoc rule service middlewares).sound = true := by
  have hweb : (Node.seqOf [.word "websecure"]).sound = true :=
    sound_words (l := ["websecure"]) (Word.of_all (by decide))
  have htls : (Node.mapOf [("certResolver", .word "letsencrypt")]).sound = true := by decide
  have hpriority : (Node.word "1000").sound = true := by decide
  by_cases hnil : middlewares = []
  · rw [routerDoc, if_pos hnil]
    refine (sound_mapOf _ (Word.keys ["rule", "entryPoints", "tls", "service", "priority"] rfl (by decide))).trans ?_
    simp [hrule.sound, hweb, htls, hservice.sound, hpriority]
  · rw [routerDoc, if_neg hnil]
    refine (sound_mapOf _ (Word.keys ["rule", "entryPoints", "tls", "service", "middlewares", "priority"] rfl (by decide))).trans ?_
    simp [hrule.sound, hweb, htls, hservice.sound, hpriority, sound_words hm]

omit h in
theorem sound_single {key : String} (hk : Word key) (t : Node) :
    (Node.mapOf [(key, t)]).sound = t.sound := by
  rw [sound_mapOf _ fun e he => by rw [List.mem_singleton.1 he]; exact hk]
  simp

omit h in
theorem sound_serviceDoc {url : String} (hu : Literal url) : (serviceDoc url).sound = true := by
  have hseq : (Node.seqOf [.mapOf [("url", .text url)]]).sound =
      (Node.mapOf [("url", .text url)]).sound := by
    simp [Node.seqOf, Items.ofList, Node.sound, Items.sound]
  rw [serviceDoc, sound_single (word_of (by decide)), sound_single (word_of (by decide)), hseq,
    sound_single (word_of (by decide)), hu.sound]

omit h in
theorem sound_authDoc {auth : BasicAuth} (ha : Literal (auth.user ++ ":" ++ htpasswdHash auth.hash)) :
    (authDoc auth).sound = true := by
  have hseq : (Node.seqOf [.text (auth.user ++ ":" ++ htpasswdHash auth.hash)]).sound = true := by
    simpa [Node.seqOf, Items.ofList, Node.sound, Items.sound] using ha.sound
  have htrue : (Node.word "true").sound = true := by decide
  rw [authDoc, sound_single (word_of (by decide)),
    sound_mapOf _ (Word.keys ["removeHeader", "users"] rfl (by decide))]
  simp [hseq, htrue]

omit h in
theorem sound_redirectDoc {canonical : String} (hc : Literal ("https://" ++ canonical ++ "/$\x7b1\x7d"))
    (r : String) :
    (redirectDoc r canonical).sound = (Node.text (regexText r)).sound := by
  have htrue : (Node.word "true").sound = true := by decide
  rw [redirectDoc, sound_single (word_of (by decide)),
    sound_mapOf _ (Word.keys ["regex", "replacement", "permanent"] rfl (by decide))]
  simp [hc.sound, htrue, regexText]

/-- The document is sound up to the escapes of the redirect's expression. -/
theorem sound_dynamicDoc {routing : Routing} {url : String} {basicAuth : Option BasicAuth}
    (hw : Writable routing url basicAuth) :
    (dynamicDoc name routing url basicAuth).sound = routing.redirect.toList.all fun r => (Node.text (regexText r)).sound := by
  have hne : name ++ "-redir" ≠ name := append_ne name (by simp)
  have hmain := sound_routerDoc hw.rule h.word (h.guard basicAuth)
  have hrouters : (Node.mapOf (routersOf name routing basicAuth)).sound = true := by
    rw [sound_mapOf _ (keys_routersOf h routing basicAuth)]
    cases hr : routing.redirect with
    | none => simp [routersOf, hr, hmain]
    | some r =>
        have hredir : (routerDoc ("Host(`" ++ r ++ "`)") name [name ++ "-redir"]).sound = true :=
          sound_routerDoc (hw.redirect r hr).1 h.word fun m hm => by rw [List.mem_singleton.1 hm]; exact h.redir.word
        simp [routersOf, hr, hmain, hredir, hne.symm]
  have hservice : (Node.mapOf [(name, serviceDoc url)]).sound = true := by
    rw [sound_single h.word, sound_serviceDoc hw.url]
  have hmiddlewares : (Node.mapOf (middlewaresOf name routing basicAuth)).sound =
      routing.redirect.toList.all fun r => (Node.text (regexText r)).sound := by
    have hauth : name ++ "-auth" ≠ name ++ "-redir" := fun he => by
      have := congrArg String.toList he
      simp at this
    rw [sound_mapOf _ (keys_middlewaresOf h routing basicAuth)]
    cases hr : routing.redirect with
    | none =>
        cases hb : basicAuth with
        | none => simp [middlewaresOf, hr]
        | some auth => simp [middlewaresOf, hr, sound_authDoc (hw.auth auth hb)]
    | some r =>
        have hredir := sound_redirectDoc hw.canonical r
        cases hb : basicAuth with
        | none => simp [middlewaresOf, hr, hredir]
        | some auth => simp [middlewaresOf, hr, hredir, hauth, sound_authDoc (hw.auth auth hb)]
  have hparts : (Node.mapOf (partsOf name routing url basicAuth)).sound =
      routing.redirect.toList.all fun r => (Node.text (regexText r)).sound := by
    rw [sound_mapOf _ (keys_partsOf routing url basicAuth)]
    by_cases hm : middlewaresOf name routing basicAuth = []
    · have hnone : routing.redirect = none := by
        have := (List.append_eq_nil_iff.1 hm).2
        simpa using this
      simp [partsOf, hm, hrouters, hservice, hnone]
    · simp [partsOf, hm, hrouters, hservice, hmiddlewares]
  rw [dynamicDoc, sound_single (word_of (by decide)), hparts]

omit h in
theorem height_dynamicDoc : (dynamicDoc name routing url basicAuth).height ≤ maxDepth := by
  have hdoc : (dynamicDoc name routing url basicAuth).height ≤ 10 := by
    cases hr : routing.redirect <;> cases hb : basicAuth <;>
      simp [dynamicDoc, partsOf, routersOf, middlewaresOf, routerDoc, serviceDoc, redirectDoc, authDoc, hr, Node.mapOf, Node.seqOf,
        Node.word, Node.text, Fields.ofList, Items.ofList, Node.height, Fields.height, Items.height]
  exact hdoc.trans (by decide)

/-- The file provider's YAML is well-formed up to the escapes of the redirect's expression, and is the document meant. -/
theorem parse_traefikDynamicConfig {routing : Routing} {opts : DynamicConfigOptions} (port : Nat)
    (hw : Writable routing (opts.backendUrl.getD ("http://" ++ name ++ ":" ++ port.repr)) opts.basicAuth) :
    parse (traefikDynamicConfig name routing port opts).toList =
      if (routing.redirect.toList.all fun r => (Node.text (regexText r)).sound) = true then
        some (dynamicDoc name routing (opts.backendUrl.getD ("http://" ++ name ++ ":" ++ port.repr)) opts.basicAuth)
      else none := by
  have hne : traefikDynamicLines name routing port opts ≠ [] := by simp [traefikDynamicLines]
  have htext := textOf_eq hne (lines_dynamicDoc name routing port opts)
  rw [traefikDynamicConfig, htext, parse_textOf (printable_dynamicDoc h hw) (by nofun) (height_dynamicDoc _ _ _), sound_dynamicDoc h hw]

end Reading

end Yeah.Proxy
