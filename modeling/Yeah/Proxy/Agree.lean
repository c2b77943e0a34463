import Yeah.Proxy.File
import Yeah.Text.Uuid

namespace Yeah.Proxy

open Yaml Text

def appContainer (id : Uuid) : String := "yeah-app-" ++ id.text

theorem named_appContainer (id : Uuid) : Named (appContainer id) := by
  have hyeah : Named "yeah-app-" := ⟨by simp, by simp⟩
  exact hyeah.append id.plain

def HostText (s : String) : Prop := ∀ c ∈ s.toList, isHostChar c = true ∨ c = '.'

theorem isHostChar_of_isLower {c : Char} (h : c.isLower = true) : isHostChar c = true := by
  simp [isHostChar, h]

theorem hostText_of_valid {host : String} (h : isValidHostname host = true) : HostText host := by
  simp only [isValidHostname, Bool.and_eq_true] at h
  obtain ⟨⟨⟨-, hne⟩, hlabels⟩, htop⟩ := h
  intro c hc
  rw [← @List.intercalate_splitOn _ host.toList _ _ '.'] at hc
  rcases mem_intercalate hc with hc | ⟨l, hl, hc⟩
  · exact Or.inr (List.mem_singleton.1 hc)
  · left
    have hnil : host.toList.splitOn '.' ≠ [] := List.splitOn_ne_nil _ _
    rw [← List.dropLast_append_getLast hnil, List.mem_append, List.mem_singleton] at hl
    rcases hl with hl | rfl
    · have hlabel := List.all_eq_true.1 hlabels l hl
      simp only [isLabel, Bool.and_eq_true] at hlabel
      exact List.all_eq_true.1 hlabel.1.1.2 c hc
    · rw [List.getLast?_eq_some_getLast hnil, Option.any_some] at htop
      simp only [isTopLevel, Bool.and_eq_true] at htop
      exact isHostChar_of_isLower (List.all_eq_true.1 htop.2 c hc)

theorem HostText.dropWww {s : String} (h : HostText s) : HostText (dropWww s) := by
  rw [Proxy.dropWww]
  split_ifs
  · intro c hc
    rw [String.toList_ofList] at hc
    exact h c (List.mem_of_mem_drop hc)
  · exact h

theorem HostText.www {s : String} (h : HostText s) : HostText ("www." ++ s) := by
  intro c hc
  rw [String.toList_append, List.mem_append] at hc
  refine hc.elim (fun hc => ?_) (h c)
  simp at hc
  rcases hc with rfl | rfl <;> simp [isHostChar]

theorem isAlphanum_of_host {c : Char} (h : isHostChar c = true) : c.isAlphanum = true ∨ c = '-' := by
  simp only [isHostChar, Bool.or_eq_true, decide_eq_true_eq] at h
  rcases h with (hlower | hdigit) | hdash
  · have hletter : c.isAlpha = true := Bool.or_eq_true_iff.2 (Or.inr hlower)
    exact Or.inl (Bool.or_eq_true_iff.2 (Or.inl hletter))
  · exact Or.inl (Bool.or_eq_true_iff.2 (Or.inr hdigit))
  · exact Or.inr hdash

theorem HostText.literal {s : String} (h : HostText s) : Literal s := by
  intro c hc
  have hne (d : Char) (hd : isHostChar d = false) (hdot : d ≠ '.') : c ≠ d := by
    rintro rfl
    exact (h c hc).elim (by simp [hd]) hdot
  refine ⟨hne '"' (by decide) (by decide), hne '\\' (by decide) (by decide), ?_⟩
  rcases h c hc with hh | rfl
  · rcases isAlphanum_of_host hh with ha | rfl
    · have := toNat_of_alphanum ha
      omega
    · decide
  · decide

theorem regexSpecial_host {c : Char} (h : isHostChar c = true ∨ c = '.') :
    regexSpecial c = true ↔ c = '.' := by
  refine ⟨fun hs => ?_, fun he => by subst he; decide⟩
  rcases h with hh | he
  · have hno : ∀ d ∈ ".*+?^$\x7b\x7d()|[]\\".toList, isHostChar d = false := by simp [isHostChar]
    have := hno c (of_decide_eq_true hs)
    simp [hh] at this
  · exact he

/-- `regexEscape` on hostnames: the dots are escaped. -/
def escapeDots (l : List Char) : List Char := l.flatMap fun c => if c = '.' then ['\\', '.'] else [c]

theorem toList_regexEscape {s : String} (h : HostText s) :
    (regexEscape s).toList = escapeDots s.toList := by
  rw [regexEscape, String.toList_ofList, escapeDots, List.flatMap_def, List.flatMap_def]
  refine congrArg List.flatten (List.map_congr_left fun c hc => ?_)
  by_cases hd : c = '.'
  · rw [if_pos ((regexSpecial_host (h c hc)).2 hd), if_pos hd, hd]
  · rw [if_neg fun hs => hd ((regexSpecial_host (h c hc)).1 hs), if_neg hd]

theorem escapeDots_of_notMem {l : List Char} (h : '.' ∉ l) : escapeDots l = l := by
  induction l with
  | nil => rfl
  | cons c l ih =>
      have hc : c ≠ '.' := fun he => h (by simp [he])
      have hl : l.flatMap (fun c => if c = '.' then ['\\', '.'] else [c]) = l :=
        ih fun hm => h (by simp [hm])
      rw [escapeDots, List.flatMap_cons, if_neg hc, hl]
      rfl

theorem isBody_append {l : List Char} (h : ∀ c ∈ l, c ≠ '"' ∧ c ≠ '\\') (rest : List Char) :
    isBody false (l ++ rest) = isBody false rest := by
  induction l with
  | nil => rfl
  | cons c l ih =>
      obtain ⟨hq, hb⟩ := h c (by simp)
      simp [isBody, hq, hb, ih fun d hd => h d (by simp [hd])]

theorem isBody_escapeDots {l : List Char} (h : ∀ c ∈ l, c ≠ '"' ∧ c ≠ '\\') (rest : List Char) :
    isBody false (escapeDots l ++ rest) = isBody false rest := by
  induction l with
  | nil => rfl
  | cons c l ih =>
      obtain ⟨hq, hb⟩ := h c (by simp)
      have hl := ih fun d hd => h d (by simp [hd])
      rw [escapeDots, List.flatMap_cons, ← escapeDots, List.append_assoc]
      split_ifs with hc
      · simpa [isBody] using hl
      · simpa [isBody, hq, hb] using hl

theorem good_regexText {r : String} (h : HostText r) : (Raw.quoted (regexText r).toList).Good := by
  have hhead : ∀ c ∈ "^https?://".toList, c ≠ '"' ∧ c ≠ '\\' := by simp
  have htail : ∀ c ∈ "/(.*)".toList, c ≠ '"' ∧ c ≠ '\\' := by simp
  have hr : ∀ c ∈ r.toList, c ≠ '"' ∧ c ≠ '\\' := fun c hc => ⟨(h.literal c hc).1, (h.literal c hc).2.1⟩
  have htext : (regexText r).toList = "^https?://".toList ++
    (escapeDots r.toList ++ ("/(.*)".toList ++ [])) := by
    simp [regexText, toList_regexEscape h]
  rw [htext]
  refine ⟨?_, ?_⟩
  · rw [isBody_append hhead, isBody_escapeDots hr, isBody_append htail]
    rfl
  · have hdots : '\n' ∉ escapeDots r.toList := fun hn => by
      obtain ⟨c, hc, hm⟩ := List.mem_flatMap.1 hn
      split_ifs at hm with hd
      · simp at hm
      · obtain rfl : '\n' = c := List.mem_singleton.1 hm
        exact absurd (h.literal _ hc).2.2 (by decide)
    simpa using hdots

theorem literal_const {s : String}
    (h : s.toList.all (fun c => c ≠ '"' && c ≠ '\\' && 0x20 ≤ c.toNat) = true) : Literal s :=
  fun c hc => by
  have := List.all_eq_true.1 h c hc
  simpa [and_assoc] using this

theorem literal_regexText {r : String} (h : HostText r) (hdot : '.' ∉ r.toList) :
    Literal (regexText r) := by
  have hr : (regexEscape r) = r :=
    String.toList_inj.1 (by rw [toList_regexEscape h, escapeDots_of_notMem hdot])
  rw [regexText, hr]
  exact ((literal_const (s := "^https?://") (by decide)).append h.literal).append
    (literal_const (s := "/(.*)") (by decide))

/-- The redirect's expression is a string of YAML exactly if its host has no dot. -/
theorem sound_regexText {r : String} (h : HostText r) :
    (Node.text (regexText r)).sound = true ↔ '.' ∉ r.toList := by
  have htext : (regexText r).toList = "^https?://".toList ++ (escapeDots r.toList ++ "/(.*)".toList) := by
    simp [regexText, toList_regexEscape h]
  have hhead : ∀ c ∈ "^https?://".toList, c ≠ '\\' ∧ 0x20 ≤ c.toNat := by simp
  constructor
  · intro hs hdot
    obtain ⟨before, after, hr, hb⟩ := List.eq_append_cons_of_mem hdot
    have hbefore : ∀ c ∈ before, c ≠ '\\' ∧ 0x20 ≤ c.toNat :=
      fun c hc => (h.literal c (by simp [hr, hc])).2
    have hsplit : escapeDots r.toList = before ++ '\\' :: '.' :: escapeDots after := by
      have happ : escapeDots r.toList = escapeDots before ++ escapeDots ('.' :: after) := by
        rw [hr]
        exact List.flatMap_append
      rw [happ, escapeDots_of_notMem hb]
      rfl
    have hnone : unescape .text (regexText r).toList = none := by
      rw [htext, hsplit, Literal.unescape hhead, List.append_assoc, Literal.unescape hbefore]
      rfl
    simp [Node.text, Node.sound, Raw.value, hnone] at hs
  · exact fun hdot => (literal_regexText h hdot).sound

theorem literal_ruleOf {hosts : List String} (h : ∀ host ∈ hosts, HostText host) :
    Literal (ruleOf hosts) := by
  intro c hc
  rw [ruleOf, String.toList_intercalate] at hc
  rcases mem_intercalate hc with hc | ⟨l, hl, hc⟩
  · exact literal_const (s := " || ") (by decide) c hc
  · simp only [List.map_map, List.mem_map, Function.comp] at hl
    obtain ⟨host, hhost, rfl⟩ := hl
    exact (((literal_const (s := "Host(`") (by decide)).append (h host hhost).literal).append (literal_const (s := "`)") (by decide))) c hc

theorem literal_repr (n : Nat) : Literal n.repr := by
  intro c hc
  rw [Nat.toList_repr] at hc
  have hd := Nat.isDigit_of_mem_toDigits (by decide) (by decide) hc
  have ha : isHostChar c = true := by simp [isHostChar, hd]
  exact HostText.literal (s := String.singleton c) (fun d hd => by simp_all) c (by simp)

theorem Named.literal {name : String} (h : Named name) : Literal name := by
  intro c hc
  have hne (d : Char) (hd : d.isAlphanum = false) (hdash : d ≠ '-') : c ≠ d := by
    rintro rfl
    exact h.notMem hd hdash hc
  refine ⟨hne '"' (by decide) (by decide), hne '\\' (by decide) (by decide), ?_⟩
  rcases h.chars c hc with ha | rfl
  · have := toNat_of_alphanum ha
    omega
  · decide

/-- A routing of hostnames. -/
structure HostRouting (routing : Routing) : Prop where
  hosts : ∀ h ∈ routing.hosts, HostText h
  canonical : HostText routing.canonical
  redirect : ∀ r, routing.redirect = some r → HostText r

theorem hostRouting_computeRouting {primary : String} {extras : List String} (hp : HostText primary)
    (he : ∀ e ∈ extras, HostText e)
    (redirect : WwwRedirect) : HostRouting (computeRouting primary extras redirect) := by
  have hcanonical : HostText (computeRouting primary extras redirect).canonical := by
    cases redirect
    · exact hp
    · exact hp.dropWww
    · exact hp.dropWww.www
  refine ⟨fun h hh => ?_, hcanonical, fun r hr => ?_⟩
  · simp only [computeRouting, List.mem_eraseDups, List.mem_cons, List.mem_filter] at hh
    rcases hh with rfl | ⟨hh, -⟩
    · exact hcanonical
    · exact he h hh
  · have hfrom := (Option.filter_eq_some_iff.1 hr).1
    cases redirect
    · cases hfrom
    · obtain rfl := Option.some.inj hfrom
      exact hp.dropWww.www
    · obtain rfl := Option.some.inj hfrom
      exact hp.dropWww

theorem writable_of_hosts {routing : Routing} (h : HostRouting routing) {url : String} (hu : Literal url) :
    Writable routing url none where
  rule := literal_ruleOf h.hosts
  redirect r hr :=
    ⟨((literal_const (s := "Host(`") (by decide)).append (h.redirect r hr).literal).append (literal_const (s := "`)") (by decide)),
      good_regexText (h.redirect r hr)⟩
  canonical :=
    ((literal_const (s := "https://") (by decide)).append h.canonical.literal).append (literal_const (s := "/$\x7b1\x7d") (by decide))
  url := hu
  auth := nofun

def plainOptions : DynamicConfigOptions := ⟨none, none⟩

/-- The file is well-formed, and says what the labels say. -/
def Agree (name : String) (routing : Routing) (port : Nat) : Prop :=
  ∃ t, parse (traefikDynamicConfig name routing port plainOptions).toList = some t ∧
    fromFile t = fromLabels name (traefikLabels name routing port)

theorem agree_iff {name : String} (h : Named name) {routing : Routing} (hr : HostRouting routing)
    (port : Nat) :
    Agree name routing port ↔ ∀ r, routing.redirect = some r → '.' ∉ r.toList := by
  have hurl : Literal ("http://" ++ name ++ ":" ++ port.repr) :=
    (((literal_const (s := "http://") (by decide)).append h.literal).append (literal_const (s := ":") (by decide))).append (literal_repr port)
  have hw := writable_of_hosts hr hurl
  have hsound : (routing.redirect.toList.all fun r => (Node.text (regexText r)).sound) = true ↔
      ∀ r, routing.redirect = some r → '.' ∉ r.toList := by
    simp only [List.all_eq_true, Option.mem_toList]
    exact forall_congr' fun r => forall_congr' fun he => sound_regexText (hr.redirect r he)
  have hparse : parse (traefikDynamicConfig name routing port plainOptions).toList = _ :=
    parse_traefikDynamicConfig h port hw
  rw [Agree, hparse, ← hsound]
  constructor
  · rintro ⟨t, ht, -⟩
    by_contra hn
    rw [if_neg hn] at ht
    cases ht
  · intro hs
    refine ⟨_, if_pos hs, ?_⟩
    have hq : Quotable routing ("http://" ++ name ++ ":" ++ port.repr) none :=
      ⟨hw.rule, fun r he => ⟨(hw.redirect r he).1, literal_regexText (hr.redirect r he) (hsound.1 hs r he)⟩,
        hw.canonical, hw.url, nofun⟩
    exact (fromFile_dynamicDoc h hq).trans (fromLabels_routing h routing port).symm

/-- Of the hostnames that a redirect leaves, only a bare top-level domain has no dot. -/
theorem redirect_dot_iff (primary : String) (extras : List String) (redirect : WwwRedirect) :
    (∀ r, (computeRouting primary extras redirect).redirect = some r → '.' ∉ r.toList) ↔
      redirect = .none ∨ (redirect = .rootToWww ∧ '.' ∉ (dropWww primary).toList) := by
  cases redirect with
  | none => simp [computeRouting, Routing.redirect]
  | wwwToRoot =>
      have hr : (computeRouting primary extras .wwwToRoot).redirect = some ("www." ++ dropWww primary) := by
        simp [computeRouting, Routing.redirect]
      simp [hr]
  | rootToWww =>
      have hr : (computeRouting primary extras .rootToWww).redirect =
          (some (dropWww primary)).filter (· ≠ "") :=
        rfl
      by_cases hb : dropWww primary = ""
      · simp [hr, hb]
      · simp [hr, hb]

/-- For every routing of valid hostnames. -/
theorem computeRouting_agree_iff (id : Uuid) {primary : String} {extras : List String}
    (hp : isValidHostname primary = true)
    (he : ∀ e ∈ extras, isValidHostname e = true) (redirect : WwwRedirect) (port : Nat) :
    Agree (appContainer id) (computeRouting primary extras redirect) port ↔
      redirect = .none ∨ (redirect = .rootToWww ∧ '.' ∉ (dropWww primary).toList) := by
  have hr :=
    hostRouting_computeRouting (hostText_of_valid hp) (fun e h => hostText_of_valid (he e h)) redirect
  exact (agree_iff (named_appContainer id) hr port).trans (redirect_dot_iff primary extras redirect)

theorem computeRouting_agree_iff_plain :
    Agree (appContainer (.fill 'a' rfl)) (computeRouting "a.com" ["b.com"] .none) 3000 :=
  (computeRouting_agree_iff _ (by decide) (by decide) .none 3000).2 (Or.inl rfl)

/-- A redirect from the root: the escaped dot of the file's expression is no YAML, and the file is not well-formed. -/
theorem redirect_malformed : isValidHostname "a.com" = true ∧
    ¬ Agree (appContainer (.fill 'a' rfl)) (computeRouting "a.com" [] .rootToWww) 80 := by
  have hp : isValidHostname "a.com" = true := by decide
  refine ⟨hp, fun h => ?_⟩
  have hr :=
    hostRouting_computeRouting (hostText_of_valid hp) (fun e (he : e ∈ []) => nomatch he) .rootToWww
  have := (redirect_dot_iff "a.com" [] .rootToWww).1 ((agree_iff (named_appContainer _) hr 80).1 h)
  revert this
  decide

end Yeah.Proxy
