import Yeah.Proxy.Agree
import Yeah.Sorting

namespace Yeah.Proxy

open Text

/-- The body of `PUT /:applicationId/domain`. -/
structure DomainBody where
  domain : Option String
  extraDomains : Option (List String)
  wwwRedirect : Option WwwRedirect

/-- The hosts of an application, as its row has them. -/
structure DomainRow where
  id : Nat
  teamId : Nat
  name : String
  domain : Option String
  extraDomains : List String
  wwwRedirect : WwwRedirect

/-- What the route has read from a request; no domain is an empty text. -/
structure DomainRequest where
  domain : String
  extraDomains : List String
  wwwRedirect : WwwRedirect

structure Refusal where
  status : Nat
  error : String

def DomainRequest.listed (r : DomainRequest) : List String :=
  (r.domain :: r.extraDomains).filter fun h => h ≠ ""

section Route

variable (lower : String → String)

def primaryOf (body : DomainBody) : String :=
  ((body.domain.filter fun domain => domain ≠ "").map (normalizeHost lower)).getD ""

def extrasOf (body : DomainBody) : List String :=
  (((body.extraDomains.getD []).map (normalizeHost lower)).filter fun d => d ≠ "").eraseDups.filter fun d => d ≠ primaryOf lower body

/-- The route up to the check for conflicts. -/
def readDomains (body : DomainBody) (row : DomainRow) : Except Refusal DomainRequest :=
  let request : DomainRequest :=
    ⟨primaryOf lower body, extrasOf lower body, body.wwwRedirect.getD row.wwwRedirect⟩
  if request.extraDomains.length > 10 then .error ⟨400, "at most 10 additional domains"⟩
  else match request.listed.find? fun h => ¬ isValidHostname h with
    | some host => .error ⟨400, s!"invalid domain: {host}"⟩
    | none =>
        if request.wwwRedirect ≠ .none ∧
          request.domain = "" then .error ⟨400, "the www redirect needs a primary domain"⟩
        else .ok request

def DomainRequest.mine (r : DomainRequest) : List String :=
  r.listed ++ if r.wwwRedirect ≠ .none then ["www." ++ dropWww r.domain, dropWww r.domain] else []

def theirs (other : DomainRow) : List String :=
  match other.domain.filter fun domain => domain ≠ "" with
  | some domain =>
      let r := computeRouting (normalizeHost lower domain) other.extraDomains other.wwwRedirect
      r.hosts ++ r.redirect.toList
  | none => other.extraDomains

def clash (mine : List String) (other : DomainRow) : Option String :=
  (theirs lower other).find? fun h => h ≠ "" ∧ h ∈ mine

/-- The first application of the team that has one of the hosts. -/
def conflict (row : DomainRow) (mine : List String) (others : List DomainRow) : Option Refusal :=
  (others.filter fun other => other.teamId = row.teamId ∧ other.id ≠ row.id).findSome? fun other =>
    (clash lower mine other).map fun host => ⟨409, s!"the domain {host} is already used by {other.name}"⟩

def DomainRequest.store (r : DomainRequest) (row : DomainRow) : DomainRow :=
  { row with
    domain := if r.domain = "" then none else some r.domain
    extraDomains := r.extraDomains
    wwwRedirect := if r.domain = "" then .none else r.wwwRedirect }

end Route

variable {lower : String → String} {body : DomainBody} {row : DomainRow} {request : DomainRequest}

/-- What the route has checked. -/
structure DomainRequest.Accepted (r : DomainRequest) : Prop where
  valid : ∀ h ∈ r.listed, isValidHostname h
  extras : ∀ e ∈ r.extraDomains, e ≠ "" ∧ e ≠ r.domain
  redirect : r.wwwRedirect ≠ .none → r.domain ≠ ""

theorem accepted_of_readDomains (h : readDomains lower body row = .ok request) : request.Accepted := by
  rw [readDomains] at h
  dsimp only at h
  split at h
  · cases h
  · split at h
    · cases h
    · next hvalid =>
      split at h
      · cases h
      · next hredirect =>
        cases h
        refine ⟨fun host hh => ?_, fun e he => ?_, fun hw hd => hredirect ⟨hw, hd⟩⟩
        · simpa using List.find?_eq_none.1 hvalid host hh
        · obtain ⟨hm, hne⟩ := List.mem_filter.1 he
          rw [List.mem_eraseDups, List.mem_filter] at hm
          exact ⟨of_decide_eq_true hm.2, of_decide_eq_true hne⟩

theorem dropPath_of_host {text : List Char} (h : ∀ c ∈ text, isHostChar c = true ∨ c = '.') :
    dropPath text = text := by
  induction text with
  | nil => rfl
  | cons c text ih =>
      have hc : c ∉ ['/', '?', '#'] := by
        intro hm
        have hhost := h c List.mem_cons_self
        simp at hm
        rcases hm with rfl | rfl | rfl <;> simp [isHostChar] at hhost
      rw [dropPath, if_neg fun hn => hc hn.1, ih fun d hd => h d (List.mem_cons_of_mem _ hd)]

theorem getLast_of_valid {host : String} (h : isValidHostname host) :
    host.toList.getLast? ≠ some '.' := by
  simp only [isValidHostname, Bool.and_eq_true] at h
  intro hlast
  obtain ⟨t, ht⟩ := List.getLast?_eq_some_iff.1 hlast
  have htop := h.2
  rw [ht, List.splitOn_append_cons_self, List.splitOn_nil, List.getLast?_append] at htop
  cases htop

theorem isSpace_of_host {c : Char} (h : isHostChar c = true ∨ c = '.') : isSpace c.toNat = false := by
  have hrange : 45 ≤ c.toNat ∧ c.toNat ≤ 122 := by
    rcases h with h | rfl
    · rcases isAlphanum_of_host h with ha | rfl
      · have hletter := alphanum_range ha
        omega
      · decide
    · decide
  exact isSpace_of_range (by omega)

/-- A hostname is read as it is written. -/
theorem normalizeHost_of_valid (hlower : ∀ s, HostText s → lower s = s) {host : String}
    (h : isValidHostname host) :
    normalizeHost lower host = host := by
  have hhost := hostText_of_valid h
  have htrim : trim host = host := by
    exact trim_of_none fun c hc => isSpace_of_host (hhost c hc)
  have hscheme : ¬ "://".toList <+: host.toList.dropWhile Char.isLower := by
    intro hp
    have hcolon : ':' ∈ host.toList := (List.dropWhile_sublist _).subset (hp.subset (by simp))
    have hchar := hhost ':' hcolon
    simp [isHostChar] at hchar
  rw [normalizeHost, htrim, hlower host hhost]
  simp only [hscheme, and_false, if_false]
  rw [dropPath_of_host hhost, if_neg (getLast_of_valid h), String.ofList_toList]

theorem dropWww_cases (host : String) : dropWww host = host ∨ "www." ++ dropWww host = host := by
  rw [dropWww]
  split_ifs with h
  · right
    obtain ⟨t, ht⟩ := h
    rw [← String.toList_inj, String.toList_append, String.toList_ofList, ← ht]
    rw [String.toList_ofList]
    exact congrArg ("www.".toList ++ ·) (List.drop_left' rfl)
  · exact Or.inl rfl

theorem www_ne (s : String) : "www." ++ s ≠ s := by
  intro h
  have hlength := congrArg (fun t => t.toList.length) h
  simp at hlength
  omega

section Routing

variable (primary : String) (extras : List String) (redirect : WwwRedirect)

theorem mem_hosts_iff {h : String} :
    h ∈ (computeRouting primary extras redirect).hosts ↔
      h = (computeRouting primary extras redirect).canonical ∨
        h ∈ extras ∧ some h ≠ (computeRouting primary extras redirect).redirectFrom := by
  simp only [computeRouting, List.mem_eraseDups, List.mem_cons, List.mem_filter, decide_eq_true_eq]

/-- The host that redirects is not its own target. -/
theorem redirectFrom_ne_canonical :
    (computeRouting primary extras redirect).redirectFrom ≠ some (computeRouting primary extras redirect).canonical := by
  cases redirect with
  | none => exact fun h => by cases h
  | wwwToRoot => exact fun h => www_ne _ (Option.some_inj.1 h)
  | rootToWww => exact fun h => www_ne _ (Option.some_inj.1 h).symm

theorem primary_routed :
    primary = (computeRouting primary extras redirect).canonical ∨
      (computeRouting primary extras redirect).redirectFrom = some primary := by
  cases redirect with
  | none => exact Or.inl rfl
  | wwwToRoot =>
      rcases dropWww_cases primary with h | h
      · exact Or.inl h.symm
      · exact Or.inr (congrArg some h)
  | rootToWww =>
      rcases dropWww_cases primary with h | h
      · exact Or.inr (congrArg some h)
      · exact Or.inl h.symm

theorem not_mem_hosts_of_redirectFrom {h : String}
    (hr : (computeRouting primary extras redirect).redirectFrom = some h) :
    h ∉ (computeRouting primary extras redirect).hosts := by
  rw [mem_hosts_iff]
  rintro (rfl | ⟨-, hne⟩)
  · exact redirectFrom_ne_canonical primary extras redirect hr
  · exact hne hr.symm

theorem listed_routed {h : String} (hl : h ∈ primary :: extras) :
    h ∈ (computeRouting primary extras redirect).hosts ∨
      (computeRouting primary extras redirect).redirectFrom = some h := by
  by_cases hr : (computeRouting primary extras redirect).redirectFrom = some h
  · exact Or.inr hr
  · left
    rw [mem_hosts_iff]
    rcases List.mem_cons.1 hl with rfl | hl
    · exact Or.inl ((primary_routed h extras redirect).resolve_right hr)
    · exact Or.inr ⟨hl, fun he => hr he.symm⟩

theorem mem_forms {h : String} (hh : h = primary) :
    h = "www." ++ dropWww primary ∨ h = dropWww primary := by
  subst hh
  rcases dropWww_cases h with he | he
  · exact Or.inr he.symm
  · exact Or.inl he.symm

theorem forms_iff {h : String} : (h = (computeRouting primary extras redirect).canonical ∨
      (computeRouting primary extras redirect).redirectFrom = some h) ↔
    h = primary ∨ redirect ≠ .none ∧ (h = "www." ++ dropWww primary ∨ h = dropWww primary) := by
  cases redirect with
  | none => simp [computeRouting]
  | wwwToRoot =>
      simp only [computeRouting, Option.some.injEq, ne_eq, reduceCtorEq, not_false_eq_true, true_and]
      rw [or_iff_right_of_imp (mem_forms primary), or_comm]
      exact or_congr_left eq_comm
  | rootToWww =>
      simp only [computeRouting, Option.some.injEq, ne_eq, reduceCtorEq, not_false_eq_true, true_and]
      rw [or_iff_right_of_imp (mem_forms primary)]
      exact or_congr_right eq_comm

theorem routed_iff {h : String} :
    (h ∈ (computeRouting primary extras redirect).hosts ∨ (computeRouting primary extras redirect).redirectFrom = some h) ↔
      h ∈ primary :: extras ∨ redirect ≠ .none ∧
        (h = "www." ++ dropWww primary ∨ h = dropWww primary) := by
  rw [mem_hosts_iff, List.mem_cons, or_right_comm, forms_iff, or_right_comm]
  by_cases he : (computeRouting primary extras redirect).redirectFrom = some h
  · have hform := (forms_iff primary extras redirect).1 (Or.inr he)
    exact iff_of_true (hform.imp_left Or.inl) (hform.imp_left Or.inl)
  · rw [and_iff_left (fun hs => he hs.symm)]

end Routing

namespace DomainRequest.Accepted

variable {r : DomainRequest}

theorem listed_eq (h : r.Accepted) (hd : r.domain ≠ "") : r.listed = r.domain :: r.extraDomains := by
  refine List.filter_eq_self.2 fun host hh => decide_eq_true ?_
  rcases List.mem_cons.1 hh with rfl | hh
  · exact hd
  · exact (h.extras host hh).1

theorem listed_eq_of_empty (h : r.Accepted) (hd : r.domain = "") : r.listed = r.extraDomains := by
  rw [listed, List.filter_cons_of_neg (by simp [hd])]
  exact List.filter_eq_self.2 fun host hh => decide_eq_true (h.extras host hh).1

/-- What the check reserves is what is routed. -/
theorem mem_mine_iff (h : r.Accepted) (hd : r.domain ≠ "") {host : String} :
    host ∈ r.mine ↔ host ∈ (computeRouting r.domain r.extraDomains r.wwwRedirect).hosts ∨
      (computeRouting r.domain r.extraDomains r.wwwRedirect).redirectFrom = some host := by
  rw [routed_iff, mine, h.listed_eq hd, List.mem_append]
  split_ifs with hw
  · simp [hw]
  · simp [hw]

theorem ne_empty_of_mine (h : r.Accepted) {host : String} (hh : host ∈ r.mine) : host ≠ "" := by
  rw [mine, List.mem_append] at hh
  rcases hh with hh | hh
  · exact of_decide_eq_true (List.mem_filter.1 hh).2
  · split_ifs at hh with hw
    · have hd := h.redirect hw
      have hvalid : isValidHostname r.domain := h.valid r.domain (by simp [h.listed_eq hd])
      simp only [List.mem_cons, List.not_mem_nil, or_false] at hh
      rcases hh with rfl | rfl
      · simp
      · intro hempty
        rcases dropWww_cases r.domain with he | he
        · exact hd (he.symm.trans hempty)
        · rw [← he, hempty] at hvalid
          revert hvalid
          decide
    · cases hh

/-- Another application's hosts are those that its own request has reserved. -/
theorem mem_theirs_iff (h : r.Accepted) (hlower : ∀ s, HostText s → lower s = s) (row : DomainRow)
    {host : String} :
    host ∈ theirs lower (r.store row) ↔ host ∈ r.mine := by
  by_cases hd : r.domain = ""
  · have hw : r.wwwRedirect = .none := by
      by_contra hn
      exact h.redirect hn hd
    rw [mine, h.listed_eq_of_empty hd]
    simp [theirs, store, hd, hw]
  · have hvalid : isValidHostname r.domain := h.valid r.domain (by simp [h.listed_eq hd])
    have hredirect : (computeRouting r.domain r.extraDomains r.wwwRedirect).redirect =
        (computeRouting r.domain r.extraDomains r.wwwRedirect).redirectFrom := by
      rw [Routing.redirect]
      cases hr : (computeRouting r.domain r.extraDomains r.wwwRedirect).redirectFrom with
      | none => rfl
      | some a =>
          have ha : a ≠ "" := h.ne_empty_of_mine ((h.mem_mine_iff hd).2 (Or.inr hr))
          simp [Option.filter, ha]
    rw [h.mem_mine_iff hd]
    simp [theirs, store, hd, Option.filter, normalizeHost_of_valid hlower hvalid, hredirect]

end DomainRequest.Accepted

theorem clash_isSome_iff {mine : List String} {other : DomainRow} :
    (clash lower mine other).isSome ↔ ∃ host ∈ theirs lower other, host ≠ "" ∧ host ∈ mine := by
  rw [clash, List.find?_isSome]
  simp

/-- Every listed host is served or redirected, not both, and what is served or redirected is what is reserved. -/
structure Covers (listed reserved : List String) (r : Routing) : Prop where
  once : ∀ host ∈ listed, (host ∈ r.hosts ∧ r.redirectFrom ≠ some host) ∨
    (host ∉ r.hosts ∧ r.redirectFrom = some host)
  distinct : r.hosts.Nodup
  canonical : r.canonical ∈ r.hosts
  redirected : ∀ host, r.redirectFrom = some host → host ∉ r.hosts ∧ host ≠ r.canonical
  reserved : ∀ host, (host ∈ r.hosts ∨ r.redirectFrom = some host) ↔ host ∈ reserved

theorem covers_of_accepted {r : DomainRequest} (h : r.Accepted) (hd : r.domain ≠ "") :
    Covers (r.domain :: r.extraDomains) r.mine (computeRouting r.domain r.extraDomains r.wwwRedirect) where
  once host hl := by
    have hnot :=
      fun hr => not_mem_hosts_of_redirectFrom r.domain r.extraDomains r.wwwRedirect (h := host) hr
    rcases listed_routed r.domain r.extraDomains r.wwwRedirect hl with hh | hr
    · exact Or.inl ⟨hh, fun hr => hnot hr hh⟩
    · exact Or.inr ⟨hnot hr, hr⟩
  distinct := Sorting.nodup_eraseDups _
  canonical := (mem_hosts_iff _ _ _).2 (Or.inl rfl)
  redirected host hr := by
    refine ⟨not_mem_hosts_of_redirectFrom _ _ _ hr, fun he => ?_⟩
    rw [he] at hr
    exact redirectFrom_ne_canonical _ _ _ hr
  reserved host := (h.mem_mine_iff hd).symm

/-- What the route accepts is routed as it is reserved, so that the check between two applications is symmetric. -/
theorem routing_reserved (hlower : ∀ s, HostText s → lower s = s)
    (h : readDomains lower body row = .ok request) :
    (request.domain ≠ "" →
      Covers (request.domain :: request.extraDomains) request.mine
        (computeRouting request.domain request.extraDomains request.wwwRedirect)) ∧
    ∀ body' row' request', readDomains lower body' row' = .ok request' →
      ((clash lower request.mine (request'.store row')).isSome ↔ (clash lower request'.mine (request.store row)).isSome) := by
  have haccepted := accepted_of_readDomains h
  refine ⟨covers_of_accepted haccepted, fun body' row' request' h' => ?_⟩
  have haccepted' := accepted_of_readDomains h'
  rw [clash_isSome_iff, clash_isSome_iff]
  simp only [haccepted.mem_theirs_iff hlower, haccepted'.mem_theirs_iff hlower]
  exact ⟨fun ⟨host, hm', hne, hm⟩ => ⟨host, hm, hne, hm'⟩,
    fun ⟨host, hm, hne, hm'⟩ => ⟨host, hm', hne, hm⟩⟩

/-- A domain with `www.`, listed again without it, and the redirect to the root. -/
theorem routing_reserved_root :
    Covers ["www.a.com", "a.com"] (DomainRequest.mine ⟨"www.a.com", ["a.com"], .wwwToRoot⟩)
      (computeRouting "www.a.com" ["a.com"] .wwwToRoot) := by
  have hread : readDomains id ⟨some "www.a.com", some ["a.com"], some .wwwToRoot⟩ ⟨0, 0, "web", none, [], .none⟩ =
      .ok ⟨"www.a.com", ["a.com"], .wwwToRoot⟩ := by
    have hwww : isValidHostname "www.a.com" = true := by decide
    have hroot : isValidHostname "a.com" = true := by decide
    have hread (host : String) (h : isValidHostname host = true) : normalizeHost id host = host :=
      normalizeHost_of_valid (fun _ _ => rfl) h
    have hprimary : primaryOf id ⟨some "www.a.com", some ["a.com"], some .wwwToRoot⟩ = "www.a.com" := by
      simp [primaryOf, Option.filter, hread _ hwww]
    have hextras : extrasOf id ⟨some "www.a.com", some ["a.com"], some .wwwToRoot⟩ = ["a.com"] := by
      simp [extrasOf, hprimary, hread _ hroot, List.eraseDups_cons]
    simp [readDomains, hprimary, hextras, DomainRequest.listed, hwww, hroot]
  exact (routing_reserved (fun _ _ => rfl) hread).1 (by simp)

end Yeah.Proxy

