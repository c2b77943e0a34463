import Yeah.Deploy.Command
import Yeah.Runs

namespace Yeah.Deploy.Checkout

open Shell Runs

/-- A commit under its hexadecimal name. -/
structure Commit where
  sha : String
  hex : ∀ c ∈ sha.toList, c ∈ "0123456789abcdef".toList
  deriving DecidableEq

/-- A repository on a git server: its branches, and what comes with a commit. -/
structure Repository where
  branch : String → Option Commit
  history : Commit → List Commit
  self : ∀ c, c ∈ history c

/-- What answers under a URL. -/
abbrev Remote := String → Option Repository

/-- The clone in the directory of the application. The fetch refspec covers one branch; `refs` are the
remote-tracking branches under their short names. -/
structure Clone where
  url : String
  refspec : String
  refs : String → Option Commit
  objects : List Commit
  head : Commit

def trackingRef (branch : String) : String := s!"origin/{branch}"

structure World where
  clone : Option Clone
  remote : Remote

namespace Clone

variable (c : Clone)

/-- `git remote set-url origin url` -/
def setUrl (url : String) : Clone := { c with url := url }

@[simp]
theorem setUrl_url (url : String) : (c.setUrl url).url = url := rfl

/-- `git fetch origin branch` -/
def fetch (repository : Repository) (branch : String) (tip : Commit) : Clone :=
  { c with
    objects := repository.history tip ++ c.objects
    refs := if branch = c.refspec then Function.update c.refs (trackingRef branch) (some tip) else c.refs }

/-- A revision is the name of a remote-tracking branch or of a commit. -/
def resolve (revision : String) : Option Commit :=
  (c.refs revision).orElse fun _ => c.objects.find? fun k => k.sha = revision

/-- `git reset --hard revision` with its exit status. -/
def reset (revision : String) : Clone × Nat :=
  match c.resolve revision with
  | some k => ({ c with head := k }, 0)
  | none => (c, 128)

end Clone

/-- `git clone --branch branch --single-branch url` -/
def cloned (url branch : String) (repository : Repository) (tip : Commit) : Clone where
  url := url
  refspec := branch
  refs := Function.update (fun _ => none) (trackingRef branch) (some tip)
  objects := repository.history tip
  head := tip

/-- The tip of the branch, when the remote can be reached and has it. -/
def tip? (remote : Remote) (url branch : String) : Option (Repository × Commit) :=
  (remote url).bind fun repository => (repository.branch branch).map fun tip => (repository, tip)

/-- What the programs of the checkout do in the directory of the application. -/
def exec (appDir : String) (p : Program) (w : World) : World × Nat :=
  match p.argv with
  | ["cd", dir] =>
      if dir = appDir ∨ (p.dir = appDir ∧ dir = "repo" ∧ w.clone.isSome) then (w, 0) else (w, 1)
  | ["test", "-d", "repo/.git"] => (w, if p.dir = appDir ∧ w.clone.isSome then 0 else 1)
  | ["git", "remote", "set-url", "origin", url] =>
      match w.clone with
      | some c => ({ w with clone := some (c.setUrl url) }, 0)
      | none => (w, 128)
  | ["git", "fetch", "origin", branch] =>
      match w.clone with
      | none => (w, 128)
      | some c =>
          match tip? w.remote c.url branch with
          | some (repository, tip) => ({ w with clone := some (c.fetch repository branch tip) }, 0)
          | none => (w, 128)
  | ["git", "reset", "--hard", revision] =>
      match w.clone with
      | none => (w, 128)
      | some c => ({ w with clone := some (c.reset revision).1 }, (c.reset revision).2)
  | ["git", "clone", "--branch", branch, "--single-branch", url, "repo"] =>
      match w.clone, tip? w.remote url branch with
      | none, some (repository, tip) => ({ w with clone := some (cloned url branch repository tip) }, 0)
      | _, _ => (w, 128)
  | _ => (w, 127)

def machine (appDir : String) : Machine Program String String World where
  empty := ""
  append x y := x ++ y
  number n := toString n
  exec p _ w := ((exec appDir p w).1, "", (exec appDir p w).2)
  read _ _ := none
  write w _ _ := w
  glob _ _ := []

/-- What a deployment asks of the checkout, and what the remotes are by then. -/
structure Request where
  cloneUrl : String
  branch : String
  target : Option String
  keyPath : Option String
  remote : Remote

def Request.run (appDir : String) (x : Request) (s : Option Clone) : Result Program String World :=
  (machine appDir).start (cloneOrPullScript appDir x.cloneUrl x.branch x.target x.keyPath) ⟨s, x.remote⟩

def step (appDir : String) (s : Option Clone) (x : Request) : Option Clone :=
  (x.run appDir s).state.world.clone

/-- From a working directory and a world the command leads to others, with a status. -/
def Leads (appDir : String) (a : Script) (dir : String) (w : World) (dir' : String) (w' : World)
    (n : Nat) : Prop :=
  ∀ s : State String World, s.vars "PWD" = dir → s.world = w →
    ∃ t, (machine appDir).Ends a "" s t ∧ t.vars "PWD" = dir' ∧ t.world = w' ∧ t.status = n

section Leads

variable {appDir : String} {a b : Script} {dir dir₁ dir₂ : String} {w w₁ w₂ : World} {n : Nat}

theorem leads_prog {argv : List String} (h : exec appDir ⟨dir, argv⟩ w = (w₁, n)) :
    Leads appDir (Script.prog argv) dir w dir w₁ n := by
  rintro s rfl rfl
  refine ⟨_, Machine.ends_run _ _ s, rfl, ?_, ?_⟩
  · exact congrArg Prod.fst h
  · exact congrArg Prod.snd h

theorem Leads.and (ha : Leads appDir a dir w dir₁ w₁ 0) (hb : Leads appDir b dir₁ w₁ dir₂ w₂ n) :
    Leads appDir (.and a b) dir w dir₂ w₂ n := by
  intro s hdir hw
  obtain ⟨t, ht, htdir, htw, ht0⟩ := ha s hdir hw
  obtain ⟨u, hu, h⟩ := hb t htdir htw
  exact ⟨u, ht.and ht0 hu, h⟩

theorem Leads.and_failed (ha : Leads appDir a dir w dir₁ w₁ n) (hn : n ≠ 0) :
    Leads appDir (.and a b) dir w dir₁ w₁ n := by
  intro s hdir hw
  obtain ⟨t, ht, h, h', rfl⟩ := ha s hdir hw
  exact ⟨t, ht.and_failed hn, h, h', rfl⟩

theorem Leads.or_done (ha : Leads appDir a dir w dir₁ w₁ 0) : Leads appDir (.or a b) dir w dir₁ w₁ 0 := by
  intro s hdir hw
  obtain ⟨t, ht, h, h', h0⟩ := ha s hdir hw
  exact ⟨t, ht.or_done h0, h, h', h0⟩

theorem Leads.or_else {m : Nat} (ha : Leads appDir a dir w dir₁ w₁ m) (hm : m ≠ 0)
    (hb : Leads appDir b dir₁ w₁ dir₂ w₂ n) :
    Leads appDir (.or a b) dir w dir₂ w₂ n := by
  intro s hdir hw
  obtain ⟨t, ht, htdir, htw, rfl⟩ := ha s hdir hw
  obtain ⟨u, hu, h⟩ := hb t htdir htw
  exact ⟨u, ht.or_else hm hu, h⟩

theorem Leads.sub (ha : Leads appDir a dir w dir₁ w₁ n) : Leads appDir (.sub a) dir w dir w₁ n := by
  intro s hdir hw
  obtain ⟨t, ht, -, htw, htn⟩ := ha s hdir hw
  exact ⟨_, ht.sub, hdir, htw, htn⟩

theorem leads_cd {d : String} (h : exec appDir ⟨dir, ["cd", d]⟩ w = (w, 0)) :
    Leads appDir (Script.cd d) dir w (if d.startsWith "/" then d else dir ++ "/" ++ d) w 0 := by
  refine Leads.and (leads_prog h) ?_
  rintro s rfl rfl
  exact ⟨_, Machine.ends_set _ _ _ s, by simp, rfl, rfl⟩

end Leads

/-- What the checkout leaves in the directory of the application, and its exit status. -/
def outcome (s : Option Clone) (x : Request) : Option Clone × Nat :=
  let reset (c : Clone) : Option Clone × Nat :=
    (some (c.reset (x.target.getD (trackingRef x.branch))).1, (c.reset (x.target.getD (trackingRef x.branch))).2)
  match s, tip? x.remote x.cloneUrl x.branch with
  | none, none => (none, 128)
  | none, some (repository, tip) => reset (cloned x.cloneUrl x.branch repository tip)
  | some c, none => (some (c.setUrl x.cloneUrl), 128)
  | some c, some (repository, tip) => reset ((c.setUrl x.cloneUrl).fetch repository x.branch tip)

section Refines

variable {appDir : String} {remote : Remote} {url branch revision : String}

theorem leads_reset {dir : String} (c : Clone) :
    Leads appDir (Script.prog ["git", "reset", "--hard", revision]) dir
    ⟨some c, remote⟩ dir ⟨some (c.reset revision).1, remote⟩ (c.reset revision).2 := leads_prog rfl

theorem leads_enter (c : Clone) :
    Leads appDir (Script.cd "repo") appDir ⟨some c, remote⟩ (appDir ++ "/" ++ "repo") ⟨some c, remote⟩ 0 := by
  have h : exec appDir ⟨appDir, ["cd", "repo"]⟩ ⟨some c, remote⟩ = (⟨some c, remote⟩, 0) := by simp [exec]
  simpa using leads_cd h

theorem leads_clone : Leads appDir (cloneScript url branch revision) appDir ⟨none, remote⟩ appDir
    ⟨(tip? remote url branch).map fun t => ((cloned url branch t.1 t.2).reset revision).1, remote⟩
    ((tip? remote url branch).elim 128 fun t => ((cloned url branch t.1 t.2).reset revision).2) := by
  cases h : tip? remote url branch with
  | none =>
      have hclone : exec appDir ⟨appDir, ["git", "clone", "--branch", branch, "--single-branch", url, "repo"]⟩ ⟨none, remote⟩ =
          (⟨none, remote⟩, 128) := by simp [exec, h]
      exact Leads.sub (Leads.and_failed (leads_prog hclone) (by simp))
  | some t =>
      have hclone : exec appDir ⟨appDir, ["git", "clone", "--branch", branch, "--single-branch", url, "repo"]⟩ ⟨none, remote⟩ =
          (⟨some (cloned url branch t.1 t.2), remote⟩, 0) := by simp [exec, h]
      exact Leads.sub ((leads_prog hclone).and ((leads_enter _).and (leads_reset _)))

theorem leads_clone_refused (c : Clone) :
    Leads appDir (cloneScript url branch revision) appDir ⟨some c, remote⟩ appDir
    ⟨some c, remote⟩ 128 := by
  have h : exec appDir ⟨appDir, ["git", "clone", "--branch", branch, "--single-branch", url, "repo"]⟩ ⟨some c, remote⟩ =
      (⟨some c, remote⟩, 128) := rfl
  exact Leads.sub (Leads.and_failed (leads_prog h) (by decide))

theorem leads_pull (c : Clone) :
    Leads appDir (pullScript url branch revision) appDir ⟨some c, remote⟩ appDir
    ⟨some ((tip? remote url branch).elim (c.setUrl url) fun t =>
      (((c.setUrl url).fetch t.1 branch t.2).reset revision).1), remote⟩
    ((tip? remote url branch).elim 128 fun t => (((c.setUrl url).fetch t.1 branch t.2).reset revision).2) := by
  have hurl : exec appDir ⟨appDir ++ "/" ++ "repo", ["git", "remote", "set-url", "origin", url]⟩ ⟨some c, remote⟩ =
      (⟨some (c.setUrl url), remote⟩, 0) := rfl
  cases h : tip? remote url branch with
  | none =>
      have hfetch : exec appDir ⟨appDir ++ "/" ++ "repo", ["git", "fetch", "origin", branch]⟩ ⟨some (c.setUrl url), remote⟩ =
          (⟨some (c.setUrl url), remote⟩, 128) := by simp [exec, h]
      exact Leads.sub ((leads_enter c).and ((leads_prog hurl).and (Leads.and_failed (leads_prog hfetch) (by simp))))
  | some t =>
      have hfetch : exec appDir ⟨appDir ++ "/" ++ "repo", ["git", "fetch", "origin", branch]⟩ ⟨some (c.setUrl url), remote⟩ =
          (⟨some ((c.setUrl url).fetch t.1 branch t.2), remote⟩, 0) := by simp [exec, h]
      exact Leads.sub ((leads_enter c).and ((leads_prog hurl).and ((leads_prog hfetch).and (leads_reset _))))

theorem Clone.reset_status (c : Clone) : (c.reset revision).2 = 0 ∨ (c.reset revision).2 = 128 := by
  unfold Clone.reset
  split
  · exact Or.inl rfl
  · exact Or.inr rfl

/-- The pull, and where it fails a clone, which the directory refuses. -/
theorem leads_update {n : Nat} {c c' : Clone} (hn : n = 0 ∨ n = 128)
    (h : Leads appDir (pullScript url branch revision) appDir ⟨some c, remote⟩ appDir ⟨some c', remote⟩ n) :
    Leads appDir (.sub (.or (.and (Script.prog ["test", "-d", "repo/.git"]) (pullScript url branch revision))
      (cloneScript url branch revision))) appDir ⟨some c, remote⟩ appDir ⟨some c', remote⟩ n := by
  have htest : exec appDir ⟨appDir, ["test", "-d", "repo/.git"]⟩ ⟨some c, remote⟩ =
      (⟨some c, remote⟩, 0) := by
    simp [exec]
  have hpull := (leads_prog htest).and h
  rcases hn with rfl | rfl
  · exact Leads.sub hpull.or_done
  · exact Leads.sub (hpull.or_else (by decide) (leads_clone_refused c'))

theorem leads_first {n : Nat} {s : Option Clone}
    (h : Leads appDir (cloneScript url branch revision) appDir ⟨none, remote⟩ appDir ⟨s, remote⟩ n) :
    Leads appDir (.sub (.or (.and (Script.prog ["test", "-d", "repo/.git"]) (pullScript url branch revision))
      (cloneScript url branch revision))) appDir ⟨none, remote⟩ appDir ⟨s, remote⟩ n := by
  have htest : exec appDir ⟨appDir, ["test", "-d", "repo/.git"]⟩ ⟨none, remote⟩ = (⟨none, remote⟩, 1) := by
    simp [exec]
  exact Leads.sub (((leads_prog htest).and_failed (by decide)).or_else (by decide) h)

theorem leads_checkout (s : Option Clone) (x : Request) (h : appDir.startsWith "/" = true) :
    Leads appDir (checkoutScript appDir x.cloneUrl x.branch (x.target.getD (trackingRef x.branch))) "" ⟨s, x.remote⟩ appDir
      ⟨(outcome s x).1, x.remote⟩ (outcome s x).2 := by
  have henter : Leads appDir (Script.cd appDir) "" ⟨s, x.remote⟩ appDir ⟨s, x.remote⟩ 0 := by
    have hcd : exec appDir ⟨"", ["cd", appDir]⟩ ⟨s, x.remote⟩ = (⟨s, x.remote⟩, 0) := by simp [exec]
    have hlead := leads_cd hcd
    rwa [h] at hlead
  refine henter.and ?_
  cases s with
  | none =>
      refine leads_first ?_
      have hclone :=
        @leads_clone appDir x.remote x.cloneUrl x.branch (x.target.getD (trackingRef x.branch))
      cases ht : tip? x.remote x.cloneUrl x.branch <;> simpa [outcome, ht] using hclone
  | some c =>
      have hpull :=
        @leads_pull appDir x.remote x.cloneUrl x.branch (x.target.getD (trackingRef x.branch)) c
      cases ht : tip? x.remote x.cloneUrl x.branch with
      | none =>
          rw [ht] at hpull
          simpa [outcome, ht] using leads_update (Or.inr rfl) hpull
      | some t =>
          rw [ht] at hpull
          simpa [outcome, ht] using leads_update (Clone.reset_status _) hpull

/-- The command of the deployment does what `outcome` says. -/
theorem deploy_outcome (s : Option Clone) (x : Request) (h : appDir.startsWith "/" = true) :
    (x.run appDir s).state.world.clone = (outcome s x).1 ∧
        (x.run appDir s).state.status = (outcome s x).2 := by
  have hscript : Leads appDir (cloneOrPullScript appDir x.cloneUrl x.branch x.target x.keyPath) "" ⟨s, x.remote⟩ appDir
      ⟨(outcome s x).1, x.remote⟩ (outcome s x).2 := by
    unfold cloneOrPullScript
    dsimp only
    split
    · refine Leads.and ?_ (leads_checkout s x h)
      intro t ht hw
      exact ⟨_, Machine.ends_set _ _ _ t, by simpa using ht, hw, rfl⟩
    · exact leads_checkout s x h
  obtain ⟨t, ⟨-, ht⟩, -, hw, hn⟩ := hscript ((machine appDir).fresh ⟨s, x.remote⟩) rfl rfl
  unfold Request.run Machine.start
  change ((machine appDir).eval _ "" _).state.world.clone = _ ∧
    ((machine appDir).eval _ "" _).state.status = _
  rw [ht, hw, hn]
  exact ⟨rfl, rfl⟩

end Refines

section Runs

/-- Only the branch of the clone has a remote-tracking branch. -/
def Clone.Narrow (c : Clone) : Prop :=
  ∀ revision, revision ≠ trackingRef c.refspec → c.refs revision = none

def Narrow (s : Option Clone) : Prop := ∀ c, s = some c → c.Narrow

theorem narrow_none : Narrow none := nofun

theorem Clone.Narrow.reset {c : Clone} (h : c.Narrow) (revision : String) :
    (c.reset revision).1.Narrow := by
  unfold Clone.reset
  split
  · exact h
  · exact h

theorem Clone.Narrow.fetch {c : Clone} (h : c.Narrow) (repository : Repository) (branch : String)
    (tip : Commit) :
    (c.fetch repository branch tip).Narrow := by
  intro revision hrevision
  change revision ≠ trackingRef c.refspec at hrevision
  unfold Clone.fetch
  dsimp only
  split
  · next hb =>
      subst hb
      rw [Function.update_of_ne hrevision]
      exact h revision hrevision
  · exact h revision hrevision

theorem narrow_cloned (url branch : String) (repository : Repository) (tip : Commit) :
    (cloned url branch repository tip).Narrow := by
  intro revision hrevision
  change revision ≠ trackingRef branch at hrevision
  change Function.update (fun _ => none) (trackingRef branch) (some tip) revision = none
  rw [Function.update_of_ne hrevision]

theorem narrow_outcome {s : Option Clone} (h : Narrow s) (x : Request) : Narrow (outcome s x).1 := by
  intro c' hc'
  cases s with
  | none =>
      cases ht : tip? x.remote x.cloneUrl x.branch with
      | none => simp [outcome, ht] at hc'
      | some t =>
          obtain rfl : ((cloned x.cloneUrl x.branch t.1 t.2).reset _).1 = c' := by
            simpa [outcome, ht] using hc'
          exact (narrow_cloned _ _ _ _).reset _
  | some c =>
      have hurl : (c.setUrl x.cloneUrl).Narrow := h c rfl
      cases ht : tip? x.remote x.cloneUrl x.branch with
      | none =>
          obtain rfl : c.setUrl x.cloneUrl = c' := by simpa [outcome, ht] using hc'
          exact hurl
      | some t =>
          obtain rfl : (((c.setUrl x.cloneUrl).fetch t.1 x.branch t.2).reset _).1 = c' := by
            simpa [outcome, ht] using hc'
          exact (hurl.fetch _ _ _).reset _

/-- Where the remote has the branch, the checkout exits 0 with the working tree at the tip of the
branch, or at the commit of a rollback that is in the clone. -/
def Meets (appDir : String) (s : Option Clone) (x : Request) : Prop :=
  ∀ repository tip, tip? x.remote x.cloneUrl x.branch = some (repository, tip) →
    match x.target with
    | none => (x.run appDir s).state.status = 0 ∧ ∃ c, step appDir s x = some c ∧ c.head = tip
    | some target => ∀ c k, s = some c → k ∈ c.objects → k.sha = target →
        (x.run appDir s).state.status = 0 ∧ ∃ c, step appDir s x = some c ∧ c.head = k

def SameBranch (s : Option Clone) (x : Request) : Prop :=
  (tip? x.remote x.cloneUrl x.branch).isSome = true → x.target = none → ∀ c, s = some c →
      c.refspec = x.branch

theorem trackingRef_inj {b b' : String} (h : trackingRef b = trackingRef b') : b = b' := by
  have h' := congrArg String.toList h
  simp only [trackingRef, toString, String.toList_append, List.append_cancel_left_eq] at h'
  exact String.toList_injective h'

theorem Commit.ne_trackingRef (k : Commit) (branch : String) : k.sha ≠ trackingRef branch := by
  intro h
  have ho : 'o' ∈ k.sha.toList := by
    rw [h]
    simp [trackingRef, toString]
  have hhex := k.hex 'o' ho
  revert hhex
  decide

theorem Commit.ext_sha {k k' : Commit} (h : k.sha = k'.sha) : k = k' := by
  cases k
  cases k'
  congr

theorem Clone.resolve_commit {c : Clone} (h : c.Narrow) {k : Commit} (hk : k ∈ c.objects) :
    c.resolve k.sha = some k := by
  have hrefs : c.refs k.sha = none := h _ (k.ne_trackingRef _)
  cases hfind : c.objects.find? fun k' => k'.sha = k.sha with
  | none => exact absurd hk (by simpa using List.find?_eq_none.1 hfind k)
  | some k' =>
      have hsha : k'.sha = k.sha := by simpa using List.find?_some hfind
      obtain rfl := Commit.ext_sha hsha
      simp [resolve, hrefs, hfind]

/-- The branch resolves to its tip after a fetch that its refspec covers, and not at all otherwise. -/
theorem Clone.resolve_branch {c : Clone} (h : c.Narrow) (repository : Repository) (branch : String)
    (tip : Commit) :
    (c.fetch repository branch tip).resolve (trackingRef branch) = if branch = c.refspec then some tip else none := by
  unfold resolve fetch
  dsimp only
  split
  · simp
  · next hb =>
      have hrefs : c.refs (trackingRef branch) = none := h _ fun he => hb (trackingRef_inj he)
      have hobjects : (repository.history tip ++ c.objects).find? (fun k => k.sha = trackingRef branch) = none :=
        List.find?_eq_none.2 fun k _ => by simpa using k.ne_trackingRef branch
      simp only [hrefs, hobjects, Option.orElse_none]

theorem Clone.reset_some {c : Clone} {revision : String} {k : Commit} (h : c.resolve revision = some k) :
    (c.reset revision).2 = 0 ∧ (c.reset revision).1.head = k := by
  simp [reset, h]

theorem Clone.reset_none {c : Clone} {revision : String} (h : c.resolve revision = none) :
    (c.reset revision).2 = 128 := by
  simp [reset, h]

section Outcome

variable {x : Request} {repository : Repository} {tip : Commit} (ht : tip? x.remote x.cloneUrl x.branch = some (repository, tip))

include ht

theorem outcome_first (hx : x.target = none) :
    (outcome none x).2 = 0 ∧ ∃ c, (outcome none x).1 = some c ∧ c.head = tip := by
  have hresolve : (cloned x.cloneUrl x.branch repository tip).resolve (trackingRef x.branch) = some tip := by
    simp [Clone.resolve, cloned]
  have hreset := Clone.reset_some hresolve
  simpa [outcome, ht, hx] using hreset

theorem outcome_sameBranch {c : Clone} (hc : c.Narrow) (hx : x.target = none) (hb : c.refspec = x.branch) :
    (outcome (some c) x).2 = 0 ∧ ∃ c', (outcome (some c) x).1 = some c' ∧ c'.head = tip := by
  have hurl : (c.setUrl x.cloneUrl).Narrow := hc
  have hresolve := Clone.resolve_branch hurl repository x.branch tip
  rw [if_pos (show x.branch = (c.setUrl x.cloneUrl).refspec from hb.symm)] at hresolve
  have hreset := Clone.reset_some hresolve
  simpa [outcome, ht, hx] using hreset

theorem outcome_otherBranch {c : Clone} (hc : c.Narrow) (hx : x.target = none) (hb : c.refspec ≠ x.branch) :
    (outcome (some c) x).2 = 128 := by
  have hurl : (c.setUrl x.cloneUrl).Narrow := hc
  have hresolve := Clone.resolve_branch hurl repository x.branch tip
  rw [if_neg (show x.branch ≠ (c.setUrl x.cloneUrl).refspec from hb.symm)] at hresolve
  have hreset := Clone.reset_none hresolve
  simpa [outcome, ht, hx] using hreset

theorem outcome_rollback {c : Clone} (hc : c.Narrow) {k : Commit} (hk : k ∈ c.objects)
    (hx : x.target = some k.sha) :
    (outcome (some c) x).2 = 0 ∧ ∃ c', (outcome (some c) x).1 = some c' ∧ c'.head = k := by
  have hurl : (c.setUrl x.cloneUrl).Narrow := hc
  have hmem : k ∈ ((c.setUrl x.cloneUrl).fetch repository x.branch tip).objects :=
    List.mem_append_right _ hk
  have hreset := Clone.reset_some (Clone.resolve_commit (hurl.fetch repository x.branch tip) hmem)
  simpa [outcome, ht, hx] using hreset

end Outcome

theorem meets_iff {appDir : String} (h : appDir.startsWith "/" = true) {s : Option Clone} (hs : Narrow s)
    (x : Request) :
    Meets appDir s x ↔ SameBranch s x := by
  obtain ⟨hclone, hstatus⟩ := deploy_outcome s x h
  unfold Meets SameBranch step
  rw [hclone, hstatus]
  cases ht : tip? x.remote x.cloneUrl x.branch with
  | none => simp
  | some t =>
      obtain ⟨repository, tip⟩ := t
      cases hx : x.target with
      | none =>
          cases s with
          | none =>
              refine iff_of_true ?_ nofun
              rintro _ _ ⟨⟩
              exact outcome_first ht hx
          | some c =>
              have hc := hs c rfl
              refine ⟨fun hm _ _ c' hc' => ?_, ?_⟩
              · obtain rfl := Option.some.inj hc'
                by_contra hb
                have hzero := (hm repository tip rfl).1
                rw [outcome_otherBranch ht hc hx hb] at hzero
                cases hzero
              · rintro hb _ _ ⟨⟩
                exact outcome_sameBranch ht hc hx (hb rfl rfl c rfl)
      | some target =>
          refine iff_of_true ?_ nofun
          rintro _ _ ⟨⟩ c k rfl hk rfl
          exact outcome_rollback ht (hs c rfl) hk hx

theorem narrow_step {appDir : String} (h : appDir.startsWith "/" = true) {s : Option Clone} (hs : Narrow s)
    (x : Request) :
    Narrow (step appDir s x) := by
  unfold step
  rw [(deploy_outcome s x h).1]
  exact narrow_outcome hs x

theorem appDir_absolute (id : String) : s!"/opt/yeah-apps/{id}".startsWith "/" = true := by
  simp [toString]

def twoBranches : Remote := fun _ => some
  { branch := fun b => if b = "main" then some ⟨"a1", by simp⟩ else if b = "next" then some ⟨"b2", by simp⟩ else none
    history := fun c => [c]
    self := fun _ => List.mem_cons_self }

def deployOf (branch : String) : Request :=
  ⟨"https://example.com/site.git", branch, none, none, twoBranches⟩

end Runs

end Yeah.Deploy.Checkout
