import Yeah.Runs
import Mathlib.Data.List.Nodup

namespace Yeah.Previews

open Runs

inductive Action
  | opened
  | reopened
  | synchronize
  | closed
  deriving DecidableEq

/-- One delivery of a `pull_request` event. -/
structure PullRequestEvent where
  action : Action
  number : Nat
  headRef : String
  baseRef : String
  repo : String
  fromFork : Bool
  installationId : Option Nat
  deriving DecidableEq

/-- An application with what its own row and that of its server say of previews. -/
structure Parent where
  id : String
  githubInstallationId : Option Nat
  githubRepo : Option String
  branch : String
  previewEnabled : Bool
  /-- The server is there, its proxy active, and it has a wildcard domain. -/
  hostsPreviews : Bool
  deriving DecidableEq

/-- The row of a preview. -/
structure Preview where
  id : Nat
  previewOfId : String
  prNumber : Nat
  branch : String
  deriving DecidableEq

/-- What `handlePullRequestEvent` selects the parents by. -/
def Parent.matches (p : Parent) (pr : PullRequestEvent) : Bool :=
  p.githubInstallationId = pr.installationId ∧ p.githubRepo = some pr.repo ∧ p.branch = pr.baseRef ∧
    p.previewEnabled = true

/-- What is known of the preview of the parent at hand: nothing yet, or the row that was found. -/
inductive Stage
  | looking
  | found (existing : Option Preview)
  deriving DecidableEq

/-- A delivery in progress, with the parents that are left. -/
structure Handler where
  pr : PullRequestEvent
  parents : List Parent
  stage : Stage
  deriving DecidableEq

structure State where
  previews : List Preview
  nextId : Nat
  handlers : List Handler

inductive Event
  | deliver (pr : PullRequestEvent)
  /-- The select of the preview that exists. -/
  | look (i : Nat)
  /-- The write that follows from it, and what comes after that for the parent. -/
  | act (i : Nat)
  /-- The handling ends with an exception. -/
  | fail (i : Nat)

variable (applications : List Parent)

def parentsOf (pr : PullRequestEvent) : List Parent :=
  if pr.fromFork = true ∨ pr.installationId = none then [] else applications.filter (·.matches pr)

def existing (previews : List Preview) (p : Parent) (pr : PullRequestEvent) : Option Preview :=
  previews.find? fun v => v.previewOfId = p.id ∧ v.prNumber = pr.number

/-- What the handler does with the rows for one parent, once it knows which row exists. -/
def write (s : State) (pr : PullRequestEvent) (p : Parent) (found : Option Preview) : State :=
  if pr.action = .closed then
    match found with
    | none => s
    | some v => { s with previews := s.previews.filter (·.id ≠ v.id) }
  else if p.hostsPreviews = false then s
  else
    match found with
    | some v => { s with previews := s.previews.map fun u => if u.id = v.id then { u with branch := pr.headRef } else u }
    | none => { s with previews := s.previews ++ [⟨s.nextId, p.id, pr.number, pr.headRef⟩], nextId := s.nextId + 1 }

def step (s : State) : Event → State
  | .deliver pr => { s with handlers := s.handlers ++ [⟨pr, parentsOf applications pr, .looking⟩] }
  | .look i =>
      match s.handlers[i]? with
      | some ⟨pr, p :: rest, .looking⟩ => { s with handlers := s.handlers.set i ⟨pr, p :: rest, .found (existing s.previews p pr)⟩ }
      | _ => s
  | .act i =>
      match s.handlers[i]? with
      | some ⟨pr, p :: rest, .found found⟩ => { write s pr p found with handlers := s.handlers.set i ⟨pr, rest, .looking⟩ }
      | some ⟨_, [], _⟩ => { s with handlers := s.handlers.eraseIdx i }
      | _ => s
  | .fail i => { s with handlers := s.handlers.eraseIdx i }

def SamePr (a b : PullRequestEvent) : Prop := a.number = b.number ∧ a.repo = b.repo

def Of (v : Preview) (pr : PullRequestEvent) : Prop :=
  v.prNumber = pr.number ∧ ∃ p ∈ applications, p.id = v.previewOfId ∧ p.githubRepo = some pr.repo

/-- At most one preview for a parent and a pull request. -/
def AtMostOne (s : State) : Prop := (s.previews.map fun v => (v.previewOfId, v.prNumber)).Nodup

/-- The condition on a step. A row is inserted only while there is none for that parent and pull request, and
no close of it is being handled; and a close still names the repository and the base branch of the parents that have a
preview for it. -/
def Calm (s : State) : Event → Prop
  | .deliver pr => pr.action = .closed → ∀ v ∈ s.previews, Of applications v pr →
      ∀ p ∈ applications, p.id = v.previewOfId → p ∈ parentsOf applications pr
  | .act i => ∀ pr p rest, s.handlers[i]? = some ⟨pr, p :: rest, .found none⟩ → pr.action ≠ .closed → p.hostsPreviews = true →
      (∀ v ∈ s.previews, ¬ (v.previewOfId = p.id ∧ v.prNumber = pr.number)) ∧
        ∀ h ∈ s.handlers, h.pr.action = .closed → ¬ SamePr h.pr pr
  | _ => True

/-- One preview for a pull request at most, and none once a close has been handled. -/
structure Good (s : State) : Prop where
  one : AtMostOne s
  closed : ∀ h ∈ s.handlers, h.pr.action = .closed → h.parents = [] →
    ∀ v ∈ s.previews, ¬ Of applications v h.pr

/-- What a close in progress knows: the previews that are left belong to the parents that are left, and the one it has
found is the only one of its parent. -/
def Closing (previews : List Preview) (h : Handler) : Prop :=
  ∀ v ∈ previews, Of applications v h.pr → v.previewOfId ∈ h.parents.map (·.id) ∧
    ∀ found p rest, h.stage = .found found → h.parents = p :: rest → v.previewOfId = p.id →
      found.map (·.id) = some v.id

structure Inv (s : State) : Prop where
  one : AtMostOne s
  fresh : ∀ v ∈ s.previews, v.id < s.nextId
  parents : ∀ h ∈ s.handlers, ∀ p ∈ h.parents, p ∈ parentsOf applications h.pr
  closing : ∀ h ∈ s.handlers, h.pr.action = .closed → Closing applications s.previews h

variable {applications} {s : State}

theorem Inv.good (h : Inv applications s) : Good applications s := by
  refine ⟨h.one, fun c hc hclosed hparents v hv hof => ?_⟩
  have hmem := (h.closing c hc hclosed v hv hof).1
  rw [hparents] at hmem
  cases hmem

theorem AtMostOne.eq (h : AtMostOne s) {u v : Preview} (hu : u ∈ s.previews) (hv : v ∈ s.previews)
    (hparent : u.previewOfId = v.previewOfId) (hnumber : u.prNumber = v.prNumber) : u = v :=
  List.inj_on_of_nodup_map h hu hv (Prod.ext hparent hnumber)

theorem parentsOf_repo {pr : PullRequestEvent} {p : Parent} (h : p ∈ parentsOf applications pr) :
    p ∈ applications ∧ p.githubRepo = some pr.repo := by
  unfold parentsOf at h
  split at h
  · cases h
  · obtain ⟨hp, hm⟩ := List.mem_filter.1 h
    simp only [Parent.matches, decide_eq_true_eq] at hm
    exact ⟨hp, hm.2.1⟩

theorem existing_eq (h : AtMostOne s) {p : Parent} {pr : PullRequestEvent} {v : Preview}
    (hv : v ∈ s.previews)
    (hparent : v.previewOfId = p.id) (hnumber : v.prNumber = pr.number) :
    existing s.previews p pr = some v := by
  cases he : existing s.previews p pr with
  | none =>
      have hn := List.find?_eq_none.1 he v hv
      simp [hparent, hnumber] at hn
  | some u =>
      have hu := List.find?_some he
      simp only [decide_eq_true_eq] at hu
      rw [h.eq (List.mem_of_find?_eq_some he) hv (hu.1.trans hparent.symm) (hu.2.trans hnumber.symm)]

theorem inv_deliver (h : Inv applications s) {pr : PullRequestEvent}
    (hc : Calm applications s (.deliver pr)) :
    Inv applications (step applications s (.deliver pr)) := by
  refine ⟨h.one, h.fresh, fun c hmem => ?_, fun c hmem hclosed => ?_⟩
  · rcases List.mem_append.1 hmem with hmem | hmem
    · exact h.parents c hmem
    · obtain rfl := List.mem_singleton.1 hmem
      exact fun p hp => hp
  · rcases List.mem_append.1 hmem with hmem | hmem
    · exact h.closing c hmem hclosed
    · obtain rfl := List.mem_singleton.1 hmem
      intro v hv hof
      obtain ⟨-, p, hp, hid, -⟩ := id hof
      refine ⟨List.mem_map.2 ⟨p, hc hclosed v hv hof p hp hid, hid⟩, ?_⟩
      rintro found p rest ⟨⟩

theorem inv_look (h : Inv applications s) (i : Nat) :
    Inv applications (step applications s (.look i)) := by
  change Inv applications (match s.handlers[i]? with | some ⟨pr, p :: rest, .looking⟩ => _ | _ => _)
  split
  · next pr p rest hi =>
      have hmem : (⟨pr, p :: rest, .looking⟩ : Handler) ∈ s.handlers := List.mem_of_getElem? hi
      refine ⟨h.one, h.fresh, fun c hc => ?_, fun c hc hclosed => ?_⟩
      · rcases List.mem_or_eq_of_mem_set hc with hc | rfl
        · exact h.parents c hc
        · exact fun q hq => h.parents _ hmem q hq
      · rcases List.mem_or_eq_of_mem_set hc with hc | rfl
        · exact h.closing c hc hclosed
        · intro v hv hof
          refine ⟨(h.closing _ hmem hclosed v hv hof).1, ?_⟩
          rintro _ _ _ ⟨⟩ ⟨⟩ hparent
          rw [existing_eq h.one hv hparent hof.1]
          rfl
  · exact h

theorem inv_erase (h : Inv applications s) (i : Nat) :
    Inv applications { s with handlers := s.handlers.eraseIdx i } :=
  ⟨h.one, h.fresh, fun c hc => h.parents c (List.mem_of_mem_eraseIdx hc),
    fun c hc => h.closing c (List.mem_of_mem_eraseIdx hc)⟩

/-- Rows that keep their ids and keys, or go. -/
theorem Closing.mono {previews previews' : List Preview} {c : Handler} (h : Closing applications previews c)
    (hsub : ∀ v' ∈ previews', ∃ v ∈ previews, v'.id = v.id ∧ v'.previewOfId = v.previewOfId ∧ v'.prNumber = v.prNumber) :
    Closing applications previews' c := by
  intro v' hv' hof
  obtain ⟨v, hv, hid, hparent, hnumber⟩ := hsub v' hv'
  unfold Of at hof
  rw [hparent, hnumber] at hof
  rw [hid, hparent]
  exact h v hv hof

theorem Inv.goOn (h : Inv applications s) {i : Nat} {pr : PullRequestEvent} {p : Parent}
    {rest : List Parent} {found : Option Preview}
    (hi : s.handlers[i]? = some ⟨pr, p :: rest, .found found⟩) {previews : List Preview}
    (hone : (previews.map fun v => (v.previewOfId, v.prNumber)).Nodup)
    (hsub : ∀ v' ∈ previews, ∃ v ∈ s.previews, v'.id = v.id ∧ v'.previewOfId = v.previewOfId ∧ v'.prNumber = v.prNumber)
    (hgone : pr.action = .closed → ∀ v ∈ previews, found.map (·.id) ≠ some v.id) :
    Inv applications { s with previews := previews, handlers := s.handlers.set i ⟨pr, rest, .looking⟩ } := by
  have hmem : (⟨pr, p :: rest, .found found⟩ : Handler) ∈ s.handlers := List.mem_of_getElem? hi
  refine ⟨hone, fun v' hv' => ?_, fun c hc => ?_, fun c hc hclosed => ?_⟩
  · obtain ⟨v, hv, hid, -⟩ := hsub v' hv'
    rw [hid]
    exact h.fresh v hv
  · rcases List.mem_or_eq_of_mem_set hc with hc | rfl
    · exact h.parents c hc
    · exact fun q hq => h.parents _ hmem q (List.mem_cons_of_mem _ hq)
  · rcases List.mem_or_eq_of_mem_set hc with hc | rfl
    · exact (h.closing c hc hclosed).mono hsub
    · intro v hv hof
      obtain ⟨hleft, hfound⟩ := (h.closing _ hmem hclosed).mono hsub v hv hof
      refine ⟨?_, by rintro _ _ _ ⟨⟩⟩
      rcases List.mem_cons.1 hleft with hp | hrest
      · exact absurd (hfound found p rest rfl rfl hp) (hgone hclosed v hv)
      · exact hrest

theorem Inv.insert (hids : (applications.map (·.id)).Nodup) (h : Inv applications s) {i : Nat}
    {pr : PullRequestEvent} {p : Parent}
    {rest : List Parent} (hi : s.handlers[i]? = some ⟨pr, p :: rest, .found none⟩)
    (hopen : pr.action ≠ .closed)
    (hnone : ∀ v ∈ s.previews, ¬ (v.previewOfId = p.id ∧ v.prNumber = pr.number))
    (hclose : ∀ h ∈ s.handlers, h.pr.action = .closed → ¬ SamePr h.pr pr) :
    Inv applications
      { previews := s.previews ++ [⟨s.nextId, p.id, pr.number, pr.headRef⟩]
        nextId := s.nextId + 1
        handlers := s.handlers.set i ⟨pr, rest, .looking⟩ } := by
  have hmem : (⟨pr, p :: rest, .found none⟩ : Handler) ∈ s.handlers := List.mem_of_getElem? hi
  obtain ⟨hp, hrepo⟩ := parentsOf_repo (h.parents _ hmem p List.mem_cons_self)
  refine ⟨?_, fun v hv => ?_, fun c hc => ?_, fun c hc hclosed => ?_⟩
  · unfold AtMostOne
    rw [List.map_append, List.nodup_append]
    refine ⟨h.one, List.nodup_singleton _, fun a ha b hb => ?_⟩
    obtain ⟨v, hv, rfl⟩ := List.mem_map.1 ha
    obtain rfl := List.mem_singleton.1 hb
    exact fun he => hnone v hv (Prod.mk.inj he)
  · rcases List.mem_append.1 hv with hv | hv
    · exact Nat.lt_succ_of_lt (h.fresh v hv)
    · obtain rfl := List.mem_singleton.1 hv
      exact Nat.lt_succ_self _
  · rcases List.mem_or_eq_of_mem_set hc with hc | rfl
    · exact h.parents c hc
    · exact fun q hq => h.parents _ hmem q (List.mem_cons_of_mem _ hq)
  · rcases List.mem_or_eq_of_mem_set hc with hold | rfl
    · intro v hv hof
      rcases List.mem_append.1 hv with hv | hv
      · exact h.closing c hold hclosed v hv hof
      · -- The new row would be one of the pull request that is being closed.
        obtain rfl := List.mem_singleton.1 hv
        obtain ⟨hnumber, q, hq, hqid, hqrepo⟩ := hof
        obtain rfl : q = p := List.inj_on_of_nodup_map hids hq hp hqid
        exact absurd ⟨hnumber.symm, Option.some.inj (hqrepo.symm.trans hrepo)⟩ (hclose c hold hclosed)
    · exact absurd hclosed hopen

theorem inv_act (hids : (applications.map (·.id)).Nodup) (h : Inv applications s) {i : Nat}
    (hc : Calm applications s (.act i)) :
    Inv applications (step applications s (.act i)) := by
  change Inv applications (match s.handlers[i]? with
    | some ⟨pr, p :: rest, .found found⟩ => { write s pr p found with handlers := s.handlers.set i ⟨pr, rest, .looking⟩ }
    | some ⟨_, [], _⟩ => _
    | _ => _)
  split
  · next pr p rest found hi =>
      unfold write
      by_cases hclosed : pr.action = .closed
      · rw [if_pos hclosed]
        cases found with
        | none => exact h.goOn hi h.one (fun v hv => ⟨v, hv, rfl, rfl, rfl⟩) fun _ _ _ => nofun
        | some v =>
            refine h.goOn hi (h.one.sublist (List.filter_sublist.map _))
              (fun u hu => ⟨u, (List.mem_filter.1 hu).1, rfl, rfl, rfl⟩) ?_
            intro _ u hu hid
            have hne := (List.mem_filter.1 hu).2
            simp only [decide_eq_true_eq] at hne
            exact hne (Option.some.inj hid).symm
      · rw [if_neg hclosed]
        by_cases hhosts : p.hostsPreviews = false
        · rw [if_pos hhosts]
          exact h.goOn hi h.one (fun v hv => ⟨v, hv, rfl, rfl, rfl⟩) fun hn => absurd hn hclosed
        · rw [if_neg hhosts]
          cases found with
          | none =>
              obtain ⟨hnone, hclose⟩ := hc pr p rest hi hclosed (by simpa using hhosts)
              exact h.insert hids hi hclosed hnone hclose
          | some v =>
              have hkey : ∀ u : Preview, (if u.id = v.id then { u with branch := pr.headRef } else u).id = u.id ∧
                  (if u.id = v.id then { u with branch := pr.headRef } else u).previewOfId = u.previewOfId ∧
                  (if u.id = v.id then { u with branch := pr.headRef } else u).prNumber = u.prNumber := by
                intro u
                split <;> exact ⟨rfl, rfl, rfl⟩
              refine h.goOn hi ?_ (fun u' hu' => ?_) fun hn => absurd hn hclosed
              · rw [List.map_map]
                have hmap : s.previews.map (fun v => (v.previewOfId, v.prNumber)) = s.previews.map
                    ((fun v => (v.previewOfId, v.prNumber)) ∘ fun u => if u.id = v.id then { u with branch := pr.headRef } else u) :=
                  List.map_congr_left fun u _ => (Prod.ext (hkey u).2.1 (hkey u).2.2).symm
                exact hmap ▸ h.one
              · obtain ⟨u, hu, rfl⟩ := List.mem_map.1 hu'
                exact ⟨u, hu, hkey u⟩
  · exact inv_erase h i
  · exact h

theorem inv_step (hids : (applications.map (·.id)).Nodup) {e : Event} (h : Inv applications s)
    (hc : Calm applications s e) :
    Inv applications (step applications s e) := by
  cases e with
  | deliver pr => exact inv_deliver h hc
  | look i => exact inv_look h i
  | act i => exact inv_act hids h hc
  | fail i => exact inv_erase h i

def initial : State := ⟨[], 0, []⟩

theorem inv_initial : Inv applications initial := ⟨List.nodup_nil, nofun, nofun, nofun⟩

/-- In every run of deliveries whose steps are calm. -/
theorem run_onePreview (hids : (applications.map (·.id)).Nodup) {events : List Event}
    (h : Along (step applications) (Calm applications) initial events) :
    Good applications (run (step applications) initial events) :=
  (along_invariant (fun _ _ hi hc => inv_step hids hi hc) inv_initial h).good

def site : Parent := ⟨"a", some 1, some "org/site", "main", true, true⟩

def delivery (action : Action) : PullRequestEvent :=
  ⟨action, 7, "feature", "main", "org/site", false, some 1⟩

def openAndClose : List Event :=
  [.deliver (delivery .opened), .look 0, .act 0, .act 0, .deliver (delivery .closed), .look 0, .act 0]

theorem run_onePreview_openAndClose : Good [site] (run (step [site]) initial openAndClose) := by
  have hfound : run (step [site]) initial [.deliver (delivery .opened), .look 0] =
      ⟨[], 0, [⟨delivery .opened, [site], .found none⟩]⟩ := rfl
  have hacted : run (step [site]) initial [.deliver (delivery .opened), .look 0, .act 0] =
      ⟨[⟨0, "a", 7, "feature"⟩], 1, [⟨delivery .opened, [], .looking⟩]⟩ := by rfl
  refine run_onePreview (by decide) ⟨nofun, trivial, fun pr p rest hi _ _ => ?_, fun pr p rest hi => ?_, fun _ v _ _ p hp _ => ?_,
    trivial, fun pr p rest hi hopen => ?_, trivial⟩
  · change (∀ v ∈ (run (step [site]) initial [.deliver (delivery .opened), .look 0]).previews, _) ∧
      ∀ h ∈ (run (step [site]) initial [.deliver (delivery .opened), .look 0]).handlers, _
    rw [hfound]
    refine ⟨nofun, fun h hh => ?_⟩
    obtain rfl := List.mem_singleton.1 hh
    nofun
  · change (run (step [site]) initial [.deliver (delivery .opened), .look 0, .act 0]).handlers[0]? = _ at hi
    rw [hacted] at hi
    cases hi
  · obtain rfl := List.mem_singleton.1 hp
    decide
  · have hclosed : (run (step [site]) initial (openAndClose.take 6)).handlers[0]?.map (·.pr.action) = some .closed :=
      rfl
    exact absurd (Option.some.inj ((congrArg (Option.map (·.pr.action)) hi).symm.trans hclosed)) hopen

/-- Two deliveries that both look before either writes; and a close that looks before the row is there. -/
theorem two_previews :
    (∃ events, ¬ AtMostOne (run (step [site]) initial events)) ∧
    ∃ events, ∃ h ∈ (run (step [site]) initial events).handlers, h.pr.action = .closed ∧ h.parents = [] ∧
      (run (step [site]) initial events).handlers = [h] ∧
          (run (step [site]) initial events).previews ≠ [] := by
  refine ⟨⟨[.deliver (delivery .opened), .deliver (delivery .synchronize), .look 0, .look 1, .act 0, .act 1], ?_⟩,
    [.deliver (delivery .opened), .deliver (delivery .closed), .look 0, .look 1, .act 0, .act 0, .act 0], ?_⟩
  · unfold AtMostOne
    decide +kernel
  · decide +kernel

end Yeah.Previews
