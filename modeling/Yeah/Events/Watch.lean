import Mathlib.Data.List.Basic
import Mathlib.Logic.Function.Basic
import Mathlib.Tactic.SplitIfs

namespace Yeah.Events

/-- A row of a poll, as far as the tracker reads it. -/
structure WatchedContainer where
  name : String
  status : String
  health : String

structure Poll where
  rows : List WatchedContainer
  ignore : List String
  now : Nat

structure ContainerStatusChange where
  name : String
  old : String
  new : String
  deriving DecidableEq

/-- Containers whose status changes are reported: the ones yeah creates. -/
def isManagedContainerName (name : String) : Bool :=
  ["yeah-app-", "yeah-db-", "yeah-svc-"].any fun s => s.toList <+: name.toList

/-- A failing healthcheck outranks the status of a container that is still running. -/
def effectiveContainerState (c : WatchedContainer) : String :=
  if c.status = "running" ∧ c.health = "unhealthy" then "unhealthy" else c.status

structure TrackerOptions where
  confirmPolls : Nat
  minIntervalMs : Nat

/-- `lastReportedAt` is `none` for minus infinity. -/
structure TrackedState where
  reported : String
  candidate : Option String
  candidatePolls : Nat
  lastReportedAt : Option Nat

abbrev Tracked := String → Option TrackedState

variable (options : TrackerOptions)

/-- One row in the loop of `observe`, and the change that it adds. -/
def track (t : Nat) (state : String) : Option TrackedState → TrackedState × Option (String × String)
  | none => (⟨state, none, 0, none⟩, none)
  | some tracked =>
      if state = tracked.reported then ({ tracked with candidate := none, candidatePolls := 0 }, none)
      else
        let candidatePolls := if tracked.candidate = some state then tracked.candidatePolls + 1 else 1
        if candidatePolls < options.confirmPolls ∨
          tracked.lastReportedAt.any (fun last => t < last + options.minIntervalMs) then
          ({ tracked with candidate := some state, candidatePolls }, none)
        else (⟨state, none, 0, some t⟩, some (tracked.reported, state))

/-- The loop: the states, the changes and the names that were seen. -/
def observeRows (t : Nat) (ignore : List String) :
    Tracked → List WatchedContainer → Tracked × List ContainerStatusChange × List String
  | states, [] => (states, [], [])
  | states, c :: rest =>
      if !isManagedContainerName c.name ∨ c.name ∈ ignore then observeRows t ignore states rest
      else
        let (tracked, change) := track options t (effectiveContainerState c) (states c.name)
        let (states, changes, seen) :=
          observeRows t ignore (Function.update states c.name (some tracked)) rest
        (states, change.toList.map (fun p => ⟨c.name, p.1, p.2⟩) ++ changes, c.name :: seen)

/-- Containers that are not seen are forgotten. -/
def observe (states : Tracked) (poll : Poll) : Tracked × List ContainerStatusChange :=
  let (states, changes, seen) := observeRows options poll.now poll.ignore states poll.rows
  (fun name => if name ∈ seen then states name else none, changes)

/-- The state of a container in a poll, if it is present and not ignored. -/
def observation (name : String) (poll : Poll) : Option String :=
  if name ∈ poll.ignore then none else (poll.rows.find? fun c => c.name = name).map effectiveContainerState

/-- A poll of a container, and the report that it made. -/
structure Seen where
  time : Nat
  state : String
  report : Option (String × String)
  deriving DecidableEq

/-- The polls of a container since it was last absent or ignored. -/
def story (name : String) : Tracked → List Seen → List Poll → List Seen
  | _, seen, [] => seen
  | states, seen, poll :: polls =>
      let (states, changes) := observe options states poll
      let report := (changes.find? fun c => c.name = name).map fun c => (c.old, c.new)
      story name states (match observation name poll with
        | none => []
        | some state => seen ++ [⟨poll.now, state, report⟩]) polls

section History

variable (seen : List Seen)

def lastReport : Option Seen := (seen.filter fun x => x.report.isSome).getLast?

/-- The state that was last reported, or first seen. -/
def standing : String :=
  match lastReport seen with
  | some x => x.state
  | none => (seen.head?.map Seen.state).getD ""

def streak (state : String) : Nat := (seen.reverse.takeWhile fun x => x.state = state).length

def Rested (t : Nat) : Prop := ∀ last ∈ lastReport seen, last.time + options.minIntervalMs ≤ t

end History

section Rows

variable {options} {t : Nat} {ignore : List String} {states : Tracked} {c : WatchedContainer} {rows : List WatchedContainer}

theorem observeRows_skip (h : !isManagedContainerName c.name ∨ c.name ∈ ignore) :
    observeRows options t ignore states (c :: rows) = observeRows options t ignore states rows := by
  rw [observeRows, if_pos h]

theorem observeRows_cons (hmanaged : isManagedContainerName c.name = true) (hignore : c.name ∉ ignore) :
    observeRows options t ignore states (c :: rows) =
      let tracked := track options t (effectiveContainerState c) (states c.name)
      let rest := observeRows options t ignore (Function.update states c.name (some tracked.1)) rows
      (rest.1, tracked.2.toList.map (fun p => ⟨c.name, p.1, p.2⟩) ++ rest.2.1, c.name :: rest.2.2) := by
  rw [observeRows, if_neg (by simp [hmanaged, hignore])]

theorem observation_ignored {name : String} (h : name ∈ ignore) :
    observation name ⟨rows, ignore, t⟩ = none := if_pos h

theorem observation_cons_self (h : c.name ∉ ignore) :
    observation c.name ⟨c :: rows, ignore, t⟩ = some (effectiveContainerState c) := by
  rw [observation, if_neg h, List.find?_cons_of_pos (by simp)]
  rfl

theorem observation_cons_other {name : String} (h : c.name ≠ name) :
    observation name ⟨c :: rows, ignore, t⟩ = observation name ⟨rows, ignore, t⟩ := by
  rw [observation, observation, List.find?_cons_of_neg (by simpa using h)]

theorem observation_fresh {name : String} (h : name ∉ rows.map WatchedContainer.name) :
    observation name ⟨rows, ignore, t⟩ = none := by
  have hfind : rows.find? (fun d => d.name = name) = none :=
    List.find?_eq_none.2 fun d hd hdn => h (List.mem_map.2 ⟨d, hd, of_decide_eq_true hdn⟩)
  rw [observation]
  split_ifs
  · rfl
  · rw [hfind]
    rfl

theorem observeRows_apply {name : String} (hname : isManagedContainerName name = true)
    (hrows : (rows.map WatchedContainer.name).Nodup) :
    (observeRows options t ignore states rows).1 name =
        ((observation name ⟨rows, ignore, t⟩).elim (states name) fun state => some (track options t state (states name)).1) ∧
      (observeRows options t ignore states rows).2.1.filter (fun c => c.name = name) =
        ((observation name ⟨rows, ignore, t⟩).bind fun state => (track options t state (states name)).2).toList.map (fun p => ⟨name, p.1, p.2⟩) ∧
      (name ∈ (observeRows options t ignore states rows).2.2 ↔ (observation name ⟨rows, ignore, t⟩).isSome = true) := by
  induction rows generalizing states with
  | nil =>
      rw [observation_fresh (by simp)]
      simp [observeRows]
  | cons c rows ih =>
      obtain ⟨hfresh, hrows⟩ := List.nodup_cons.1 hrows
      by_cases hn : c.name = name
      · subst hn
        by_cases hi : c.name ∈ ignore
        · have hrest := @ih states hrows
          rw [observation_ignored hi] at hrest ⊢
          rw [observeRows_skip (Or.inr hi)]
          exact hrest
        · obtain ⟨hstate, hchanges, -⟩ :=
            @ih (Function.update states c.name (some (track options t (effectiveContainerState c) (states c.name)).1)) hrows
          rw [observation_fresh hfresh] at hstate hchanges
          rw [observeRows_cons hname hi, observation_cons_self hi]
          refine ⟨?_, ?_, ?_⟩
          · dsimp only
            rw [hstate]
            exact Function.update_self _ _ _
          · dsimp only
            rw [List.filter_append, hchanges]
            cases htrack : (track options t (effectiveContainerState c) (states c.name)).2 <;> simp [htrack]
          · simp
      · rw [observation_cons_other hn]
        by_cases hskip : !isManagedContainerName c.name ∨ c.name ∈ ignore
        · rw [observeRows_skip hskip]
          exact ih hrows
        · obtain ⟨hmanaged, hi⟩ := not_or.1 hskip
          obtain ⟨hstate, hchanges, hseen⟩ :=
            @ih (Function.update states c.name (some (track options t (effectiveContainerState c) (states c.name)).1)) hrows
          rw [Function.update_of_ne (Ne.symm hn)] at hstate hchanges
          rw [observeRows_cons (by simpa using hmanaged) hi]
          refine ⟨hstate, ?_, ?_⟩
          · dsimp only
            rw [List.filter_append, hchanges]
            cases (track options t (effectiveContainerState c) (states c.name)).2 <;> simp [hn]
          · dsimp only
            rw [List.mem_cons, or_iff_right (Ne.symm hn)]
            exact hseen

theorem observe_apply {name : String} (hname : isManagedContainerName name = true) {poll : Poll}
    (hrows : (poll.rows.map WatchedContainer.name).Nodup) :
    (observe options states poll).1 name = ((observation name poll).map fun state => (track options poll.now state (states name)).1) ∧
      ((observe options states poll).2.find? fun c => c.name = name).map (fun c => (c.old, c.new)) =
        (observation name poll).bind fun state => (track options poll.now state (states name)).2 := by
  obtain ⟨hstate, hchanges, hseen⟩ :=
    @observeRows_apply options poll.now poll.ignore states poll.rows name hname hrows
  constructor
  · rw [observe]
    dsimp only
    rw [hstate]
    cases hobs : observation name poll with
    | none =>
        rw [if_neg]
        · rfl
        · rw [hseen]
          simp [hobs]
    | some state =>
        rw [if_pos]
        · rfl
        · rw [hseen]
          simp [hobs]
  · rw [← List.head?_filter, observe]
    dsimp only
    rw [hchanges]
    cases hobs : (observation name poll).bind fun state => (track options poll.now state (states name)).2 <;> simp

end Rows

section Law

variable {options} {seen : List Seen} {x : Seen}

instance (t : Nat) : Decidable (Rested options seen t) :=
  inferInstanceAs (Decidable (∀ last ∈ lastReport seen, _))

/-- The report that a poll is to make after the polls before it. -/
def due (options : TrackerOptions) (seen : List Seen) (t : Nat) (state : String) :
    Option (String × String) :=
  if seen ≠ [] ∧ state ≠ standing seen ∧ options.confirmPolls ≤ streak seen state + 1 ∧
    Rested options seen t then some (standing seen, state) else none

def trackedOf (seen : List Seen) : Option TrackedState :=
  seen.getLast?.map fun last =>
    if last.state = standing seen then ⟨standing seen, none, 0, (lastReport seen).map Seen.time⟩
    else ⟨standing seen, some last.state, streak seen last.state, (lastReport seen).map Seen.time⟩

theorem lastReport_none (h : x.report = none) : lastReport (seen ++ [x]) = lastReport seen := by
  rw [lastReport, lastReport, List.filter_append, List.filter_cons_of_neg (by simp [h])]
  simp

theorem lastReport_some (h : x.report.isSome = true) : lastReport (seen ++ [x]) = some x := by
  rw [lastReport, List.filter_append]
  simp [h]

theorem standing_none (h : x.report = none) (hne : seen ≠ []) :
    standing (seen ++ [x]) = standing seen := by
  rw [standing, standing, lastReport_none h]
  cases seen with
  | nil => exact absurd rfl hne
  | cons y seen => rfl

theorem standing_some (h : x.report.isSome = true) : standing (seen ++ [x]) = x.state := by
  rw [standing, lastReport_some h]

theorem streak_concat (state : String) :
    streak (seen ++ [x]) state = if x.state = state then streak seen state + 1 else 0 := by
  rw [streak, streak, List.reverse_append, List.reverse_singleton, List.singleton_append]
  split_ifs with h
  · rw [List.takeWhile_cons_of_pos (by simpa using h)]
    rfl
  · rw [List.takeWhile_cons_of_neg (by simpa using h)]
    rfl

theorem held_iff {t : Nat} :
    ((lastReport seen).map Seen.time).any (fun last => t < last + options.minIntervalMs) = false ↔
        Rested options seen t := by
  cases h : lastReport seen <;> simp [Rested, h]

theorem trackedOf_concat (seen : List Seen) (x : Seen) :
    trackedOf (seen ++ [x]) =
      some (if x.state = standing (seen ++ [x]) then ⟨standing (seen ++ [x]), none, 0, (lastReport (seen ++ [x])).map Seen.time⟩
        else ⟨standing (seen ++ [x]), some x.state, streak (seen ++ [x]) x.state, (lastReport (seen ++ [x])).map Seen.time⟩) := by
  rw [trackedOf, List.getLast?_concat, Option.map_some]

/-- A state other than the standing one has been a candidate for as long as it was observed. -/
theorem track_candidate (t : Nat) {state : String} (hne : seen ≠ []) (hstate : state ≠ standing seen) :
    track options t state (trackedOf seen) =
      if streak seen state + 1 < options.confirmPolls ∨
        ((lastReport seen).map Seen.time).any (fun last => t < last + options.minIntervalMs) then
        (⟨standing seen, some state, streak seen state + 1, (lastReport seen).map Seen.time⟩, none)
      else (⟨state, none, 0, some t⟩, some (standing seen, state)) := by
  rcases List.eq_nil_or_concat seen with rfl | ⟨init, last, rfl⟩
  · exact absurd rfl hne
  · rw [List.concat_eq_append] at hstate ⊢
    rw [trackedOf_concat]
    by_cases hlast : last.state = standing (init ++ [last])
    · have hstreak : streak (init ++ [last]) state = 0 := by
        rw [streak_concat, if_neg fun (h : last.state = state) => hstate (h.symm.trans hlast)]
      rw [if_pos hlast, track]
      simp [hstate, hstreak]
    · by_cases hsame : last.state = state
      · rw [if_neg hlast, track]
        simp [hstate, hsame]
      · have hstreak : streak (init ++ [last]) state = 0 := by rw [streak_concat, if_neg hsame]
        rw [if_neg hlast, track]
        simp [hstate, hsame, hstreak]

/-- One poll: the report is the one that is due, and what is kept is made of the polls again. -/
theorem track_trackedOf (t : Nat) (state : String) :
    (track options t state (trackedOf seen)).2 = due options seen t state ∧
      some (track options t state (trackedOf seen)).1 = trackedOf (seen ++ [⟨t, state, due options seen t state⟩]) := by
  by_cases hne : seen = []
  · subst hne
    have hdue : due options [] t state = none := if_neg fun h => h.1 rfl
    have hfirst : standing ([] ++ [⟨t, state, none⟩]) = state := rfl
    rw [hdue, trackedOf_concat, hfirst, if_pos rfl]
    exact ⟨rfl, rfl⟩
  · by_cases hstate : state = standing seen
    · have hdue : due options seen t state = none := if_neg fun h => h.2.1 hstate
      have hnext : standing (seen ++ [⟨t, state, none⟩]) = standing seen := standing_none rfl hne
      have htracked : ∃ candidate polls, trackedOf seen =
          some ⟨standing seen, candidate, polls, (lastReport seen).map Seen.time⟩ := by
        rcases List.eq_nil_or_concat seen with rfl | ⟨init, last, rfl⟩
        · exact absurd rfl hne
        · rw [List.concat_eq_append, trackedOf_concat]
          split_ifs
          · exact ⟨_, _, rfl⟩
          · exact ⟨_, _, rfl⟩
      obtain ⟨candidate, polls, htracked⟩ := htracked
      have htrack : track options t state (trackedOf seen) =
          (⟨standing seen, none, 0, (lastReport seen).map Seen.time⟩, none) := by
        rw [htracked, track, if_pos hstate]
      rw [htrack, hdue, trackedOf_concat, hnext, if_pos hstate, lastReport_none rfl]
      exact ⟨rfl, rfl⟩
    · rw [track_candidate t hne hstate]
      by_cases hdue : options.confirmPolls ≤ streak seen state + 1 ∧ Rested options seen t
      · have hreport : due options seen t state = some (standing seen, state) :=
          if_pos ⟨hne, hstate, hdue⟩
        have hnext : standing (seen ++ [⟨t, state, some (standing seen, state)⟩]) = state :=
          standing_some rfl
        rw [if_neg (by simp [Nat.not_lt.2 hdue.1, held_iff.2 hdue.2]), hreport, trackedOf_concat, hnext,
          if_pos rfl, lastReport_some rfl]
        exact ⟨rfl, rfl⟩
      · have hreport : due options seen t state = none := if_neg fun h => hdue h.2.2
        have hnext : standing (seen ++ [⟨t, state, none⟩]) = standing seen := standing_none rfl hne
        have hheld : streak seen state + 1 < options.confirmPolls ∨
            ((lastReport seen).map Seen.time).any (fun last => t < last + options.minIntervalMs) = true := by
          by_cases hconfirm : options.confirmPolls ≤ streak seen state + 1
          · refine Or.inr ?_
            rw [← Bool.not_eq_false, held_iff]
            exact fun hrested => hdue ⟨hconfirm, hrested⟩
          · exact Or.inl (Nat.lt_of_not_le hconfirm)
        rw [if_pos hheld, hreport, trackedOf_concat, hnext, if_neg hstate, lastReport_none rfl,
          streak_concat, if_pos rfl]
        exact ⟨rfl, rfl⟩

end Law

section Story

variable {options} {name : String} {polls : List Poll} {states : Tracked} {seen : List Seen}

def Lawful (options : TrackerOptions) (seen : List Seen) : Prop :=
  ∀ before x after, seen = before ++ x :: after → x.report = due options before x.time x.state

theorem lawful_nil : Lawful options [] := by
  intro before x after h
  cases before <;> cases h

theorem Lawful.concat {x : Seen} (h : Lawful options seen)
    (hx : x.report = due options seen x.time x.state) : Lawful options (seen ++ [x]) := by
  intro before y after heq
  rcases List.eq_nil_or_concat after with rfl | ⟨init, last, rfl⟩
  · obtain ⟨rfl, hy⟩ := List.append_inj' heq rfl
    obtain rfl : x = y := (List.cons.inj hy).1
    exact hx
  · have hinit : seen = before ++ y :: init := by
      have hsplit : before ++ y :: (init.concat last) = (before ++ y :: init) ++ [last] := by simp
      rw [hsplit] at heq
      exact (List.append_inj' heq rfl).1
    exact h before y init hinit

def DistinctNames (polls : List Poll) : Prop :=
  ∀ poll ∈ polls, (poll.rows.map WatchedContainer.name).Nodup

/-- The story is a matter of the container's own observations. -/
def retell (options : TrackerOptions) : List Seen → List (Nat × Option String) → List Seen
  | seen, [] => seen
  | _, (_, none) :: rest => retell options [] rest
  | seen, (t, some state) :: rest => retell options (seen ++ [⟨t, state, due options seen t state⟩]) rest

theorem story_eq_retell (hname : isManagedContainerName name = true) (hpolls : DistinctNames polls)
    (hstates : states name = trackedOf seen) :
    story options name states seen polls = retell options seen (polls.map fun p => (p.now, observation name p)) := by
  induction polls generalizing states seen with
  | nil => rfl
  | cons poll polls ih =>
      obtain ⟨hnext, hreport⟩ :=
        @observe_apply options states name hname poll (hpolls poll List.mem_cons_self)
      have hrest : DistinctNames polls := fun p hp => hpolls p (List.mem_cons_of_mem _ hp)
      rw [story, List.map_cons]
      dsimp only
      rw [hreport]
      cases hobs : observation name poll with
      | none =>
          rw [hobs] at hnext
          rw [ih hrest (hnext.trans rfl)]
          rfl
      | some state =>
          rw [hobs, hstates] at hnext
          obtain ⟨hdue, htracked⟩ := @track_trackedOf options seen poll.now state
          rw [Option.map_some, htracked] at hnext
          rw [Option.bind_some, hstates, hdue, ih hrest hnext]
          rfl

theorem lawful_retell (h : Lawful options seen) (observations : List (Nat × Option String)) :
    Lawful options (retell options seen observations) := by
  induction observations generalizing seen with
  | nil => exact h
  | cons o rest ih =>
      obtain ⟨t, _ | state⟩ := o
      · exact ih lawful_nil
      · exact ih (h.concat rfl)

def Clocked (polls : List Poll) : Prop := polls.Pairwise fun p q => p.now ≤ q.now

theorem ordered_retell {observations : List (Nat × Option String)}
    (hordered : seen.Pairwise fun x y => x.time ≤ y.time)
    (hafter : ∀ x ∈ seen, ∀ o ∈ observations, x.time ≤ o.1)
    (hobservations : observations.Pairwise fun o o' => o.1 ≤ o'.1) :
    (retell options seen observations).Pairwise fun x y => x.time ≤ y.time := by
  induction observations generalizing seen with
  | nil => exact hordered
  | cons o rest ih =>
      obtain ⟨hle, hrest⟩ := List.pairwise_cons.1 hobservations
      obtain ⟨t, _ | state⟩ := o
      · exact ih List.Pairwise.nil (by simp) hrest
      · refine ih ?_ ?_ hrest
        · rw [List.pairwise_append]
          refine ⟨hordered, List.pairwise_singleton _ _, fun x hx y hy => ?_⟩
          obtain rfl := List.mem_singleton.1 hy
          exact hafter x hx _ List.mem_cons_self
        · intro x hx o ho
          rcases List.mem_append.1 hx with hx | hx
          · exact hafter x hx o (List.mem_cons_of_mem _ ho)
          · obtain rfl := List.mem_singleton.1 hx
            exact hle o ho

end Story

section Reports

variable {options : TrackerOptions} {before between : List Seen} {x y : Seen}

theorem due_eq_some {t : Nat} {state old new : String} (h : due options before t state = some (old, new)) :
    before ≠ [] ∧ old = standing before ∧ new = state ∧ state ≠ standing before ∧
      options.confirmPolls ≤ streak before state + 1 ∧
      Rested options before t := by
  rw [due] at h
  split_ifs at h with hdue
  obtain ⟨rfl, rfl⟩ := Prod.mk.inj (Option.some_inj.1 h)
  exact ⟨hdue.1, rfl, rfl, hdue.2⟩

/-- The last report before a poll is not before any other one. -/
theorem Rested.time_le (h : Rested options (before ++ x :: between) y.time) (hx : x.report.isSome = true)
    (hordered : (before ++ x :: between).Pairwise fun x y => x.time ≤ y.time) :
    x.time + options.minIntervalMs ≤ y.time := by
  have hcons : (x :: between).filter (fun z => z.report.isSome) =
      x :: between.filter fun z => z.report.isSome := by
    simp [hx]
  have hlast : lastReport (before ++ x :: between) =
      some ((x :: between.filter fun z => z.report.isSome).getLast (List.cons_ne_nil _ _)) := by
    rw [lastReport, List.filter_append, hcons, List.getLast?_append_of_ne_nil _ (List.cons_ne_nil _ _),
      List.getLast?_eq_some_getLast]
  have hle := h _ hlast
  have hlater : x.time ≤ ((x :: between.filter fun z => z.report.isSome).getLast (List.cons_ne_nil _ _)).time := by
    rcases List.mem_cons.1 (List.getLast_mem (List.cons_ne_nil x (between.filter fun z => z.report.isSome))) with he | hbetween
    · exact Nat.le_of_eq (congrArg Seen.time he.symm)
    · exact (List.pairwise_cons.1 (List.pairwise_append.1 hordered).2.1).1 _
        (List.mem_filter.1 hbetween).1
  omega

end Reports

/-- What the polls of a managed container report while it stays present and is not ignored. -/
theorem tracker_reports (options : TrackerOptions) {name : String}
    (hname : isManagedContainerName name = true) {polls : List Poll}
    (hpolls : DistinctNames polls) (hclock : Clocked polls) :
    let told := story options name (fun _ => none) [] polls
    (∀ x after, told = x :: after → x.report = none) ∧
      (∀ before x after old new, told = before ++ x :: after → x.report = some (old, new) →
        old = standing before ∧ new = x.state ∧ new ≠ old ∧ options.confirmPolls ≤ streak (before ++ [x]) new) ∧
      (∀ before x between y after, told = before ++ x :: (between ++ y :: after) → x.report.isSome = true → y.report.isSome = true →
        x.time + options.minIntervalMs ≤ y.time) ∧
      (∀ before x after, told = before ++ x :: after → before ≠ [] → x.state ≠ standing before →
        options.confirmPolls ≤ streak (before ++ [x]) x.state → Rested options before x.time → x.report = some (standing before, x.state)) ∧
      ∀ polls', DistinctNames polls' →
        (polls'.map fun p => (p.now, observation name p)) = (polls.map fun p => (p.now, observation name p)) →
        story options name (fun _ => none) [] polls' = told := by
  intro told
  have htold : told = retell options [] (polls.map fun p => (p.now, observation name p)) :=
    story_eq_retell hname hpolls rfl
  have hlawful : Lawful options told := htold ▸ lawful_retell lawful_nil _
  have hordered : told.Pairwise fun x y => x.time ≤ y.time := by
    rw [htold]
    exact ordered_retell List.Pairwise.nil (by simp) (List.pairwise_map.2 hclock)
  refine ⟨?_, ?_, ?_, ?_, ?_⟩
  · intro x after h
    rw [hlawful [] x after h]
    exact if_neg fun hdue => hdue.1 rfl
  · intro before x after old new h hreport
    rw [hlawful before x after h] at hreport
    obtain ⟨-, rfl, rfl, hstate, hconfirm, -⟩ := due_eq_some hreport
    refine ⟨rfl, rfl, hstate, ?_⟩
    rwa [streak_concat, if_pos rfl]
  · intro before x between y after h hx hy
    have hsplit : told = (before ++ x :: between) ++ y :: after := by rw [h]; simp
    rw [hlawful _ y after hsplit] at hy
    obtain ⟨⟨old, new⟩, hreport⟩ := Option.isSome_iff_exists.1 hy
    rw [hsplit] at hordered
    exact (due_eq_some hreport).2.2.2.2.2.time_le hx (List.pairwise_append.1 hordered).1
  · intro before x after h hne hstate hconfirm hrested
    rw [streak_concat, if_pos rfl] at hconfirm
    rw [hlawful before x after h]
    exact if_pos ⟨hne, hstate, hconfirm, hrested⟩
  · intro polls' hpolls' hsame
    rw [htold, ← hsame]
    exact story_eq_retell hname hpolls' rfl

def pollsOf (name : String) : List Poll :=
  [⟨[⟨name, "running", ""⟩], [], 0⟩, ⟨[⟨name, "exited", ""⟩], [], 1⟩, ⟨[⟨name, "exited", ""⟩], [], 2⟩]

/-- Another container in a poll changes nothing. -/
theorem tracker_reports_app :
    story ⟨2, 0⟩ "yeah-app-1" (fun _ => none) [] (pollsOf "yeah-app-1" ++ [⟨[⟨"yeah-db-1", "exited", ""⟩], [], 3⟩]) =
      story ⟨2, 0⟩ "yeah-app-1" (fun _ => none) [] (pollsOf "yeah-app-1" ++ [⟨[], [], 3⟩]) :=
  (@tracker_reports ⟨2, 0⟩ "yeah-app-1" (by decide +kernel) (pollsOf "yeah-app-1" ++ [⟨[], [], 3⟩]) (by simp [DistinctNames, pollsOf])
    (by simp [Clocked, pollsOf])).2.2.2.2 (pollsOf "yeah-app-1" ++ [⟨[⟨"yeah-db-1", "exited", ""⟩], [], 3⟩]) (by simp [DistinctNames, pollsOf])
    (by decide +kernel)

/-- A container that yeah did not create is present, holds its state on enough polls, and is not reported. -/
theorem unmanaged_not_reported :
    story ⟨2, 0⟩ "portainer" (fun _ => none) [] (pollsOf "portainer") = [⟨0, "running", none⟩, ⟨1, "exited", none⟩] ++ [⟨2, "exited", none⟩] ∧
      "exited" ≠ standing [⟨0, "running", none⟩, ⟨1, "exited", none⟩] ∧
      2 ≤ streak ([⟨0, "running", none⟩, ⟨1, "exited", none⟩] ++ [⟨2, "exited", none⟩]) "exited" ∧
      Rested ⟨2, 0⟩ [⟨0, "running", none⟩, ⟨1, "exited", none⟩] 2 := by
  refine ⟨by decide +kernel, by decide +kernel, by decide +kernel, ?_⟩
  intro last hlast
  cases hlast

end Yeah.Events
