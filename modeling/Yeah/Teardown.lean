import Yeah.DualWrite
import Yeah.Runs

namespace Yeah.Teardown

open DualWrite Runs

/-- What a deployment leaves on the server for an application: its containers, their alias in the environment network,
the router file and the waker's entry. -/
inductive Part
  | container
  | networkAlias
  | router
  | waker
  deriving DecidableEq

structure Application where
  id : String
  previewOf : Option String
  /-- The build pack is `docker_compose`; no route changes it. -/
  compose : Bool
  domain : Bool
  /-- `sleepAfterMinutes` or `maintenanceMode` -/
  wakes : Bool
  deriving DecidableEq

inductive Command
  | removeOld
  | run
  | composeUp
  | join
  | writeWaker
  | writeRouter
  | dropWaker
  | dropRouting
  deriving DecidableEq

def writeAppRouting (a : Application) : List Command :=
  if !a.domain then [.dropRouting] else if a.wakes then [.writeWaker, .writeRouter] else [.writeRouter, .dropWaker]

/-- Of the commands of a deployment those that change a part. -/
def deployApplication (a : Application) : List Command :=
  if a.compose then [.composeUp, .join] else [.removeOld, .run, .join] ++ writeAppRouting a

/-- A deployment job with the row that it has read and the commands to come. -/
structure Job where
  application : Application
  todo : List Command

/-- The commands of `tearDownApplication`. -/
inductive Removal
  | containers (id : String)
  | router (id : String)
  deriving DecidableEq

def tearDownApplication (a : Application) : List Removal := [.containers a.id, .router a.id]

/-- A deletion in progress: the removals to come, the row that it is to delete, and whether the row waits for them. -/
structure Deletion where
  todo : List Removal
  row : Option String
  awaited : Bool

structure State where
  rows : Table Application.id
  on : String → Part → Bool
  jobs : List Job
  deletions : List Deletion

def empty : State := ⟨.empty, fun _ _ => false, [], []⟩

inductive Action
  | create (a : Application)
  | update (id : String) (domain wakes : Bool)
  | load (id : String)
  | work (i : Nat) (outcome : Outcome)
  /-- A job throws between two of these commands. -/
  | stop (i : Nat)
  | deleteApplication (id : String)
  | closePreview (id : String)
  | remove (i : Nat)
  | deleteRow (i : Nat) (done : Bool)
  /-- The delete route throws before it comes to the row. -/
  | fail (i : Nat)

def Command.effect (c : Command) (parts : Part → Bool) : Part → Bool :=
  match c with
  | .removeOld => fun p => parts p && p ≠ .container && p ≠ .networkAlias
  | .run | .composeUp => fun p => parts p || p = .container
  | .join => fun p => parts p || (p = .networkAlias && parts .container)
  | .writeWaker => fun p => parts p || p = .waker
  | .writeRouter => fun p => parts p || p = .router
  | .dropWaker => fun p => parts p && p ≠ .waker
  | .dropRouting => fun p => parts p && p ≠ .router && p ≠ .waker

def Removal.id : Removal → String
  | .containers id => id
  | .router id => id

/-- With a container goes its alias. -/
def Removal.takes : Removal → Part → Bool
  | .containers _, p => p = .container ∨ p = .networkAlias
  | .router _, p => p = .router

/-- The row, and what the foreign key deletes with it: a preview has no previews. -/
def under (id : String) (a : Application) : Bool := a.id = id ∨ a.previewOf = some id

def accepted (s : State) (a : Application) : Bool :=
  a.previewOf.all fun parent => (s.rows.find parent).any fun p => p.previewOf.isNone

def step (s : State) : Action → State
  | .create a => if accepted s a then { s with rows := (s.rows.insert a).getD s.rows } else s
  | .update id domain wakes =>
      match s.rows.find id with
      | none => s
      | some a => { s with rows := s.rows.replace { a with domain, wakes } }
  | .load id =>
      match s.rows.find id with
      | none => s
      | some a => { s with jobs := s.jobs ++ [⟨a, deployApplication a⟩] }
  | .work i outcome =>
      match s.jobs[i]? with
      | some ⟨a, c :: todo⟩ =>
          { s with
            on := if outcome.effect then Function.update s.on a.id (c.effect (s.on a.id)) else s.on
            -- only the removal of the old container may fail
            jobs := s.jobs.set i ⟨a, if outcome.threw ∧ c ≠ .removeOld then [] else todo⟩ }
      | _ => s
  | .stop i => { s with jobs := s.jobs.modify i fun j => { j with todo := [] } }
  | .deleteApplication id =>
      match s.rows.find id with
      | none => s
      | some a =>
          let previews := s.rows.rows.filter fun p => p.previewOf = some id
          { s with deletions := s.deletions ++ [⟨previews.flatMap tearDownApplication ++ tearDownApplication a, some id, true⟩] }
  | .closePreview id =>
      match s.rows.find id with
      | none => s
      | some a => if a.previewOf.isSome then { s with deletions := s.deletions ++ [⟨tearDownApplication a, some id, false⟩] } else s
  | .remove i =>
      match s.deletions[i]? with
      | some ⟨r :: todo, row, awaited⟩ =>
          { s with
            on := Function.update s.on r.id fun p => s.on r.id p && !r.takes p
            deletions := s.deletions.set i ⟨todo, row, awaited⟩ }
      | _ => s
  | .deleteRow i done =>
      match s.deletions[i]? with
      | some ⟨todo, some id, awaited⟩ =>
          if awaited ∧ todo ≠ [] then s
          else
            { s with
              rows := if done then s.rows.delete (under id) else s.rows
              deletions := s.deletions.set i ⟨todo, none, awaited⟩ }
      | _ => s
  | .fail i =>
      match s.deletions[i]? with
      | some ⟨_, _, true⟩ => { s with deletions := s.deletions.eraseIdx i }
      | _ => s

/-! ### What is promised -/

def Quiet (s : State) : Prop :=
  (∀ j ∈ s.jobs, j.todo = []) ∧ ∀ d ∈ s.deletions, d.todo = [] ∧ d.row = none

def NothingLeft (s : State) : Prop := Quiet s → ∀ id, s.rows.find id = none → ∀ p, s.on id p = false

/-! ### The condition on a step -/

def Takes (todo : List Removal) (id : String) (p : Part) : Prop :=
  ∃ r ∈ todo, r.id = id ∧ r.takes p = true

/-- A removal to come takes the part, or the row is there and stays until one to come has taken it. -/
def Safe (rows : Table Application.id) (deletions : List Deletion) (id : String) (p : Part) : Prop :=
  (∃ d ∈ deletions, Takes d.todo id p) ∨
    ∃ a, rows.find id = some a ∧ ∀ d ∈ deletions, ∀ row, d.row = some row → under row a = true →
      Takes d.todo id p

def Command.creates : Command → List Part
  | .run | .composeUp => [.container]
  | .writeWaker => [.waker]
  | .writeRouter => [.router]
  | .removeOld | .join | .dropWaker | .dropRouting => []

/-- A job makes a container or writes a file only while the teardown of it is to come, or no deletion of the row is past it;
a deletion starts while the waker has no entry of the application and its previews; and a deletion that fails leaves nothing to
itself alone. -/
def Calm (s : State) : Action → Prop
  | .work i outcome =>
      ∀ a c todo, s.jobs[i]? = some ⟨a, c :: todo⟩ → outcome.effect = true →
        ∀ p ∈ c.creates, Safe s.rows s.deletions a.id p
  | .deleteApplication id | .closePreview id => ∀ a ∈ s.rows.rows, under id a = true → s.on a.id .waker = false
  | .fail i =>
      ∀ d, s.deletions[i]? = some d → ∀ r ∈ d.todo, ∀ p, r.takes p = true → s.on r.id p = true →
        Safe s.rows (s.deletions.eraseIdx i) r.id p
  | _ => True

/-! ### The invariant -/

section Invariant

variable {rows rows' : Table Application.id} {deletions deletions' : List Deletion} {id : String} {p : Part}

theorem Safe.of_rows (h : Safe rows deletions id p)
    (hrows : ∀ a, rows.find id = some a → ∃ a', rows'.find id = some a' ∧ a'.previewOf = a.previewOf) :
    Safe rows' deletions id p := by
  refine h.imp_right ?_
  rintro ⟨a, ha, hall⟩
  obtain ⟨a', ha', hp⟩ := hrows a ha
  have hid : a'.id = a.id := (Table.key_of_find ha').trans (Table.key_of_find ha).symm
  refine ⟨a', ha', fun d hd row hrow hu => hall d hd row hrow ?_⟩
  rwa [under, hid, hp] at hu

/-- What a change of the deletions keeps, if none takes less and none has another row to delete. -/
theorem Safe.of_deletions (h : Safe rows deletions id p)
    (hto : ∀ d ∈ deletions, Takes d.todo id p → ∃ d' ∈ deletions', Takes d'.todo id p)
    (hfrom : ∀ d' ∈ deletions', ∃ d ∈ deletions, (d'.row = none ∨ d'.row = d.row) ∧ (Takes d.todo id p → Takes d'.todo id p)) :
    Safe rows deletions' id p := by
  rcases h with ⟨d, hd, ht⟩ | ⟨a, ha, hall⟩
  · exact Or.inl (hto d hd ht)
  · refine Or.inr ⟨a, ha, fun d' hd' row hrow hu => ?_⟩
    obtain ⟨d, hd, hr, ht⟩ := hfrom d' hd'
    rcases hr with hr | hr
    · rw [hr] at hrow
      cases hrow
    · exact ht (hall d hd row (hr.symm.trans hrow) hu)

structure Inv (s : State) : Prop where
  parents : ∀ id a parent, s.rows.find id = some a → a.previewOf = some parent →
    ∃ q, s.rows.find parent = some q ∧ q.previewOf = none
  safe : ∀ id p, s.on id p = true → Safe s.rows s.deletions id p

theorem Inv.nothingLeft {s : State} (hi : Inv s) : NothingLeft s := by
  rintro ⟨-, hdone⟩ id hnone p
  by_contra hon
  rcases hi.safe id p (by simpa using hon) with ⟨d, hd, r, hr, -⟩ | ⟨a, ha, -⟩
  · rw [(hdone d hd).1] at hr
    cases hr
  · rw [hnone] at ha
    cases ha

theorem inv_empty : Inv empty :=
  ⟨fun _ _ _ ha => absurd ha (by simp [empty, Table.empty, Table.find]),
    fun _ _ h => absurd h (by simp [empty])⟩

theorem takes_alias {todo : List Removal} : Takes todo id .networkAlias ↔ Takes todo id .container := by
  have h (r : Removal) : r.takes .networkAlias = r.takes .container := by cases r <;> rfl
  simp only [Takes, h]

theorem safe_alias : Safe rows deletions id .networkAlias ↔ Safe rows deletions id .container := by
  simp only [Safe, takes_alias]

theorem effect_eq_true {c : Command} {parts : Part → Bool} (h : c.effect parts p = true) :
    parts p = true ∨ p ∈ c.creates ∨ (p = .networkAlias ∧ parts .container = true) := by
  cases c <;> simp only [Command.effect, Command.creates, Bool.and_eq_true, Bool.or_eq_true, decide_eq_true_eq] at h ⊢
  case removeOld | dropRouting => exact Or.inl h.1.1
  case dropWaker => exact Or.inl h.1
  case run | composeUp | writeWaker | writeRouter => exact h.imp_right fun he => Or.inl (List.mem_singleton.2 he)
  case join => exact h.imp_right Or.inr

theorem takes_tearDown (a : Application) (hp : p ≠ .waker) : Takes (tearDownApplication a) a.id p := by
  cases p with
  | container | networkAlias => exact ⟨.containers a.id, List.mem_cons_self, rfl, rfl⟩
  | router => exact ⟨.router a.id, List.mem_cons_of_mem _ List.mem_cons_self, rfl, rfl⟩
  | waker => exact absurd rfl hp

theorem Takes.mono {todo todo' : List Removal} (h : Takes todo id p) (hs : todo ⊆ todo') :
    Takes todo' id p :=
  h.imp fun _ hr => ⟨hs hr.1, hr.2⟩

theorem Safe.of_set (h : Safe rows deletions id p) {i : Nat} {d f : Deletion} (hd : deletions[i]? = some d)
    (ht : Takes d.todo id p → Takes f.todo id p) (hrow : f.row = none ∨ f.row = d.row) :
    Safe rows (deletions.set i f) id p := by
  refine h.of_deletions (fun e he hte => ?_) fun e he => ?_
  · rcases Tables.mem_set_of_mem hd he f with rfl | he
    · exact ⟨f, Tables.mem_set_self hd f, ht hte⟩
    · exact ⟨e, he, hte⟩
  · rcases List.mem_or_eq_of_mem_set he with he | rfl
    · exact ⟨e, he, Or.inr rfl, fun hte => hte⟩
    · exact ⟨d, List.mem_of_getElem? hd, hrow, ht⟩

theorem Safe.start (h : Safe rows deletions id p) {d : Deletion} {row : String} (hd : d.row = some row)
    (ht : ∀ a, rows.find id = some a → under row a = true → Takes d.todo id p) :
    Safe rows (deletions ++ [d]) id p := by
  rcases h with ⟨e, he, hte⟩ | ⟨a, ha, hall⟩
  · exact Or.inl ⟨e, List.mem_append_left _ he, hte⟩
  · refine Or.inr ⟨a, ha, fun e he row' hrow hu => ?_⟩
    rcases List.mem_append.1 he with he | he
    · exact hall e he row' hrow hu
    · obtain rfl := List.mem_singleton.1 he
      rw [hd] at hrow
      exact ht a ha (Option.some_inj.1 hrow ▸ hu)

theorem Safe.deleteRow (h : Safe rows deletions id p) {i : Nat} {todo : List Removal} {row : String}
    {awaited : Bool}
    (hd : deletions[i]? = some ⟨todo, some row, awaited⟩) :
    Safe (rows.delete (under row)) (deletions.set i ⟨todo, none, awaited⟩) id p := by
  have hset := h.of_set (f := ⟨todo, none, awaited⟩) hd (fun ht => ht) (Or.inl rfl)
  rcases h with ⟨e, he, hte⟩ | ⟨a, ha, hall⟩
  · refine Or.inl ?_
    rcases Tables.mem_set_of_mem hd he ⟨todo, none, awaited⟩ with rfl | he
    · exact ⟨⟨todo, none, awaited⟩, Tables.mem_set_self hd _, hte⟩
    · exact ⟨e, he, hte⟩
  · by_cases hu : under row a = true
    · have htake := hall _ (List.mem_of_getElem? hd) row rfl hu
      exact Or.inl ⟨_, Tables.mem_set_self hd _, htake⟩
    · refine hset.of_rows fun b hb => ⟨b, ?_, rfl⟩
      obtain rfl : a = b := Option.some_inj.1 (ha.symm.trans hb)
      rw [Table.find_delete, hb, Option.filter_some, if_pos (by simpa using hu)]

variable {s : State}

theorem step_work (hi : Inv s) (i : Nat) (outcome : Outcome) (hcalm : Calm s (.work i outcome)) :
    Inv (step s (.work i outcome)) := by
  rw [step]
  split
  · next a c todo hj =>
    refine ⟨hi.parents, fun id p hon => ?_⟩
    by_cases hid : outcome.effect = true ∧ id = a.id
    · obtain ⟨heff, rfl⟩ := hid
      simp only [heff, if_pos, Function.update_self] at hon
      rcases effect_eq_true hon with hold | hnew | ⟨rfl, hcon⟩
      · exact hi.safe a.id p hold
      · exact hcalm a c todo hj heff p hnew
      · exact safe_alias.2 (hi.safe a.id .container hcon)
    · refine hi.safe id p ?_
      dsimp only at hon
      split at hon
      · next heff => rwa [Function.update_of_ne fun he => hid ⟨heff, he⟩] at hon
      · exact hon
  · exact hi

theorem step_remove (hi : Inv s) (i : Nat) : Inv (step s (.remove i)) := by
  rw [step]
  split
  · next r todo row awaited hd =>
    refine ⟨hi.parents, fun id p hon => ?_⟩
    have hold : s.on id p = true ∧ ¬ (r.id = id ∧ r.takes p = true) := by
      dsimp only at hon
      by_cases hid : id = r.id
      · rw [hid] at hon ⊢
        simpa using hon
      · rw [Function.update_of_ne hid] at hon
        exact ⟨hon, fun h => hid h.1.symm⟩
    refine (hi.safe id p hold.1).of_set hd ?_ (Or.inr rfl)
    rintro ⟨r', hr', htakes⟩
    rcases List.mem_cons.1 hr' with rfl | hr'
    · exact absurd htakes hold.2
    · exact ⟨r', hr', htakes⟩
  · exact hi

/-- A preview has no previews. -/
theorem under_preview (hi : Inv s) {id : String} {a b : Application} (ha : s.rows.find id = some a)
    (hp : a.previewOf.isSome = true)
    (hb : s.rows.find b.id = some b) (hu : under id b = true) : b = a := by
  rcases of_decide_eq_true hu with rfl | hb'
  · exact Option.some_inj.1 (hb.symm.trans ha)
  · obtain ⟨q, hq, hnone⟩ := hi.parents b.id b id hb hb'
    rw [ha] at hq
    rw [Option.some_inj.1 hq, hnone] at hp
    cases hp

theorem takes_previews {id : String} {a b : Application} (ha : s.rows.find id = some a)
    (hb : s.rows.find b.id = some b)
    (hu : under id b = true) {p : Part} (hp : p ≠ .waker) :
    Takes ((s.rows.rows.filter fun q => q.previewOf = some id).flatMap tearDownApplication ++ tearDownApplication a) b.id p := by
  rcases of_decide_eq_true hu with rfl | hb'
  · obtain rfl := Option.some_inj.1 (hb.symm.trans ha)
    exact (takes_tearDown b hp).mono (List.subset_append_right _ _)
  · refine (takes_tearDown b hp).mono fun r hr => List.mem_append_left _ (List.mem_flatMap.2 ⟨b, ?_, hr⟩)
    exact List.mem_filter.2 ⟨(Table.find_eq_some.1 hb).1, decide_eq_true hb'⟩

/-- The deletion that starts takes all that is there, if the waker has no entry. -/
theorem inv_start (hi : Inv s) {id : String} {d : Deletion} (hd : d.row = some id)
    (hw : ∀ a ∈ s.rows.rows, under id a = true → s.on a.id .waker = false)
    (ht : ∀ b, s.rows.find b.id = some b → under id b = true → ∀ p, p ≠ .waker → Takes d.todo b.id p) :
    Inv { s with deletions := s.deletions ++ [d] } := by
  refine ⟨hi.parents, fun k p hon => (hi.safe k p hon).start hd fun b hb hu => ?_⟩
  have hk := Table.key_of_find hb
  subst hk
  refine ht b hb hu p fun hp => ?_
  subst hp
  have := hw b (Table.find_eq_some.1 hb).1 hu
  rw [hon] at this
  cases this

theorem step_create (hi : Inv s) (a : Application) : Inv (step s (.create a)) := by
  rw [step]
  split
  · next hacc =>
    cases hr : s.rows.insert a with
    | none => exact hi
    | some rows =>
        refine ⟨fun k b parent hb hp => ?_, fun k p hon => (hi.safe k p hon).of_rows fun b hb => ⟨b, Table.find_of_insert hr hb, rfl⟩⟩
        change rows.find k = some b at hb
        change ∃ q, rows.find parent = some q ∧ _
        rw [Table.find_insert hr] at hb
        split at hb
        · obtain rfl := Option.some_inj.1 hb
          rw [accepted, hp, Option.all_some, Option.any_eq_true] at hacc
          obtain ⟨q, hq, hnone⟩ := hacc
          exact ⟨q, Table.find_of_insert hr hq, Option.isNone_iff_eq_none.1 hnone⟩
        · obtain ⟨q, hq, hnone⟩ := hi.parents k b parent hb hp
          exact ⟨q, Table.find_of_insert hr hq, hnone⟩
  · exact hi

theorem step_update (hi : Inv s) (id : String) (domain wakes : Bool) :
    Inv (step s (.update id domain wakes)) := by
  rw [step]
  split
  · exact hi
  · next a ha =>
    have hid := Table.key_of_find ha
    have hfind (k : String) : (s.rows.replace { a with domain, wakes }).find k =
        if k = id then (s.rows.find k).map fun _ => { a with domain, wakes } else s.rows.find k := by
      rw [Table.find_replace]
      simp only [hid]
    -- the rows are the same but for the two columns
    have hsame (k : String) (b : Application) (hb : s.rows.find k = some b) :
        ∃ b', (s.rows.replace { a with domain, wakes }).find k = some b' ∧
          b'.previewOf = b.previewOf := by
      rw [hfind]
      split
      · next hk =>
        obtain rfl := Option.some_inj.1 (hb.symm.trans (hk ▸ ha))
        exact ⟨{ b with domain, wakes }, by rw [hb, Option.map_some], rfl⟩
      · exact ⟨b, hb, rfl⟩
    refine ⟨fun k b parent hb hp => ?_, fun k p hon => (hi.safe k p hon).of_rows (hsame k)⟩
    have hold : ∃ b₀, s.rows.find k = some b₀ ∧ b₀.previewOf = some parent := by
      change (s.rows.replace { a with domain, wakes }).find k = some b at hb
      rw [hfind] at hb
      split at hb
      · next hk =>
        obtain ⟨b₀, hb₀, rfl⟩ := Option.map_eq_some_iff.1 hb
        obtain rfl := Option.some_inj.1 (hb₀.symm.trans (hk ▸ ha))
        exact ⟨b₀, hb₀, hp⟩
      · exact ⟨b, hb, hp⟩
    obtain ⟨b₀, hb₀, hp₀⟩ := hold
    obtain ⟨q, hq, hnone⟩ := hi.parents k b₀ parent hb₀ hp₀
    obtain ⟨q', hq', hsameq⟩ := hsame parent q hq
    exact ⟨q', hq', hsameq.trans hnone⟩

theorem step_deleteRow (hi : Inv s) (i : Nat) (done : Bool) : Inv (step s (.deleteRow i done)) := by
  rw [step]
  split
  · next todo id awaited hd =>
    split
    · exact hi
    · cases done with
      | false => exact ⟨hi.parents, fun k p hon => (hi.safe k p hon).of_set hd (fun ht => ht) (Or.inl rfl)⟩
      | true =>
          refine ⟨fun k a parent ha hp => ?_, fun k p hon => (hi.safe k p hon).deleteRow hd⟩
          change (s.rows.delete (under id)).find k = some a at ha
          change ∃ q, (s.rows.delete (under id)).find parent = some q ∧ _
          rw [Table.find_delete] at ha
          obtain ⟨ha, hu⟩ := Option.filter_eq_some_iff.1 ha
          obtain ⟨q, hq, hnone⟩ := hi.parents k a parent ha hp
          refine ⟨q, ?_, hnone⟩
          -- the parent is another row, or its preview would go with it
          have hparent : parent ≠ id := fun he => by simp [under, hp, he] at hu
          rw [Table.find_delete, hq, Option.filter_some, if_pos]
          simp [under, Table.key_of_find hq, hparent, hnone]
  · exact hi

theorem step_fail (hi : Inv s) (i : Nat) (hcalm : Calm s (.fail i)) : Inv (step s (.fail i)) := by
  rw [step]
  split
  · next todo row hd =>
    refine ⟨hi.parents, fun k p hon => ?_⟩
    by_cases ht : Takes todo k p
    · obtain ⟨r, hr, rfl, htakes⟩ := ht
      exact hcalm _ hd r hr p htakes hon
    · refine (hi.safe k p hon).of_deletions (fun d hdm htd => ?_) fun d hdm =>
        ⟨d, List.mem_of_mem_eraseIdx hdm, Or.inr rfl, fun htd => htd⟩
      refine ⟨d, ?_, htd⟩
      obtain ⟨j, hj⟩ := List.mem_iff_getElem?.1 hdm
      refine List.mem_eraseIdx_iff_getElem?.2 ⟨j, fun he => ?_, hj⟩
      rw [he, hd] at hj
      obtain rfl := Option.some_inj.1 hj
      exact ht htd
  · exact hi

theorem inv_step (s : State) (a : Action) (hi : Inv s) (hcalm : Calm s a) : Inv (step s a) := by
  cases a with
  | create a => exact step_create hi a
  | update id domain wakes => exact step_update hi id domain wakes
  | load id =>
      rw [step]
      split <;> exact ⟨hi.parents, hi.safe⟩
  | work i outcome => exact step_work hi i outcome hcalm
  | stop i => exact ⟨hi.parents, hi.safe⟩
  | deleteApplication id =>
      rw [step]
      split
      · exact hi
      · next a ha => exact inv_start hi rfl hcalm fun b hb hu p hp => takes_previews ha hb hu hp
  | closePreview id =>
      rw [step]
      split
      · exact hi
      · next a ha =>
        split
        · next hp => exact inv_start hi rfl hcalm fun b hb hu p hne => under_preview hi ha hp hb hu ▸ takes_tearDown b hne
        · exact hi
  | remove i => exact step_remove hi i
  | deleteRow i done => exact step_deleteRow hi i done
  | fail i => exact step_fail hi i hcalm

end Invariant

def sampleApp (wakes : Bool) : Application := ⟨"a", none, false, true, wakes⟩

def sampleRows (wakes : Bool) : Table Application.id := ⟨[sampleApp wakes], List.nodup_singleton _⟩

theorem safe_sampleRows (wakes : Bool) (p : Part) : Safe (sampleRows wakes) [] "a" p :=
  Or.inr ⟨sampleApp wakes, rfl, fun _ hd => absurd hd List.not_mem_nil⟩

/-- A deployment that has read the row starts its container after the teardown. -/
example : (run step empty [.create (sampleApp false), .load "a", .work 0 .ok, .deleteApplication "a", .remove 0, .remove 0,
    .deleteRow 0 true, .work 0 .ok, .stop 0]).on "a" .container = true := by decide

end Yeah.Teardown
